import NuspecLint.Command.Manifests
import Mathlib.Tactic

/-!
# The way that a path leads

**View.**  Following a path goes from place to place, one for each part: to a place below, or back
to the place that holds it.  Places are given innermost name first while they are followed.

**Results.**
* `FileSystem.locateFrom_append`: a path can be followed in two stretches.
* `FileSystem.Held.follow` and `FileSystem.entry?_of_locateFrom_back`: every place on the way is
  held by directories, and a path that leads back in the end leads to one.
* `Workspace.exists_last_of_isFile`: the path of a file ends in the file's own name.
-/

namespace NuspecLint

namespace Path

theorem follow_append (place xs ys : List String) :
    follow place (xs ++ ys) = follow (follow place xs) ys := by
  induction xs generalizing place with
  | nil =>
      rfl
  | cons part xs ih =>
      exact ih _

theorem follow_concat (place xs : List String) (part : String) :
    follow place (xs ++ [part]) =
      if part = ".." then (follow place xs).tail else part :: follow place xs := by
  rw [follow_append]
  rfl

theorem follow_of_not_mem
    {parts : List String}
    (h : ".." ∉ parts)
    (place : List String) :
    follow place parts = parts.reverse ++ place := by
  induction parts generalizing place with
  | nil =>
      rfl
  | cons part parts ih =>
      rw [List.mem_cons, not_or] at h
      rw [follow, if_neg (Ne.symm h.1), ih h.2]
      simp

theorem resolve_append_singleton
    {name : String}
    (p : Path)
    (h : name ≠ "..") :
    (p.append [name]).resolve = p.resolve ++ [name] := by
  rw [resolve, append, follow_concat, if_neg h, List.reverse_cons]
  rfl

theorem mem_ancestorsOf
    {anchor : Anchor} {parts : List String} {d : Path}
    (h : d ∈ ancestorsOf anchor parts) :
    d.anchor = anchor ∧ d.parts <+: parts.reverse := by
  induction parts with
  | nil =>
      rw [ancestorsOf, List.mem_singleton] at h
      subst h
      exact ⟨rfl, List.prefix_rfl⟩
  | cons part outer ih =>
      rw [ancestorsOf, List.mem_cons] at h
      rcases h with rfl | h
      · exact ⟨rfl, List.prefix_rfl⟩
      · obtain ⟨hanchor, hparts⟩ := ih h
        rw [List.reverse_cons]
        exact ⟨hanchor, hparts.trans (List.prefix_append _ _)⟩

theorem isAbsolute_absolute
    {cwd : Path}
    (hcwd : cwd.isAbsolute = true)
    (p : Path) :
    (p.absolute cwd).isAbsolute = true := by
  unfold absolute
  split
  · assumption
  · exact hcwd

end Path

namespace FileSystem

variable {fs : FileSystem} {place xs ys : List String} {l : Location}

/-- A directory that can be passed: it is there, and it is not closed. -/
def Passable (fs : FileSystem) (place : Location) : Prop :=
  fs.entry? place = some .directory ∧ fs.closes place .passing = false

/-- What it takes to follow a path by one part. -/
theorem locateFrom_cons_iff
    {part : String} {rest : List String} :
    fs.locateFrom place (part :: rest) = .ok l ↔
      fs.Passable place.reverse ∧
      (part = ".." ∨ part.utf8ByteSize ≤ nameLimit) ∧
      fs.locateFrom (if part = ".." then place.tail else part :: place) rest = .ok l := by
  rw [locateFrom, Passable]
  cases hentry : fs.entry? place.reverse with
  | none =>
      simp
  | some e =>
      cases e with
      | file bytes =>
          simp
      | directory =>
          by_cases hclosed : fs.closes place.reverse .passing = true
          · simp [hclosed]
          · by_cases hpart : part = ".."
            · simp [hclosed, hpart]
            · by_cases hlong : nameLimit < part.utf8ByteSize
              · simp [hclosed, hpart, hlong]
              · simp [hclosed, hpart, hlong]
                omega

/-- A path leads where following its parts leads. -/
theorem eq_follow_of_locateFrom
    (h : fs.locateFrom place xs = .ok l) :
    l = (Path.follow place xs).reverse := by
  induction xs generalizing place with
  | nil =>
      cases h
      rfl
  | cons part rest ih =>
      exact ih (locateFrom_cons_iff.mp h).2.2

/-- A path can be followed in two stretches; what ends the first ends the whole. -/
theorem locateFrom_append (fs : FileSystem) (place xs ys : List String) :
    fs.locateFrom place (xs ++ ys) =
      (fs.locateFrom place xs).bind fun _ => fs.locateFrom (Path.follow place xs) ys := by
  induction xs generalizing place with
  | nil =>
      rfl
  | cons part xs ih =>
      rw [List.cons_append, locateFrom, locateFrom, Path.follow]
      cases fs.entry? place.reverse with
      | none =>
          rfl
      | some e =>
          cases e with
          | file bytes =>
              rfl
          | directory =>
              by_cases hclosed : fs.closes place.reverse .passing = true
              · simp [hclosed, Except.bind]
              · by_cases hpart : part = ".."
                · simp [hclosed, hpart, ih]
                · by_cases hlong : nameLimit < part.utf8ByteSize
                  · simp [hclosed, hpart, hlong, Except.bind]
                  · simp [hclosed, hpart, hlong, ih]

theorem locateFrom_append_iff :
    fs.locateFrom place (xs ++ ys) = .ok l ↔
      fs.locateFrom place xs = .ok (Path.follow place xs).reverse ∧
      fs.locateFrom (Path.follow place xs) ys = .ok l := by
  rw [locateFrom_append]
  cases hfirst : fs.locateFrom place xs with
  | error f =>
      simp [Except.bind]
  | ok l' =>
      simp [Except.bind, eq_follow_of_locateFrom hfirst]

/-- The places that hold a place are directories. -/
def Held (fs : FileSystem) (place : List String) : Prop :=
  ∀ t, t <:+ place.tail → fs.entry? t.reverse = some .directory

theorem Held.of_directory
    {t : List String}
    (h : fs.Held place)
    (hplace : fs.entry? place.reverse = some .directory)
    (ht : t <:+ place) :
    fs.entry? t.reverse = some .directory := by
  cases place with
  | nil =>
      rw [List.suffix_nil.mp ht]
      exact hplace
  | cons part outer =>
      rcases List.suffix_cons_iff.mp ht with rfl | ht
      · exact hplace
      · exact h t ht

/-- Every place on the way is held by directories. -/
theorem Held.follow
    (hheld : fs.Held place)
    (h : fs.locateFrom place xs = .ok l) :
    fs.Held (Path.follow place xs) := by
  induction xs generalizing place with
  | nil =>
      exact hheld
  | cons part rest ih =>
      obtain ⟨hplace, _, hrest⟩ := locateFrom_cons_iff.mp h
      refine ih ?_ hrest
      intro t ht
      apply hheld.of_directory hplace.1
      split at ht
      · exact ht.trans ((List.tail_suffix _).trans (List.tail_suffix _))
      · exact ht

theorem held_nil (fs : FileSystem) :
    fs.Held [] := by
  intro t ht
  rw [List.suffix_nil.mp ht]
  rfl

/-- A path that leads back in the end leads to a directory. -/
theorem entry?_of_locateFrom_back
    (h : fs.locateFrom [] (xs ++ [".."]) = .ok l) :
    fs.entry? l = some .directory := by
  obtain ⟨hfirst, hlast⟩ := locateFrom_append_iff.mp h
  have hl := eq_follow_of_locateFrom hlast
  obtain ⟨hplace, _, _⟩ := locateFrom_cons_iff.mp hlast
  rw [hl]
  exact ((held_nil fs).follow hfirst).of_directory hplace.1 (List.tail_suffix _)

end FileSystem

namespace Workspace

variable {w : Workspace} {p : Path} {l : Location}

theorem locate_eq_ok_iff :
    w.locate p = .ok l ↔
      p.hasNull = false ∧ p.text.utf8ByteSize ≤ pathLimit ∧
      w.files.locateFrom (w.origin p) p.parts = .ok l := by
  unfold locate
  split
  · next hnull =>
      simp [hnull]
  · next hnull =>
      rw [Bool.not_eq_true] at hnull
      split
      · next hlong =>
          simp [hnull]
          omega
      · next hshort =>
          simp [hnull]
          omega

/-- The system lets the program look where a path leads that leads to a place. -/
theorem refusal?_of_locate
    (h : w.locate p = .ok l) :
    w.refusal? p = none := by
  rw [refusal?, h]

/-- A question that the system lets the program ask is answered. -/
theorem ask_eq
    (h : w.refusal? p = none)
    (question : Workspace → Path → Bool) :
    w.ask question p = .ok (question w p) := by
  rw [ask, h]

theorem ask_of_refusal
    {f : ReadFault}
    (h : w.refusal? p = some f)
    (question : Workspace → Path → Bool) :
    w.ask question p = .error (.refused p f) := by
  rw [ask, h]

theorem find?_eq_some_iff
    {e : Entry} :
    w.find? p = some e ↔ ∃ l, w.locate p = .ok l ∧ w.files.entry? l = some e := by
  unfold find?
  cases w.locate p with
  | error f =>
      simp
  | ok l =>
      simp

theorem isFile_iff :
    w.isFile p = true ↔ ∃ bytes, w.find? p = some (.file bytes) := by
  unfold isFile
  split
  · next bytes hfind =>
      simp [hfind]
  · next hnot =>
      simpa using hnot

theorem isDirectory_iff :
    w.isDirectory p = true ↔ w.find? p = some .directory := by
  unfold isDirectory
  split
  · next hfind =>
      simp [hfind]
  · next hnot =>
      simpa using hnot

theorem refusal?_of_isDirectory
    (h : w.isDirectory p = true) :
    w.refusal? p = none := by
  obtain ⟨_, hlocate, _⟩ := find?_eq_some_iff.mp (isDirectory_iff.mp h)
  exact refusal?_of_locate hlocate

/-- What it takes to read a file. -/
theorem read_eq_ok_iff
    {bytes : List UInt8} :
    w.read p = .ok bytes ↔
      ∃ l,
        w.locate p = .ok l ∧ w.files.entry? l = some (.file bytes) ∧
        w.files.closes l .reading = false := by
  unfold read
  cases w.locate p with
  | error f =>
      simp
  | ok l =>
      simp only [Except.ok.injEq, exists_eq_left']
      cases w.files.entry? l with
      | none =>
          simp
      | some e =>
          cases hclosed : w.files.closes l .reading with
          | true =>
              simp
          | false =>
              cases e <;> simp

theorem find?_of_read
    {bytes : List UInt8}
    (h : w.read p = .ok bytes) :
    w.find? p = some (.file bytes) := by
  obtain ⟨l, hlocate, hentry, _⟩ := read_eq_ok_iff.mp h
  exact find?_eq_some_iff.mpr ⟨l, hlocate, hentry⟩

/-- A path leads, if to anything, where following its parts leads. -/
theorem placeOf_eq (w : Workspace) (p : Path) :
    w.placeOf p = (Path.follow (w.origin p) p.parts).reverse := by
  rw [placeOf, Path.resolve, origin, Path.absolute]
  split
  · rfl
  · rw [Path.append, Path.follow_append]

theorem eq_placeOf_of_locate
    (h : w.locate p = .ok l) :
    l = w.placeOf p := by
  obtain ⟨_, _, hway⟩ := locate_eq_ok_iff.mp h
  rw [placeOf_eq]
  exact FileSystem.eq_follow_of_locateFrom hway

/-- The program was started in a directory, which its path leads to. -/
structure Rooted (w : Workspace) : Prop where
  absolute : w.cwd.isAbsolute = true
  directory : w.isDirectory w.cwd = true

namespace Rooted

/-- The way to the working directory. -/
theorem exists_way
    (hroot : w.Rooted) :
    w.cwd.hasNull = false ∧
    w.files.locateFrom [] w.cwd.parts = .ok (Path.follow [] w.cwd.parts).reverse ∧
    w.files.entry? (Path.follow [] w.cwd.parts).reverse = some .directory := by
  obtain ⟨l, hlocate, hentry⟩ := find?_eq_some_iff.mp (isDirectory_iff.mp hroot.directory)
  obtain ⟨hnull, _, hway⟩ := locate_eq_ok_iff.mp hlocate
  rw [origin, if_pos hroot.absolute] at hway
  obtain rfl := FileSystem.eq_follow_of_locateFrom hway
  exact ⟨hnull, hway, hentry⟩

/-- A path leads to a place from the working directory exactly if it does from the root. -/
theorem locateFrom_iff
    (hroot : w.Rooted) :
    w.files.locateFrom (w.origin p) p.parts = .ok l ↔
      w.files.locateFrom [] (p.absolute w.cwd).parts = .ok l := by
  rw [origin, Path.absolute]
  split
  · exact Iff.rfl
  · rw [Path.append, FileSystem.locateFrom_append_iff]
    exact (and_iff_right hroot.exists_way.2.1).symm

/-- A path without parts leads to a directory. -/
theorem entry?_of_parts_nil
    (hroot : w.Rooted)
    (hparts : p.parts = [])
    (h : w.locate p = .ok l) :
    w.files.entry? l = some .directory := by
  obtain ⟨_, _, hway⟩ := locate_eq_ok_iff.mp h
  rw [hparts] at hway
  cases hway
  rw [origin]
  split
  · rfl
  · exact hroot.exists_way.2.2

end Rooted

/-- The path of a file ends in the file's own name. -/
theorem exists_last_of_isFile
    (hroot : w.Rooted)
    (h : w.isFile p = true) :
    ∃ last,
      (p.absolute w.cwd).parts = (p.parent.absolute w.cwd).parts ++ [last] ∧
      w.locate p = .ok (w.placeOf p) ∧
      w.placeOf p = (p.parent.absolute w.cwd).resolve ++ [last] := by
  obtain ⟨bytes, hfind⟩ := isFile_iff.mp h
  obtain ⟨l, hlocate, hentry⟩ := find?_eq_some_iff.mp hfind
  obtain rfl := eq_placeOf_of_locate hlocate
  obtain ⟨_, _, hway⟩ := locate_eq_ok_iff.mp hlocate
  rw [hroot.locateFrom_iff] at hway
  rcases List.eq_nil_or_concat p.parts with hparts | ⟨init, last, hparts⟩
  · rw [hroot.entry?_of_parts_nil hparts hlocate] at hentry
    cases hentry
  · have hsplit : (p.absolute w.cwd).parts = (p.parent.absolute w.cwd).parts ++ [last] := by
      unfold Path.absolute Path.parent Path.isAbsolute Path.append
      split <;> simp [hparts]
    rw [hsplit] at hway
    have hlast : last ≠ ".." := by
      rintro rfl
      rw [FileSystem.entry?_of_locateFrom_back hway] at hentry
      cases hentry
    refine ⟨last, hsplit, hlocate, ?_⟩
    rw [placeOf, Path.resolve, hsplit, Path.follow_concat, if_neg hlast, List.reverse_cons]
    rfl

end Workspace

end NuspecLint

import NuspecLint.Proofs.Config.Lookup

/-!
# What the system refuses to be asked

In the search for a configuration one name after the other is asked for, in one directory after the
other.  Any of these questions may be refused: because the name or its path is too long, or because
a directory on the way is closed.

**Strategy.**  Where a question ends is told by the way into the directory alone, up to the length
of the path.  The way is the same for all names there, and it goes through the directories above.
The path is longest for the name that comes first, and shorter further out.

**Results.**
* `Path.Above.utf8ByteSize_text_le`: the path of a name further out is no longer.
* `FileSystem.locateFrom_name_iff`: a name can be looked for exactly where the way back can.
* `Workspace.refusal?_of_sibling` and `Workspace.refusal?_of_above`: where the system lets the
  program look once, it does so for the other names there, and above a place that it is led to.
-/

namespace NuspecLint

namespace Path

variable {d e : Path} {name name' : String}

/-- The first path is one of the lexical parents of the second. -/
structure Above (e d : Path) : Prop where
  anchor_eq : e.anchor = d.anchor
  parts_isPrefix : e.parts <+: d.parts
  parts_ne : e.parts ≠ d.parts

/-- Lexical parents are listed from the innermost to the outermost. -/
theorem pairwise_ancestorsOf (anchor : Anchor) (parts : List String) :
    (ancestorsOf anchor parts).Pairwise fun d e => e.Above d := by
  induction parts with
  | nil =>
      exact List.pairwise_singleton _ _
  | cons part outer ih =>
      rw [ancestorsOf, List.pairwise_cons]
      refine ⟨?_, ih⟩
      intro e he
      obtain ⟨hanchor, hparts⟩ := mem_ancestorsOf he
      refine ⟨hanchor, ?_, ?_⟩
      · rw [List.reverse_cons]
        exact hparts.trans (List.prefix_append _ _)
      · intro heq
        have hlength := hparts.length_le
        rw [heq] at hlength
        simp at hlength

theorem utf8ByteSize_intercalate_concat (parts : List String) (name : String) :
    ("/".intercalate (parts ++ [name])).utf8ByteSize =
      (parts.map fun part => part.utf8ByteSize + 1).sum + name.utf8ByteSize := by
  induction parts with
  | nil =>
      simp
  | cons part parts ih =>
      have hslash : "/".utf8ByteSize = 1 := by decide
      rw [List.cons_append, String.intercalate_cons_of_ne_nil (by simp),
        String.utf8ByteSize_append, String.utf8ByteSize_append, ih, hslash, List.map_cons,
        List.sum_cons]
      omega

/-- How long the path of a name in a directory is. -/
theorem utf8ByteSize_text_append
    (d : Path)
    (hname : name ≠ "") :
    (d.append [name]).text.utf8ByteSize =
      (anchorText d.anchor).utf8ByteSize +
        (d.parts.map fun part => part.utf8ByteSize + 1).sum + name.utf8ByteSize := by
  have hshown : (anchorText d.anchor ++ "/".intercalate (d.parts ++ [name])).utf8ByteSize =
      (anchorText d.anchor).utf8ByteSize +
        (d.parts.map fun part => part.utf8ByteSize + 1).sum + name.utf8ByteSize := by
    rw [String.utf8ByteSize_append, utf8ByteSize_intercalate_concat]
    omega
  have hpos : name.utf8ByteSize ≠ 0 := fun hzero => hname (String.utf8ByteSize_eq_zero_iff.mp hzero)
  rw [text, append, if_neg, hshown]
  rw [String.isEmpty_iff_utf8ByteSize_eq_zero, hshown]
  omega

/-- A name further out has no longer a path, even if it is itself longer by one. -/
theorem Above.utf8ByteSize_text_le
    (h : e.Above d)
    (hname : name ≠ "")
    (hname' : name' ≠ "")
    (hsize : name'.utf8ByteSize ≤ name.utf8ByteSize + 1) :
    (e.append [name']).text.utf8ByteSize ≤ (d.append [name]).text.utf8ByteSize := by
  obtain ⟨hanchor, ⟨more, hmore⟩, hne⟩ := h
  rw [utf8ByteSize_text_append e hname', utf8ByteSize_text_append d hname, ← hanchor, ← hmore]
  cases more with
  | nil =>
      exact absurd (by simpa using hmore) hne
  | cons part more =>
      rw [List.map_append, List.sum_append, List.map_cons, List.sum_cons]
      omega

/-- A path goes through its lexical parents. -/
theorem Above.exists_parts
    (h : e.Above d) :
    ∃ part more, d.parts = e.parts ++ part :: more := by
  obtain ⟨_, ⟨more, hmore⟩, hne⟩ := h
  cases more with
  | nil =>
      exact absurd (by simpa using hmore) hne
  | cons part more =>
      exact ⟨part, more, hmore.symm⟩

end Path

namespace FileSystem

variable {fs : FileSystem} {place xs : List String} {f : ReadFault}

/-- What cannot be led out of cannot be passed. -/
theorem locateFrom_of_back
    (h : fs.locateFrom place (xs ++ [".."]) = .error f)
    (part : String)
    (rest : List String) :
    fs.locateFrom place (xs ++ part :: rest) = .error f := by
  rw [locateFrom_append] at h ⊢
  cases hfirst : fs.locateFrom place xs with
  | error f' =>
      rw [hfirst] at h
      exact h
  | ok l =>
      rw [hfirst] at h
      generalize Path.follow place xs = here at h ⊢
      simp only [Except.bind, locateFrom] at h ⊢
      cases hentry : fs.entry? here.reverse with
      | none =>
          simpa only [hentry] using h
      | some e =>
          cases e with
          | file bytes =>
              simpa only [hentry] using h
          | directory =>
              by_cases hclosed : fs.closes here.reverse .passing = true
              · simpa only [hentry, hclosed, if_true] using h
              · simp [hentry, hclosed] at h

/-- Nor can any other name be looked for there. -/
theorem locateFrom_name_iff
    {name : String}
    (hsize : name.utf8ByteSize ≤ nameLimit) :
    fs.locateFrom place (xs ++ [name]) = .error f ↔
      fs.locateFrom place (xs ++ [".."]) = .error f := by
  constructor
  · intro h
    cases hback : fs.locateFrom place (xs ++ [".."]) with
    | error f' =>
        rw [locateFrom_of_back hback name [], Except.error.injEq] at h
        rw [h]
    | ok l =>
        obtain ⟨hfirst, hlast⟩ := locateFrom_append_iff.mp hback
        obtain ⟨hpass, _, _⟩ := locateFrom_cons_iff.mp hlast
        have hfound : fs.locateFrom place (xs ++ [name]) = .ok _ :=
          locateFrom_append_iff.mpr
            ⟨hfirst, locateFrom_cons_iff.mpr ⟨hpass, Or.inr hsize, rfl⟩⟩
        rw [hfound] at h
        cases h
  · intro h
    exact locateFrom_of_back h name []

end FileSystem

namespace Workspace

variable {w : Workspace} {d e : Path} {name name' : String}

/-- The longest name is looked for first. -/
theorem size_le_of_mem_searchedNames :
    ∀ name ∈ searchedNames, name ≠ "" ∧ name.utf8ByteSize ≤ ".nuspec-ls.toml".utf8ByteSize := by
  decide

/-- The names of configuration files are about as long as each other. -/
theorem size_of_mem_configNames :
    ∀ name ∈ configNames, name ≠ "" ∧
      ∀ name' ∈ configNames, name'.utf8ByteSize ≤ name.utf8ByteSize + 1 := by
  decide

/-- The way into a directory is refused. -/
def RefusedWay (w : Workspace) (d : Path) : Prop :=
  ∃ f : ReadFault,
    w.files.locateFrom (w.origin d) (d.parts ++ [".."]) = .error f ∧ f.isRefusal = true

theorem hasNull_append
    (hname : name.toList.contains (Char.ofNat 0) = false) :
    (d.append [name]).hasNull = d.hasNull := by
  rw [Path.hasNull, Path.append, List.any_append, ← Path.hasNull, List.any_cons, hname]
  simp

/-- A name in a directory is refused because it is too long, or because the way there is. -/
theorem refusal?_append_eq_none_iff
    (hname : name ∈ searchedNames) :
    w.refusal? (d.append [name]) = none ↔
      d.hasNull = true ∨
      ((d.append [name]).text.utf8ByteSize ≤ pathLimit ∧ ¬ w.RefusedWay d) := by
  obtain ⟨_, hsize, hchars⟩ := ne_back_of_mem_searchedNames name hname
  have hway : ∀ f, w.files.locateFrom (w.origin d) (d.parts ++ [name]) = .error f ↔
      w.files.locateFrom (w.origin d) (d.parts ++ [".."]) = .error f :=
    fun f => FileSystem.locateFrom_name_iff hsize
  have horigin : w.origin (d.append [name]) = w.origin d := rfl
  have hparts : (d.append [name]).parts = d.parts ++ [name] := rfl
  rw [refusal?, locate, hasNull_append hchars, horigin, hparts]
  by_cases hnull : d.hasNull = true
  · simp [hnull, ReadFault.isRefusal]
  · by_cases hlong : pathLimit < (d.append [name]).text.utf8ByteSize
    · simp [hnull, hlong, ReadFault.isRefusal]
    · simp only [hnull, hlong, if_false, RefusedWay, ← hway, Bool.false_eq_true, false_or,
        not_lt.mp hlong, true_and]
      cases w.files.locateFrom (w.origin d) (d.parts ++ [name]) with
      | error f =>
          simp
      | ok l =>
          simp

/-- If the first name of a directory is not refused, no name is that is looked for there. -/
theorem refusal?_of_sibling
    (h : w.refusal? (d.append [".nuspec-ls.toml"]) = none)
    (hname : name ∈ searchedNames) :
    w.refusal? (d.append [name]) = none := by
  rw [refusal?_append_eq_none_iff hname]
  rw [refusal?_append_eq_none_iff (by decide)] at h
  obtain ⟨hne, hsize⟩ := size_le_of_mem_searchedNames name hname
  refine h.imp_right (And.imp_left (le_trans ?_))
  rw [Path.utf8ByteSize_text_append d hne, Path.utf8ByteSize_text_append d (by decide)]
  omega

/-- Above a place that a path leads to, nothing is refused. -/
theorem refusal?_of_above
    {l : Location}
    (h : e.Above d)
    (hlocate : w.locate (d.append [name]) = .ok l)
    (hname : name ∈ configNames)
    (hname' : name' ∈ configNames) :
    w.refusal? (e.append [name']) = none := by
  obtain ⟨hne, hsize⟩ := size_of_mem_configNames name hname
  obtain ⟨_, hlength, hway⟩ := locate_eq_ok_iff.mp hlocate
  refine (refusal?_append_eq_none_iff (List.mem_append_left _ hname')).mpr (Or.inr ⟨?_, ?_⟩)
  · exact (h.utf8ByteSize_text_le hne (size_of_mem_configNames name' hname').1
      (hsize name' hname')).trans hlength
  · rintro ⟨f, hback, _⟩
    obtain ⟨part, more, hparts⟩ := h.exists_parts
    have horigin : w.origin (d.append [name]) = w.origin e := by
      rw [origin, origin, Path.isAbsolute, Path.isAbsolute, h.anchor_eq]
      rfl
    rw [horigin, Path.append, hparts, List.append_assoc, List.cons_append,
      FileSystem.locateFrom_of_back hback] at hway
    cases hway

end Workspace

end NuspecLint

import NuspecLint.Proofs.Data.Lookup
import NuspecLint.Proofs.Data.Traversal
import NuspecLint.Proofs.FileSystem

/-!
# What a search of directories comes to

A directory is searched together with the directories in it, as far as the program is allowed to
look.

**View.**  Everything is said by places as they are seen from the directory where the search starts.
The search comes to a directory if each directory on the way can be listed.

**Strategy.**  The induction is on how many directories may be searched one inside the other; what
it says of a directory that the search comes to, it needs of those in it.

**Results.**
* `Workspace.mem_walk_iff`: what is found, if the search ends well.
* `Workspace.nodup_walk`: nothing is found twice.
* `Workspace.exists_hindrance_of_walk` and `Workspace.walk_ne_ok_of_hindrance`: the search fails
  exactly if it comes to a directory where it cannot go on.
-/

namespace NuspecLint

namespace FileSystem

variable {fs : FileSystem} {place rel : Location} {name : String} {e : Entry}

/-- Each place is in use once, by what directories hold, and no name leads back. -/
structure Sound (fs : FileSystem) : Prop where
  distinct : (fs.entries.map Prod.fst).Nodup
  held : ∀ e ∈ fs.entries, ∀ n < e.1.length, fs.entry? (e.1.take n) = some .directory
  named : ∀ e ∈ fs.entries, ".." ∉ e.1

instance (fs : FileSystem) : Decidable fs.Sound :=
  decidable_of_iff
    ((fs.entries.map Prod.fst).Nodup ∧
      (∀ e ∈ fs.entries, ∀ n < e.1.length, fs.entry? (e.1.take n) = some .directory) ∧
      ∀ e ∈ fs.entries, ".." ∉ e.1)
    ⟨fun h => ⟨h.1, h.2.1, h.2.2⟩, fun h => ⟨h.distinct, h.held, h.named⟩⟩

namespace Sound

variable (h : fs.Sound)

include h

theorem found_iff_mem
    (hne : place ≠ []) :
    fs.entry? place = some e ↔ (place, e) ∈ fs.entries := by
  unfold entry?
  rw [if_neg hne, lookup_eq_some_iff_mem h.distinct]

/-- What is somewhere has no part that leads back. -/
theorem not_mem
    (hfound : fs.entry? place = some e) :
    ".." ∉ place := by
  by_cases hne : place = []
  · simp [hne]
  · exact h.named _ ((h.found_iff_mem hne).mp hfound)

/-- What is somewhere is held by directories. -/
theorem directory_of_append
    (hfound : fs.entry? (place ++ rel) = some e)
    (hne : rel ≠ []) :
    fs.entry? place = some .directory := by
  have hmem := (h.found_iff_mem (List.append_ne_nil_of_right_ne_nil place hne)).mp hfound
  have hpos : 0 < rel.length := List.length_pos_iff.mpr hne
  have hheld := h.held _ hmem place.length (by rw [List.length_append]; omega)
  rwa [List.take_left] at hheld

theorem mem_listed_iff :
    (name, e) ∈ fs.listed place ↔ fs.entry? (place ++ [name]) = some e := by
  rw [h.found_iff_mem (by simp), listed, List.mem_filterMap]
  constructor
  · rintro ⟨⟨l, e'⟩, hmem, heq⟩
    dsimp only at heq
    split at heq
    · split at heq
      · next hl =>
          cases heq
          rwa [← hl]
      · cases heq
    · cases heq
  · intro hmem
    exact ⟨_, hmem, by simp⟩

/-- No name is listed twice. -/
theorem nodup_listed :
    ((fs.listed place).map Prod.fst).Nodup := by
  have hnames : (fs.listed place).map Prod.fst =
      (fs.entries.map Prod.fst).filterMap fun l =>
        l.getLast?.bind fun name => if l = place ++ [name] then some name else none := by
    rw [listed, List.map_filterMap, List.filterMap_map]
    congr 1
    funext e
    dsimp only [Function.comp_apply]
    cases e.1.getLast? with
    | none =>
        rfl
    | some name =>
        dsimp only [Option.bind_some]
        split <;> rfl
  rw [hnames]
  refine List.Nodup.filterMap ?_ h.distinct
  have hplace : ∀ (l : Location) name,
      (l.getLast?.bind fun name => if l = place ++ [name] then some name else none) = some name →
      l = place ++ [name] := by
    intro l name hl
    obtain ⟨last, _, hlast⟩ := Option.bind_eq_some_iff.mp hl
    split at hlast
    · next heq =>
        cases hlast
        exact heq
    · cases hlast
  intro l l' name hl hl'
  rw [hplace l name hl, hplace l' name hl']

end Sound

end FileSystem

theorem Path.append_append (p : Path) (xs ys : List String) :
    (p.append xs).append ys = p.append (xs ++ ys) := by
  rw [append, append, append, List.append_assoc]

theorem Path.append_injective (root : Path) :
    Function.Injective root.append := by
  intro rel rel' heq
  exact List.append_cancel_left (congrArg Path.parts heq)

namespace Workspace

variable {w : Workspace} {root p : Path} {place rel more : Location} {name : String}
  {names : List (String × Entry)} {found : List Path} {b : Breakdown} {allowance : Nat}

/-- What a directory has at a place, as seen from there. -/
def entryBelow? (w : Workspace) (root : Path) (rel : Location) : Option Entry :=
  match w.locate root with
  | .ok place => w.files.entry? (place ++ rel)
  | .error _ => none

/-- Each directory on the way to a place can be listed. -/
def Sees (w : Workspace) (root : Path) (rel : Location) : Prop :=
  ∀ outer, outer <+: rel → outer ≠ rel → ∃ names, w.list (root.append outer) = .ok names

instance (w : Workspace) (root : Path) (rel : Location) : Decidable (w.Sees root rel) :=
  decidable_of_iff
    (∀ outer ∈ rel.inits, outer ≠ rel → (w.list (root.append outer)).toOption.isSome = true) <| by
      have hlisted : ∀ outer, (w.list (root.append outer)).toOption.isSome = true ↔
          ∃ names, w.list (root.append outer) = .ok names := by
        intro outer
        cases w.list (root.append outer) <;> simp [Except.toOption]
      simp only [List.mem_inits, hlisted, Sees]

/-- The search of a directory comes to the directory at this place. -/
structure Reached (w : Workspace) (root : Path) (rel : Location) : Prop where
  directory : w.entryBelow? root rel = some .directory
  seen : w.Sees root rel

/-- There is something below a directory, at this place as seen from there. -/
def HasBelow (w : Workspace) (root : Path) (rel : Location) : Prop :=
  (w.entryBelow? root rel).isSome = true

instance (w : Workspace) (root : Path) (rel : Location) : Decidable (w.HasBelow root rel) :=
  inferInstanceAs (Decidable ((w.entryBelow? root rel).isSome = true))

/-- The last name is that of a manifest. -/
def EndsInManifest (rel : Location) : Prop :=
  ∃ outer name, rel = outer ++ [name] ∧ manifestEnding <:+ name.toList

/-- At this place there is something with the name of a manifest, and it is seen. -/
structure IsFound (w : Workspace) (root : Path) (rel : Location) : Prop where
  below : w.HasBelow root rel
  named : EndsInManifest rel
  seen : w.Sees root rel

/-- A directory where the search cannot go on. -/
inductive Hindrance (w : Workspace) (root : Path) (rel : Location) : Breakdown → Prop
  | tooDeep
      (h : w.host.walking ≤ rel.length) :
      Hindrance w root rel .walking
  | unlisted
      {f : ReadFault}
      (h : w.list (root.append rel) = .error f)
      (hf : f ≠ .denied) :
      Hindrance w root rel (.path (.refused (root.append rel) f))

section Steps

theorem sees_nil (w : Workspace) (root : Path) :
    w.Sees root [] := by
  intro outer houter hne
  exact absurd (List.prefix_nil.mp houter) hne

theorem Sees.of_prefix
    (h : w.Sees root more)
    (hrel : rel <+: more) :
    w.Sees root rel := by
  intro outer houter hne
  refine h outer (houter.trans hrel) ?_
  rintro rfl
  exact hne (houter.eq_of_length_le hrel.length_le)

theorem sees_concat_iff :
    w.Sees root (rel ++ [name]) ↔
      w.Sees root rel ∧ ∃ names, w.list (root.append rel) = .ok names := by
  constructor
  · intro h
    exact ⟨h.of_prefix (List.prefix_append rel [name]), h rel (List.prefix_append rel [name])
      (by simp)⟩
  · rintro ⟨h, hlist⟩ outer houter hne
    rcases List.prefix_concat_iff.mp houter with rfl | houter
    · exact absurd rfl hne
    · by_cases heq : outer = rel
      · rwa [heq]
      · exact h outer houter heq

/-- What is seen further in lies behind a directory that can be listed. -/
theorem Sees.exists_list
    (h : w.Sees root (rel ++ more))
    (hne : more ≠ []) :
    ∃ names, w.list (root.append rel) = .ok names :=
  h rel (List.prefix_append rel more) (by simpa using hne)

theorem list_eq_ok_iff :
    w.list p = .ok names ↔
      ∃ place,
        w.locate p = .ok place ∧ w.files.entry? place = some .directory ∧
        w.files.closes place .reading = false ∧ w.files.listed place = names := by
  unfold list
  cases w.locate p with
  | error f =>
      simp
  | ok place =>
      simp only [Except.ok.injEq, exists_eq_left']
      cases w.files.entry? place with
      | none =>
          simp
      | some e =>
          cases e with
          | file bytes =>
              simp
          | directory =>
              cases w.files.closes place .reading <;> simp

theorem placeOf_append
    (w : Workspace) (root : Path)
    (h : ".." ∉ rel) :
    w.placeOf (root.append rel) = w.placeOf root ++ rel := by
  rw [placeOf_eq, placeOf_eq, Path.append, Path.follow_append, Path.follow_of_not_mem h,
    List.reverse_append, List.reverse_reverse]
  rfl

/-- The names in a directory that the search comes to. -/
theorem mem_list_iff
    {e : Entry}
    (hfiles : w.files.Sound)
    (h : w.Reached root rel)
    (hlist : w.list (root.append rel) = .ok names) :
    (name, e) ∈ names ↔ w.entryBelow? root (rel ++ [name]) = some e := by
  obtain ⟨inner, hinner, _, _, rfl⟩ := list_eq_ok_iff.mp hlist
  have hdirectory := h.directory
  unfold entryBelow? at hdirectory ⊢
  cases hroot : w.locate root with
  | error f =>
      rw [hroot] at hdirectory
      cases hdirectory
  | ok place =>
      rw [hroot] at hdirectory
      have hplain := hfiles.not_mem hdirectory
      rw [List.mem_append, not_or] at hplain
      have heq : inner = place ++ rel := by
        rw [eq_placeOf_of_locate hinner, placeOf_append w root hplain.2,
          ← eq_placeOf_of_locate hroot]
      rw [heq, hfiles.mem_listed_iff, List.append_assoc]

theorem nodup_list
    (hfiles : w.files.Sound)
    (hlist : w.list p = .ok names) :
    (names.map Prod.fst).Nodup := by
  obtain ⟨place, _, _, _, rfl⟩ := list_eq_ok_iff.mp hlist
  exact hfiles.nodup_listed

/-- What holds something is a directory. -/
theorem directory_of_entryBelow
    {e : Entry}
    (hfiles : w.files.Sound)
    (h : w.entryBelow? root (rel ++ more) = some e)
    (hne : more ≠ []) :
    w.entryBelow? root rel = some .directory := by
  unfold entryBelow? at h ⊢
  cases hroot : w.locate root with
  | error f =>
      rw [hroot] at h
      cases h
  | ok place =>
      rw [hroot] at h
      dsimp only at h
      rw [← List.append_assoc] at h
      exact hfiles.directory_of_append h hne

theorem mem_directoriesIn_iff :
    name ∈ directoriesIn names ↔ (name, Entry.directory) ∈ names := by
  rw [directoriesIn, List.mem_filterMap]
  constructor
  · rintro ⟨⟨name', e⟩, hmem, heq⟩
    dsimp only at heq
    split at heq
    · next he =>
        cases heq
        rwa [← he]
    · cases heq
  · intro hmem
    exact ⟨_, hmem, by simp⟩

theorem directoriesIn_sublist (names : List (String × Entry)) :
    (directoriesIn names).Sublist (names.map Prod.fst) := by
  induction names with
  | nil =>
      exact List.Sublist.refl _
  | cons e names ih =>
      rw [directoriesIn, List.filterMap_cons, List.map_cons]
      split
      · next hnone =>
          exact ih.cons e.1
      · next name hname =>
          split at hname
          · cases hname
            exact ih.cons_cons e.1
          · cases hname

/-- The search comes to the directories in a directory that it comes to and that can be listed. -/
theorem Reached.step
    (hfiles : w.files.Sound)
    (h : w.Reached root rel)
    (hlist : w.list (root.append rel) = .ok names)
    (hname : name ∈ directoriesIn names) :
    w.Reached root (rel ++ [name]) where
  directory := (mem_list_iff hfiles h hlist).mp (mem_directoriesIn_iff.mp hname)
  seen := sees_concat_iff.mpr ⟨h.seen, names, hlist⟩

/-- Conversely, the next directory on the way further in is listed. -/
theorem mem_directoriesIn_of_reached
    (hfiles : w.files.Sound)
    (h : w.Reached root rel)
    (hlist : w.list (root.append rel) = .ok names)
    (hdirectory : w.entryBelow? root (rel ++ [name]) = some .directory) :
    name ∈ directoriesIn names :=
  mem_directoriesIn_iff.mpr ((mem_list_iff hfiles h hlist).mpr hdirectory)

/-- The manifests right in a directory. -/
def manifestsIn (root : Path) (rel : Location) (names : List (String × Entry)) : List Path :=
  ((names.map Prod.fst).filter isManifest).map fun name => root.append (rel ++ [name])

/-- What the search of a directory gives that can be listed. -/
theorem walk_eq_ok_iff
    (hlist : w.list (root.append rel) = .ok names) :
    w.walk (allowance + 1) (root.append rel) = .ok found ↔
      ∃ below,
        ((directoriesIn names).mapM fun name =>
          w.walk allowance (root.append (rel ++ [name]))) = .ok below ∧
        found = manifestsIn root rel names ++ below.flatten := by
  simp only [walk, hlist, Path.append_append, manifestsIn]
  cases (directoriesIn names).mapM fun name => w.walk allowance (root.append (rel ++ [name])) with
  | error b =>
      simp [bind, Except.bind]
  | ok below =>
      simp [bind, Except.bind, pure, Except.pure, eq_comm]

theorem walk_eq_error_iff
    (hlist : w.list (root.append rel) = .ok names) :
    w.walk (allowance + 1) (root.append rel) = .error b ↔
      ((directoriesIn names).mapM fun name =>
        w.walk allowance (root.append (rel ++ [name]))) = .error b := by
  simp only [walk, hlist, Path.append_append]
  cases (directoriesIn names).mapM fun name => w.walk allowance (root.append (rel ++ [name])) with
  | error b' =>
      simp [bind, Except.bind]
  | ok below =>
      simp [bind, Except.bind, pure, Except.pure]

theorem walk_of_denied
    (hlist : w.list p = .error .denied) :
    w.walk (allowance + 1) p = .ok [] := by
  simp only [walk, hlist]

theorem walk_of_unlisted
    {f : ReadFault}
    (hlist : w.list p = .error f)
    (hf : f ≠ .denied) :
    w.walk (allowance + 1) p = .error (.path (.refused p f)) := by
  simp only [walk, hlist]

end Steps

section Runs

theorem isManifest_iff :
    isManifest name = true ↔ manifestEnding <:+ name.toList :=
  List.isSuffixOf_iff_suffix

/-- What is found right in a directory. -/
theorem mem_manifestsIn_iff
    (hfiles : w.files.Sound)
    (h : w.Reached root rel)
    (hlist : w.list (root.append rel) = .ok names) :
    p ∈ manifestsIn root rel names ↔
      ∃ name, w.IsFound root (rel ++ [name]) ∧ p = root.append (rel ++ [name]) := by
  simp only [manifestsIn, List.mem_map, List.mem_filter]
  constructor
  · rintro ⟨_, ⟨⟨⟨name, e⟩, hmem, rfl⟩, hnamed⟩, rfl⟩
    have hentry := (mem_list_iff hfiles h hlist).mp hmem
    exact ⟨name, ⟨Option.isSome_of_eq_some hentry, ⟨rel, name, rfl, isManifest_iff.mp hnamed⟩,
      sees_concat_iff.mpr ⟨h.seen, names, hlist⟩⟩, rfl⟩
  · rintro ⟨name, ⟨hbelow, ⟨outer, name', heq, hnamed⟩, _⟩, rfl⟩
    obtain ⟨e, hentry⟩ := Option.isSome_iff_exists.mp hbelow
    obtain ⟨_, hlast⟩ := List.append_inj' heq rfl
    obtain rfl : name = name' := List.singleton_inj.mp hlast
    exact ⟨_, ⟨⟨(_, e), (mem_list_iff hfiles h hlist).mpr hentry, rfl⟩, isManifest_iff.mpr hnamed⟩,
      rfl⟩

/-- The search finds the manifests that it sees, and nothing else. -/
theorem mem_walk_iff
    (hfiles : w.files.Sound)
    (h : w.Reached root rel)
    (hwalk : w.walk allowance (root.append rel) = .ok found) :
    p ∈ found ↔
      ∃ more, more ≠ [] ∧ w.IsFound root (rel ++ more) ∧ p = root.append (rel ++ more) := by
  induction allowance generalizing rel found p with
  | zero =>
      cases hwalk
  | succ allowance ih =>
      cases hlist : w.list (root.append rel) with
      | error f =>
          by_cases hf : f = .denied
          · subst hf
            cases (walk_of_denied hlist).symm.trans hwalk
            refine iff_of_false List.not_mem_nil ?_
            rintro ⟨more, hne, hfound, _⟩
            obtain ⟨names, hnames⟩ := hfound.seen.exists_list hne
            cases hlist.symm.trans hnames
          · cases (walk_of_unlisted hlist hf).symm.trans hwalk
      | ok names =>
          obtain ⟨below, hbelow, rfl⟩ := (walk_eq_ok_iff hlist).mp hwalk
          rw [List.mem_append, mem_manifestsIn_iff hfiles h hlist, List.mem_flatten]
          constructor
          · rintro (⟨name, hfound, rfl⟩ | ⟨inner, hinner, hp⟩)
            · exact ⟨[name], by simp, hfound, rfl⟩
            · obtain ⟨name, hname, hwalk'⟩ := exists_of_mem_mapM hbelow hinner
              obtain ⟨more, _, hfound, rfl⟩ := (ih (h.step hfiles hlist hname) hwalk').mp hp
              rw [List.append_assoc, List.singleton_append] at hfound ⊢
              exact ⟨name :: more, by simp, hfound, rfl⟩
          · rintro ⟨more, hne, hfound, rfl⟩
            obtain ⟨name, more, rfl⟩ := List.exists_cons_of_ne_nil hne
            by_cases hmore : more = []
            · subst hmore
              exact Or.inl ⟨name, hfound, rfl⟩
            · -- Further in there is something, so the name is that of a directory.
              rw [← List.singleton_append, ← List.append_assoc] at hfound ⊢
              obtain ⟨e, hentry⟩ := Option.isSome_iff_exists.mp hfound.below
              have hname := mem_directoriesIn_of_reached hfiles h hlist
                (directory_of_entryBelow hfiles hentry hmore)
              obtain ⟨inner, hinner, hwalk'⟩ := exists_result_of_mapM hbelow hname
              exact Or.inr ⟨inner, hinner, (ih (h.step hfiles hlist hname) hwalk').mpr
                ⟨more, hmore, hfound, rfl⟩⟩

theorem nodup_manifestsIn
    (hfiles : w.files.Sound)
    (hlist : w.list p = .ok names) :
    (manifestsIn root rel names).Nodup := by
  refine ((nodup_list hfiles hlist).filter _).map ?_
  intro name name' heq
  exact List.singleton_inj.mp (List.append_cancel_left (root.append_injective heq))

/-- Nothing is found twice. -/
theorem nodup_walk
    (hfiles : w.files.Sound)
    (h : w.Reached root rel)
    (hwalk : w.walk allowance (root.append rel) = .ok found) :
    found.Nodup := by
  induction allowance generalizing rel found with
  | zero =>
      cases hwalk
  | succ allowance ih =>
      cases hlist : w.list (root.append rel) with
      | error f =>
          by_cases hf : f = .denied
          · subst hf
            cases (walk_of_denied hlist).symm.trans hwalk
            exact List.nodup_nil
          · cases (walk_of_unlisted hlist hf).symm.trans hwalk
      | ok names =>
          obtain ⟨below, hbelow, rfl⟩ := (walk_eq_ok_iff hlist).mp hwalk
          have hmem : ∀ name ∈ directoriesIn names, ∀ inner,
              w.walk allowance (root.append (rel ++ [name])) = .ok inner →
              ∀ p ∈ inner, ∃ more, more ≠ [] ∧ p = root.append (rel ++ name :: more) := by
            intro name hname inner hinner p hp
            obtain ⟨more, hne, _, rfl⟩ :=
              (mem_walk_iff hfiles (h.step hfiles hlist hname) hinner).mp hp
            exact ⟨more, hne, by rw [List.append_assoc, List.singleton_append]⟩
          rw [List.nodup_append, List.nodup_flatten]
          refine ⟨nodup_manifestsIn hfiles hlist, ⟨?_, ?_⟩, ?_⟩
          · intro inner hinner
            obtain ⟨name, hname, hwalk'⟩ := exists_of_mem_mapM hbelow hinner
            exact ih (h.step hfiles hlist hname) hwalk'
          · -- Two directories have different names, and so have all paths in them.
            have hnames := (nodup_list hfiles hlist).sublist (directoriesIn_sublist names)
            refine pairwise_of_mapM hbelow hnames ?_
            intro name hname name' hname' inner inner' hne hinner hinner' p hp hp'
            obtain ⟨more, _, rfl⟩ := hmem name hname inner hinner p hp
            obtain ⟨more', _, heq⟩ := hmem name' hname' inner' hinner' _ hp'
            exact hne (List.cons.inj (List.append_cancel_left (root.append_injective heq))).1
          · rintro _ hhere p hp rfl
            obtain ⟨name, _, heq⟩ := List.mem_map.mp hhere
            obtain ⟨inner, hinner, hp⟩ := List.mem_flatten.mp hp
            obtain ⟨name', hname', hwalk'⟩ := exists_of_mem_mapM hbelow hinner
            obtain ⟨more, hne, heq'⟩ := hmem name' hname' inner hwalk' _ hp
            have hparts := List.append_cancel_left (root.append_injective (heq.trans heq'))
            exact hne (List.cons.inj hparts).2.symm

/-- A search that fails has come to a directory where it cannot go on. -/
theorem exists_hindrance_of_walk
    (hfiles : w.files.Sound)
    (hallowance : w.host.walking = rel.length + allowance)
    (h : w.Reached root rel)
    (hwalk : w.walk allowance (root.append rel) = .error b) :
    ∃ more, w.Reached root (rel ++ more) ∧ w.Hindrance root (rel ++ more) b := by
  induction allowance generalizing rel with
  | zero =>
      cases hwalk
      exact ⟨[], by rwa [List.append_nil], .tooDeep (by simp [hallowance])⟩
  | succ allowance ih =>
      cases hlist : w.list (root.append rel) with
      | error f =>
          by_cases hf : f = .denied
          · subst hf
            cases (walk_of_denied hlist).symm.trans hwalk
          · cases (walk_of_unlisted hlist hf).symm.trans hwalk
            exact ⟨[], by rwa [List.append_nil], by
              rw [List.append_nil]
              exact .unlisted hlist hf⟩
      | ok names =>
          obtain ⟨before, name, after, hnames, _, hwalk'⟩ :=
            mapM_eq_error_iff.mp ((walk_eq_error_iff hlist).mp hwalk)
          have hname : name ∈ directoriesIn names := by
            simp [hnames]
          obtain ⟨more, hmore, hhindrance⟩ := ih (by simp [hallowance]; omega)
            (h.step hfiles hlist hname) hwalk'
          rw [List.append_assoc] at hmore hhindrance
          exact ⟨name :: more, hmore, hhindrance⟩

/-- Where the search comes to a directory where it cannot go on, it fails. -/
theorem walk_ne_ok_of_hindrance
    (hfiles : w.files.Sound)
    (hallowance : w.host.walking = rel.length + allowance)
    (h : w.Reached root rel)
    (hmore : w.Reached root (rel ++ more))
    (hhindrance : w.Hindrance root (rel ++ more) b) :
    w.walk allowance (root.append rel) ≠ .ok found := by
  induction allowance generalizing rel more found with
  | zero =>
      rintro ⟨⟩
  | succ allowance ih =>
      intro hwalk
      cases more with
      | nil =>
          rw [List.append_nil] at hhindrance
          cases hhindrance with
          | tooDeep hdeep =>
              omega
          | unlisted hlist hf =>
              cases (walk_of_unlisted hlist hf).symm.trans hwalk
      | cons name more =>
          obtain ⟨names, hlist⟩ := hmore.seen.exists_list (List.cons_ne_nil name more)
          rw [← List.singleton_append, ← List.append_assoc] at hmore hhindrance
          have hdirectory : w.entryBelow? root (rel ++ [name]) = some .directory := by
            by_cases hne : more = []
            · have hlast := hmore.directory
              rwa [hne, List.append_nil] at hlast
            · exact directory_of_entryBelow hfiles hmore.directory hne
          have hname := mem_directoriesIn_of_reached hfiles h hlist hdirectory
          obtain ⟨below, hbelow, _⟩ := (walk_eq_ok_iff hlist).mp hwalk
          obtain ⟨inner, _, hwalk'⟩ := exists_result_of_mapM hbelow hname
          exact ih (by simp [hallowance]; omega) (h.step hfiles hlist hname) hmore hhindrance hwalk'

end Runs

end Workspace

end NuspecLint

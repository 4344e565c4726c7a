import NuspecLint.Proofs.Config.Nearest
import NuspecLint.Proofs.Data.Traversal

/-!
# Every manifest once

The paths of a command line stand for manifests, and several of them may lead to one place: other
spellings, directories inside one another, a manifest beside its directory.

**View.**  The paths are gone through from left to right, and one is kept if it is the first that
leads to its place.  So what one more path adds at the end depends only on the places before it.

**Results.**
* `Workspace.firstOfEach_concat`: what one more path adds.
* `Workspace.firstOfEach_append`: what more paths add, by what they would stand for alone.
* `Workspace.arrivals_firstOfEach`: which paths are kept, by where they stand.
* `Workspace.manifests_eq_ok_iff` and `Workspace.manifests_eq_error_iff`: when there is an answer.
* `Workspace.manifests_once`: which manifests the paths of a command line stand for, or why there is
  no answer.
-/

namespace NuspecLint
namespace Workspace

variable {w : Workspace} {p : Path} {paths found xs ys files : List Path}
  {seen seen' : List Location}

section Steps

/-- It does not matter in which order places were met, or how often. -/
theorem firstOfEach_congr
    (h : ∀ place, place ∈ seen' ↔ place ∈ seen)
    (xs : List Path) :
    w.firstOfEach seen' xs = w.firstOfEach seen xs := by
  induction xs generalizing seen seen' with
  | nil =>
      rfl
  | cons p xs ih =>
      have hnext : ∀ place, place ∈ w.placeOf p :: seen' ↔ place ∈ w.placeOf p :: seen := by
        simp [h]
      simp only [firstOfEach, List.contains_iff_mem, h, ih h, ih hnext]

theorem firstOfEach_middle (before after : List Location) (place : Location) (xs : List Path) :
    w.firstOfEach (before ++ place :: after) xs = w.firstOfEach (place :: (before ++ after)) xs :=
  firstOfEach_congr (fun _ => List.perm_middle.mem_iff) xs

/-- To meet a place once more changes nothing. -/
theorem firstOfEach_again
    {place : Location}
    (h : place ∈ seen)
    (xs : List Path) :
    w.firstOfEach (place :: seen) xs = w.firstOfEach seen xs := by
  refine firstOfEach_congr (fun other => ?_) xs
  rw [List.mem_cons, or_iff_right_iff_imp]
  rintro rfl
  exact h

/-- Places met before take away the paths that lead to them. -/
theorem firstOfEach_eq_filter (seen more : List Location) (xs : List Path) :
    w.firstOfEach (seen ++ more) xs =
      (w.firstOfEach more xs).filter fun p => w.placeOf p ∉ seen := by
  induction xs generalizing more with
  | nil =>
      rfl
  | cons p xs ih =>
      have hnext := ih (w.placeOf p :: more)
      rw [firstOfEach_middle] at hnext
      by_cases hmore : w.placeOf p ∈ more
      · simp [firstOfEach, hmore, ih]
      · by_cases hseen : w.placeOf p ∈ seen
        · rw [firstOfEach_again (List.mem_append_left more hseen)] at hnext
          simp [firstOfEach, hmore, hseen, hnext]
        · simp [firstOfEach, hmore, hseen, hnext]

/-- Paths can be gone through in two lots, the second with the places of the first met before. -/
theorem firstOfEach_append_seen (seen : List Location) (xs ys : List Path) :
    w.firstOfEach seen (xs ++ ys) =
      w.firstOfEach seen xs ++ w.firstOfEach (xs.map w.placeOf ++ seen) ys := by
  induction xs generalizing seen with
  | nil =>
      rfl
  | cons p xs ih =>
      by_cases hp : w.placeOf p ∈ seen
      · simp [firstOfEach, hp, ih, firstOfEach_again]
      · simp [firstOfEach, hp, ih, firstOfEach_middle]

/-- What more paths add: those of them that lead to new places. -/
theorem firstOfEach_append (xs ys : List Path) :
    w.firstOfEach [] (xs ++ ys) =
      w.firstOfEach [] xs ++
        (w.firstOfEach [] ys).filter fun p => w.placeOf p ∉ xs.map w.placeOf := by
  rw [firstOfEach_append_seen, firstOfEach_eq_filter]

/-- What one more path adds: itself, if its place is new. -/
theorem firstOfEach_concat (xs : List Path) (p : Path) :
    w.firstOfEach [] (xs ++ [p]) =
      w.firstOfEach [] xs ++ if w.placeOf p ∈ xs.map w.placeOf then [] else [p] := by
  rw [firstOfEach_append]
  by_cases hp : w.placeOf p ∈ xs.map w.placeOf
  · simp only [firstOfEach, List.contains_nil, Bool.false_eq_true, if_false, hp, if_true,
      List.filter_cons, not_true, decide_false, List.filter_nil]
  · simp only [firstOfEach, List.contains_nil, Bool.false_eq_true, if_false, hp,
      List.filter_cons, not_false_iff, decide_true, if_true, List.filter_nil]

end Steps

section Runs

/-- The places that the kept paths lead to are the places of all. -/
theorem mem_places_firstOfEach
    {place : Location} :
    place ∈ (w.firstOfEach [] found).map w.placeOf ↔ place ∈ found.map w.placeOf := by
  induction found using List.reverseRecOn with
  | nil =>
      rfl
  | append_singleton found p ih =>
      rw [firstOfEach_concat, List.map_append, List.map_append, List.mem_append, List.mem_append,
        ih]
      split
      · next hp =>
          constructor
          · rintro (hplace | hplace)
            · exact Or.inl hplace
            · cases hplace
          · rintro (hplace | hplace)
            · exact Or.inl hplace
            · rw [List.map_singleton, List.mem_singleton] at hplace
              exact Or.inl (hplace ▸ hp)
      · exact Iff.rfl

/-- No two of the kept paths lead to one place. -/
theorem nodup_places_firstOfEach (w : Workspace) (found : List Path) :
    ((w.firstOfEach [] found).map w.placeOf).Nodup := by
  induction found using List.reverseRecOn with
  | nil =>
      exact List.nodup_nil
  | append_singleton found p ih =>
      rw [firstOfEach_concat]
      split
      · rwa [List.append_nil]
      · next hp =>
          rw [List.map_append, List.map_singleton, ← List.concat_eq_append]
          exact ih.concat (mt mem_places_firstOfEach.mp hp)

/-- The path at this index is the first that leads to its place. -/
def IsArrival (w : Workspace) (found : List Path) (i : Nat) : Prop :=
  ∃ p, found[i]? = some p ∧ ∀ q ∈ found.take i, w.placeOf q ≠ w.placeOf p

/-- Of some paths, those that are the first to lead to their places, in order. -/
def Arrivals (w : Workspace) (found files : List Path) : Prop :=
  ∃ indices : List Nat,
    indices.Pairwise (· < ·) ∧
    (∀ i, i ∈ indices ↔ w.IsArrival found i) ∧
    files.map some = indices.map (found[·]?)

theorem IsArrival.lt_length
    {i : Nat}
    (h : w.IsArrival found i) :
    i < found.length := by
  obtain ⟨p, hp, _⟩ := h
  exact (List.getElem?_eq_some_iff.mp hp).1

theorem isArrival_concat_iff
    {i : Nat} :
    w.IsArrival (found ++ [p]) i ↔
      w.IsArrival found i ∨ (i = found.length ∧ w.placeOf p ∉ found.map w.placeOf) := by
  rcases lt_trichotomy i found.length with hlt | rfl | hgt
  · simp only [IsArrival, List.getElem?_append_left hlt, List.take_append_of_le_length hlt.le,
      hlt.ne, false_and, or_false]
  · have hnone : ¬ w.IsArrival found found.length := fun h => absurd h.lt_length (lt_irrefl _)
    simp [IsArrival] at hnone ⊢
  · have hnone : ¬ w.IsArrival found i := fun h => absurd h.lt_length hgt.not_gt
    have hnone' : ¬ w.IsArrival (found ++ [p]) i := by
      intro h
      have hlt := h.lt_length
      rw [List.length_append, List.length_singleton] at hlt
      omega
    simp [hnone, hnone', hgt.ne']

/-- The paths that are kept are those that are the first to lead to their places. -/
theorem arrivals_firstOfEach (w : Workspace) (found : List Path) :
    w.Arrivals found (w.firstOfEach [] found) := by
  -- From left to right: the indices that were kept stay, and that of the last path may join them.
  induction found using List.reverseRecOn with
  | nil =>
      exact ⟨[], List.Pairwise.nil, by simp [IsArrival], rfl⟩
  | append_singleton found p ih =>
      obtain ⟨indices, hordered, hmem, hfiles⟩ := ih
      have hlt : ∀ i ∈ indices, i < found.length := fun i hi => ((hmem i).mp hi).lt_length
      have hkept : indices.map ((found ++ [p])[·]?) = indices.map (found[·]?) :=
        List.map_congr_left fun i hi => List.getElem?_append_left (hlt i hi)
      rw [firstOfEach_concat]
      split
      · next hp =>
          refine ⟨indices, hordered, ?_, by rw [List.append_nil, hfiles, hkept]⟩
          intro i
          rw [isArrival_concat_iff, hmem i]
          simp [hp]
      · next hp =>
          refine ⟨indices ++ [found.length], ?_, ?_, ?_⟩
          · rw [List.pairwise_append]
            refine ⟨hordered, List.pairwise_singleton _ _, ?_⟩
            intro i hi j hj
            rw [List.mem_singleton.mp hj]
            exact hlt i hi
          · intro i
            rw [isArrival_concat_iff, List.mem_append, hmem i, List.mem_singleton]
            simp [hp]
          · rw [List.map_append, List.map_append, hfiles, hkept]
            simp

end Runs

/-- What the paths of a command line stand for. -/
structure Expanded (w : Workspace) (paths files : List Path) : Prop where
  /-- No two of the manifests are at one place. -/
  distinct : (files.map w.placeOf).Nodup
  /-- Their places are those of the paths that lead to no directory, and of the manifests below. -/
  places : ∀ place,
    place ∈ files.map w.placeOf ↔
      (∃ p ∈ paths, w.isDirectory p = false ∧ w.placeOf p = place) ∨
      ∃ d ∈ paths, w.isDirectory d = true ∧
        ∃ ms, w.manifestsBelow d = .ok ms ∧ ∃ m ∈ ms, w.placeOf m = place
  /-- Each is spelled as where it occurs first, and they are in the order of these occurrences. -/
  arrivals : ∃ lists, paths.mapM w.expand = .ok lists ∧ w.Arrivals lists.flatten files

/-- Why there is no answer for the paths of a command line. -/
inductive Refuses (w : Workspace) (paths : List Path) : Breakdown → Prop
  /-- The first path counts that the system refuses to look at, or the search of which fails. -/
  | failed
      {b : Breakdown}
      (h : FirstFails w.manifestsBelow paths b) :
      Refuses w paths b
  | nullCharacter
      {lists : List (List Path)} {p : Path}
      (hlists : paths.mapM w.expand = .ok lists)
      (hmem : p ∈ lists.flatten)
      (hp : p.hasNull = true) :
      Refuses w paths (.path .nullCharacter)

section CommandLine

variable {lists : List (List Path)} {b : Breakdown}

theorem expand_of_directory
    (h : w.isDirectory p = true) :
    w.expand p = w.manifestsBelow p := by
  rw [expand, ask_eq (refusal?_of_isDirectory h), h]
  rfl

theorem expand_of_not_directory
    (hunrefused : w.refusal? p = none)
    (h : w.isDirectory p = false) :
    w.expand p = .ok [p] := by
  rw [expand, ask_eq hunrefused, h]
  rfl

theorem isDirectory_of_refusal
    {f : ReadFault}
    (h : w.refusal? p = some f) :
    w.isDirectory p = false := by
  cases hdirectory : w.isDirectory p with
  | false =>
      rfl
  | true =>
      cases (refusal?_of_isDirectory hdirectory).symm.trans h

/-- A path stands for something unless there is no list of the manifests below it. -/
theorem expand_eq_error_iff :
    w.expand p = .error b ↔ w.manifestsBelow p = .error b := by
  cases hdirectory : w.isDirectory p with
  | true =>
      rw [expand_of_directory hdirectory]
  | false =>
      cases hrefused : w.refusal? p with
      | none =>
          rw [expand_of_not_directory hrefused hdirectory, manifestsBelow, ask_eq hrefused,
            hdirectory]
          exact iff_of_false nofun nofun
      | some f =>
          rw [expand, manifestsBelow, ask_of_refusal hrefused]
          rfl

theorem exists_expand_iff :
    (∃ found, w.expand p = .ok found) ↔ ∃ ms, w.manifestsBelow p = .ok ms := by
  have hrefused := @expand_eq_error_iff w p
  cases hexpand : w.expand p with
  | ok found =>
      cases hbelow : w.manifestsBelow p with
      | ok ms =>
          exact iff_of_true ⟨found, rfl⟩ ⟨ms, rfl⟩
      | error b =>
          cases hexpand.symm.trans (hrefused.mpr hbelow)
  | error b =>
      rw [hrefused.mp hexpand]

theorem mapM_expand_eq_error_iff :
    paths.mapM w.expand = .error b ↔ FirstFails w.manifestsBelow paths b := by
  rw [mapM_eq_error_iff]
  simp only [FirstFails, exists_expand_iff, expand_eq_error_iff]

theorem mem_expand_iff
    {m : Path}
    (h : w.expand p = .ok found) :
    m ∈ found ↔
      (w.isDirectory p = false ∧ m = p) ∨
      (w.isDirectory p = true ∧ ∃ ms, w.manifestsBelow p = .ok ms ∧ m ∈ ms) := by
  cases hdirectory : w.isDirectory p with
  | true =>
      rw [expand_of_directory hdirectory] at h
      simp [h]
  | false =>
      cases hrefused : w.refusal? p with
      | none =>
          cases (expand_of_not_directory hrefused hdirectory).symm.trans h
          simp
      | some f =>
          rw [expand, ask_of_refusal hrefused] at h
          cases h

theorem manifests_of_mapM
    (hlists : paths.mapM w.expand = .ok lists) :
    w.manifests paths =
      if lists.flatten.any Path.hasNull then .error (.path .nullCharacter)
      else .ok (w.firstOfEach [] lists.flatten) := by
  rw [manifests, hlists]
  simp only [bind, Except.bind]
  split <;> rfl

theorem manifests_of_mapM_error
    (h : paths.mapM w.expand = .error b) :
    w.manifests paths = .error b := by
  rw [manifests, h]
  rfl

theorem manifests_eq_ok_iff :
    w.manifests paths = .ok files ↔
      ∃ lists,
        paths.mapM w.expand = .ok lists ∧ (∀ p ∈ lists.flatten, p.hasNull = false) ∧
        files = w.firstOfEach [] lists.flatten := by
  cases hlists : paths.mapM w.expand with
  | error b =>
      rw [manifests_of_mapM_error hlists]
      simp
  | ok lists =>
      rw [manifests_of_mapM hlists]
      simp only [Except.ok.injEq, exists_eq_left']
      split
      · next hnull =>
          obtain ⟨p, hmem, hp⟩ := List.any_eq_true.mp hnull
          refine iff_of_false nofun ?_
          rintro ⟨hwhole, _⟩
          rw [hwhole p hmem] at hp
          cases hp
      · next hnull =>
          rw [Bool.not_eq_true, List.any_eq_false] at hnull
          rw [and_iff_right fun p hp => Bool.eq_false_iff.mpr (hnull p hp), Except.ok.injEq,
            eq_comm]

theorem manifests_eq_error_iff :
    w.manifests paths = .error b ↔ w.Refuses paths b := by
  constructor
  · intro h
    cases hlists : paths.mapM w.expand with
    | error b' =>
        cases (manifests_of_mapM_error hlists).symm.trans h
        exact .failed (mapM_expand_eq_error_iff.mp hlists)
    | ok lists =>
        rw [manifests_of_mapM hlists] at h
        split at h
        · next hnull =>
            cases h
            obtain ⟨p, hmem, hp⟩ := List.any_eq_true.mp hnull
            exact .nullCharacter hlists hmem hp
        · cases h
  · intro h
    cases h with
    | failed h =>
        exact manifests_of_mapM_error (mapM_expand_eq_error_iff.mpr h)
    | @nullCharacter lists p hlists hmem hp =>
        rw [manifests_of_mapM hlists, if_pos (List.any_eq_true.mpr ⟨p, hmem, hp⟩)]

theorem expanded_firstOfEach
    (hlists : paths.mapM w.expand = .ok lists) :
    w.Expanded paths (w.firstOfEach [] lists.flatten) where
  distinct := nodup_places_firstOfEach w _
  places := by
    intro place
    rw [mem_places_firstOfEach]
    simp only [List.mem_map, List.mem_flatten]
    constructor
    · rintro ⟨m, ⟨found, hfound, hm⟩, hplace⟩
      obtain ⟨p, hp, hexpand⟩ := exists_of_mem_mapM hlists hfound
      rcases (mem_expand_iff hexpand).mp hm with ⟨hkind, rfl⟩ | ⟨hkind, ms, hms, hm⟩
      · exact Or.inl ⟨m, hp, hkind, hplace⟩
      · exact Or.inr ⟨p, hp, hkind, ms, hms, m, hm, hplace⟩
    · rintro (⟨p, hp, hkind, hplace⟩ | ⟨d, hd, hkind, ms, hms, m, hm, hplace⟩)
      · obtain ⟨found, hfound, hexpand⟩ := exists_result_of_mapM hlists hp
        exact ⟨p, ⟨found, hfound, (mem_expand_iff hexpand).mpr (Or.inl ⟨hkind, rfl⟩)⟩, hplace⟩
      · obtain ⟨found, hfound, hexpand⟩ := exists_result_of_mapM hlists hd
        exact ⟨m, ⟨found, hfound, (mem_expand_iff hexpand).mpr (Or.inr ⟨hkind, ms, hms, hm⟩)⟩,
          hplace⟩
  arrivals := ⟨lists, hlists, arrivals_firstOfEach w _⟩

/-- More paths add the manifests at new places that they would stand for alone. -/
theorem manifests_append
    {more files' : List Path}
    (h : w.manifests paths = .ok files)
    (h' : w.manifests more = .ok files') :
    w.manifests (paths ++ more) =
      .ok (files ++ files'.filter fun p => w.placeOf p ∉ files.map w.placeOf) := by
  obtain ⟨lists, hlists, hwhole, rfl⟩ := manifests_eq_ok_iff.mp h
  obtain ⟨lists', hlists', hwhole', rfl⟩ := manifests_eq_ok_iff.mp h'
  rw [manifests_eq_ok_iff]
  refine ⟨lists ++ lists', mapM_append_of_ok hlists hlists', ?_, ?_⟩
  · rw [List.flatten_append]
    exact List.forall_mem_append.mpr ⟨hwhole, hwhole'⟩
  · rw [List.flatten_append, firstOfEach_append]
    simp only [mem_places_firstOfEach]

end CommandLine

/-- A package inside a directory, and a manifest beside it. -/
def nested : Workspace :=
  ⟨(FileSystem.empty.writeFile ["r", "m.nuspec"] []).writeFile ["r", "a", "b", "n.nuspec"] [],
    ⟨.root, ["r"]⟩, .usual⟩

/-- The package, the directory that holds it, the manifest beside it, and one that is not there. -/
def nestedPaths : List Path :=
  [.ofString "a/b", .ofString "a", .ofString "a/../m.nuspec", .ofString "x"]

/-- Two of these manifests in other spellings, and one more that is not there. -/
def respelledPaths : List Path :=
  [.ofString "m.nuspec", .ofString "y", .ofString "/r/a"]

end Workspace
end NuspecLint

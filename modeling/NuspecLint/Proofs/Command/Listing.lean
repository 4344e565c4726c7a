import NuspecLint.Proofs.Command.Walk
import Mathlib.Data.List.Lex
import Mathlib.Data.List.Sort
import Mathlib.Data.String.Basic

/-!
# The manifests below a directory

A path to a directory stands for the manifests below it.  Here they are said by what lies below the
directory, seen from there, whatever the directory is called and wherever it is.

**Condition.**  The names of directories without sources are looked for in whole paths.  So it
matters whether one of them occurs in the path of the directory itself, as it is written.  It also
matters what the program may look at: a directory that is closed counts as empty, and other
obstacles end the search.

**Results.**
* `Path.inOrder_iff`: the order of paths is the lexicographic one.
* `Workspace.Listing.exists_places` and `Workspace.Listing.iff_of_listing`: a list determines the
  places that it comes from, and these determine the list.
* `Workspace.listing_manifestsBelow`: what the list holds.
* `Workspace.exists_manifestsBelow_iff`: when there is one.
* `Workspace.manifestsBelow_listing_iff`: when the list is the one that belongs to the directory.
-/

namespace NuspecLint

namespace Path

variable {p q root : Path} {xs ys : List String}

/-- Lists of components are in order unless the second comes first lexicographically. -/
theorem inOrder_iff :
    inOrder xs ys = true ↔ ¬ ys < xs := by
  induction xs generalizing ys with
  | nil =>
      simp [inOrder]
  | cons x xs ih =>
      cases ys with
      | nil =>
          simp [inOrder]
      | cons y ys =>
          rw [inOrder, List.cons_lt_cons_iff]
          rcases lt_trichotomy x y with hlt | rfl | hgt
          · simp [hlt, hlt.ne', hlt.not_gt]
          · simp [ih]
          · simp [hgt, hgt.not_gt]

theorem inOrder_trans
    {zs : List String}
    (h : inOrder xs ys = true)
    (h' : inOrder ys zs = true) :
    inOrder xs zs = true := by
  rw [inOrder_iff, not_lt] at *
  exact h.trans h'

theorem inOrder_total (xs ys : List String) :
    (inOrder xs ys || inOrder ys xs) = true := by
  rw [Bool.or_eq_true, inOrder_iff, inOrder_iff, not_lt, not_lt]
  exact le_total xs ys

theorem components_append (root : Path) (rel : Location) :
    (root.append rel).components = root.components ++ rel :=
  (List.append_assoc _ _ _).symm

/-- The place of a path as seen from a directory above it. -/
def seenFrom (p root : Path) : Location :=
  p.parts.drop root.parts.length

@[simp] theorem seenFrom_append (root : Path) (rel : Location) :
    (root.append rel).seenFrom root = rel :=
  List.drop_left

theorem components_append_lt_iff
    {rel rel' : Location} :
    (root.append rel).components < (root.append rel').components ↔ rel < rel' := by
  rw [components_append, components_append]
  induction root.components with
  | nil =>
      rfl
  | cons part parts ih =>
      rw [List.cons_append, List.cons_append, List.cons_lt_cons_iff, ih]
      simp

end Path

namespace Workspace

variable {w w' : Workspace} {root root' p : Path} {rel : Location} {ps ps' : List Path}
  {source source' : Location → Prop} {b : Breakdown}

/-- No name is that of a directory without sources. -/
def Unskipped (names : List String) : Prop :=
  ∀ name ∈ names, name ∉ skippedNames

instance (names : List String) : Decidable (Unskipped names) :=
  inferInstanceAs (Decidable (∀ name ∈ names, name ∉ skippedNames))

/-- A directory holds a manifest at this place, and no directory without sources is on the way. -/
structure IsSource (w : Workspace) (root : Path) (rel : Location) : Prop where
  below : w.HasBelow root rel
  named : EndsInManifest rel
  unskipped : Unskipped rel

/-- It is found when the directory is searched. -/
structure IsListed (w : Workspace) (root : Path) (rel : Location) : Prop where
  source : w.IsSource root rel
  root_unskipped : Unskipped root.parts
  seen : w.Sees root rel

/--
The paths to some places below a directory, in order.  The order is strict, so none of them is there
twice.
-/
structure Listing (root : Path) (source : Location → Prop) (ps : List Path) : Prop where
  mem_iff : ∀ p, p ∈ ps ↔ ∃ rel, source rel ∧ p = root.append rel
  ordered : ps.Pairwise fun p q => p.components < q.components

namespace Listing

/-- The list seen from the directory: its places in order. -/
theorem exists_places
    (h : Listing root source ps) :
    ∃ rels : List Location, ps = rels.map root.append ∧ rels.Pairwise (· < ·) ∧
      ∀ rel, rel ∈ rels ↔ source rel := by
  have hps : ps = (ps.map fun p => p.seenFrom root).map root.append := by
    calc
      ps = ps.map id := (List.map_id ps).symm
      _ = ps.map (root.append ∘ fun p => p.seenFrom root) := by
        apply List.map_congr_left
        intro p hp
        obtain ⟨rel, _, rfl⟩ := (h.mem_iff p).mp hp
        simp
      _ = (ps.map fun p => p.seenFrom root).map root.append := (List.map_map).symm
  refine ⟨ps.map fun p => p.seenFrom root, hps, ?_, ?_⟩
  · have hordered := h.ordered
    rw [hps, List.pairwise_map] at hordered
    exact hordered.imp Path.components_append_lt_iff.mp
  · intro rel
    constructor
    · intro hrel
      obtain ⟨p, hp, rfl⟩ := List.mem_map.mp hrel
      obtain ⟨rel, hsource, rfl⟩ := (h.mem_iff p).mp hp
      rwa [Path.seenFrom_append]
    · intro hsource
      exact List.mem_map.mpr
        ⟨_, (h.mem_iff _).mpr ⟨rel, hsource, rfl⟩, Path.seenFrom_append root rel⟩

/-- The same places below two directories have the same list, seen from there. -/
theorem alike
    (h : Listing root source ps)
    (h' : Listing root' source' ps')
    (hsame : ∀ rel, source' rel ↔ source rel) :
    ∃ rels : List Location, ps = rels.map root.append ∧ ps' = rels.map root'.append := by
  obtain ⟨rels, hps, hordered, hmem⟩ := h.exists_places
  obtain ⟨rels', hps', hordered', hmem'⟩ := h'.exists_places
  have heq : rels = rels' := by
    refine hordered.eq_of_mem_iff hordered' ?_
    intro rel
    rw [hmem, hmem', hsame]
  exact ⟨rels, hps, by rw [heq, hps']⟩

/-- A list belongs to other places only if they are the same. -/
theorem iff_of_listing
    (h : Listing root source ps) :
    Listing root source' ps ↔ ∀ rel, source' rel ↔ source rel := by
  have hmem : ∀ {source : Location → Prop}, Listing root source ps →
      ∀ rel, source rel ↔ root.append rel ∈ ps := by
    intro source h rel
    rw [h.mem_iff]
    constructor
    · intro hrel
      exact ⟨rel, hrel, rfl⟩
    · rintro ⟨rel', hrel', heq⟩
      rwa [root.append_injective heq]
  constructor
  · intro h' rel
    rw [hmem h, hmem h']
  · intro hsame
    refine ⟨fun p => ?_, h.ordered⟩
    simp only [hsame, h.mem_iff]

end Listing

theorem isWanted_append_iff :
    isWanted (root.append rel) = true ↔ Unskipped root.parts ∧ Unskipped rel := by
  have hanchor : ∀ anchor, Path.anchorText anchor ∉ skippedNames := by
    intro anchor
    cases anchor <;> decide
  unfold isWanted Unskipped
  rw [Path.components_append, Path.components]
  simp only [List.any_append, Bool.not_eq_true', Bool.or_eq_false_iff, List.any_eq_false,
    List.contains_iff_mem, and_congr_left_iff, and_iff_right_iff_imp]
  intro _ _ part hpart
  split at hpart
  · rw [List.mem_singleton.mp hpart]
    exact hanchor root.anchor
  · cases hpart

section Directories

theorem reached_nil
    (h : w.isDirectory root = true) :
    w.Reached root [] := by
  obtain ⟨place, hlocate, hentry⟩ := find?_eq_some_iff.mp (isDirectory_iff.mp h)
  refine ⟨?_, sees_nil w root⟩
  rw [entryBelow?, hlocate]
  dsimp only
  rw [List.append_nil, hentry]

/-- Nothing is below what is no directory. -/
theorem isDirectory_of_hasBelow
    (hfiles : w.files.Sound)
    (h : w.HasBelow root rel)
    (hne : rel ≠ []) :
    w.isDirectory root = true := by
  obtain ⟨e, hentry⟩ := Option.isSome_iff_exists.mp h
  rw [← List.nil_append rel] at hentry
  have hdirectory := directory_of_entryBelow hfiles hentry hne
  unfold entryBelow? at hdirectory
  split at hdirectory
  · next place hlocate =>
      rw [List.append_nil] at hdirectory
      exact isDirectory_iff.mpr (find?_eq_some_iff.mpr ⟨place, hlocate, hdirectory⟩)
  · cases hdirectory

theorem EndsInManifest.ne_nil
    (h : EndsInManifest rel) :
    rel ≠ [] := by
  obtain ⟨outer, name, rfl, _⟩ := h
  simp

/-- The wanted ones among some paths, in order. -/
def sortedWanted (found : List Path) : List Path :=
  (found.filter isWanted).mergeSort fun a b => Path.inOrder a.components b.components

theorem manifestsBelow_of_refusal
    {f : ReadFault}
    (h : w.refusal? root = some f) :
    w.manifestsBelow root = .error (.path (.refused root f)) := by
  rw [manifestsBelow, ask_of_refusal h]
  rfl

theorem manifestsBelow_of_not_directory
    (h : w.refusal? root = none)
    (hroot : w.isDirectory root = false) :
    w.manifestsBelow root = .ok [] := by
  rw [manifestsBelow, ask_eq h, hroot]
  rfl

theorem manifestsBelow_of_directory
    (h : w.isDirectory root = true) :
    w.manifestsBelow root = (w.walk w.host.walking (root.append [])).map sortedWanted := by
  have hroot : root.append [] = root := by
    rw [Path.append, List.append_nil]
  rw [manifestsBelow, ask_eq (refusal?_of_isDirectory h), h, hroot]
  cases w.walk w.host.walking root <;> rfl

/-- What a search of a directory comes to, told by whether it is one and what is found. -/
theorem manifestsBelow_eq_ok_iff :
    w.manifestsBelow root = .ok ps ↔
      w.refusal? root = none ∧ w.isDirectory root = false ∧ ps = [] ∨
      w.isDirectory root = true ∧
        ∃ found, w.walk w.host.walking (root.append []) = .ok found ∧ ps = sortedWanted found := by
  cases hdirectory : w.isDirectory root with
  | true =>
      rw [manifestsBelow_of_directory hdirectory]
      cases w.walk w.host.walking (root.append []) <;> simp [Except.map, eq_comm]
  | false =>
      cases hrefused : w.refusal? root with
      | some f =>
          rw [manifestsBelow_of_refusal hrefused]
          simp
      | none =>
          rw [manifestsBelow_of_not_directory hrefused hdirectory]
          simp [eq_comm]

/-- Why there is no list of the manifests below a directory. -/
inductive Stops (w : Workspace) (root : Path) : Breakdown → Prop
  | refused
      {f : ReadFault}
      (h : w.refusal? root = some f) :
      Stops w root (.path (.refused root f))
  | within
      {rel : Location} {b : Breakdown}
      (hroot : w.isDirectory root = true)
      (h : w.Reached root rel)
      (hhindrance : w.Hindrance root rel b) :
      Stops w root b

theorem stops_of_manifestsBelow
    (hfiles : w.files.Sound)
    (h : w.manifestsBelow root = .error b) :
    w.Stops root b := by
  cases hrefused : w.refusal? root with
  | some f =>
      cases (manifestsBelow_of_refusal hrefused).symm.trans h
      exact .refused hrefused
  | none =>
      cases hdirectory : w.isDirectory root with
      | false =>
          cases (manifestsBelow_of_not_directory hrefused hdirectory).symm.trans h
      | true =>
          rw [manifestsBelow_of_directory hdirectory] at h
          cases hwalk : w.walk w.host.walking (root.append []) with
          | ok found =>
              rw [hwalk] at h
              cases h
          | error b' =>
              rw [hwalk] at h
              cases h
              obtain ⟨rel, hrel, hhindrance⟩ := exists_hindrance_of_walk hfiles
                (by simp) (reached_nil hdirectory) hwalk
              exact .within hdirectory hrel hhindrance

/-- There is a list unless something stops the search. -/
theorem exists_manifestsBelow_iff
    (hfiles : w.files.Sound) :
    (∃ ps, w.manifestsBelow root = .ok ps) ↔ ∀ b, ¬ w.Stops root b := by
  constructor
  · rintro ⟨ps, hps⟩ b hstops
    cases hstops with
    | refused h =>
        cases (manifestsBelow_of_refusal h).symm.trans hps
    | within hdirectory h hhindrance =>
        rcases manifestsBelow_eq_ok_iff.mp hps with ⟨_, hnone, _⟩ | ⟨_, found, hwalk, _⟩
        · cases hnone.symm.trans hdirectory
        · exact walk_ne_ok_of_hindrance hfiles (by simp) (reached_nil hdirectory) h hhindrance hwalk
  · intro hnone
    cases h : w.manifestsBelow root with
    | ok ps =>
        exact ⟨ps, rfl⟩
    | error b =>
        exact absurd (stops_of_manifestsBelow hfiles h) (hnone b)

theorem mem_sortedWanted_iff
    {found : List Path} :
    p ∈ sortedWanted found ↔ p ∈ found ∧ isWanted p = true := by
  rw [sortedWanted, List.mem_mergeSort, List.mem_filter]

/-- The manifests that are found below a directory. -/
theorem mem_manifestsBelow_iff
    (hfiles : w.files.Sound)
    (h : w.manifestsBelow root = .ok ps) :
    p ∈ ps ↔ ∃ rel, w.IsListed root rel ∧ p = root.append rel := by
  rcases manifestsBelow_eq_ok_iff.mp h with ⟨_, hnone, rfl⟩ | ⟨hroot, found, hwalk, rfl⟩
  · refine iff_of_false List.not_mem_nil ?_
    rintro ⟨rel, hrel, _⟩
    have hroot := isDirectory_of_hasBelow hfiles hrel.source.below hrel.source.named.ne_nil
    cases hnone.symm.trans hroot
  · rw [mem_sortedWanted_iff, mem_walk_iff hfiles (reached_nil hroot) hwalk]
    simp only [List.nil_append]
    constructor
    · rintro ⟨⟨rel, _, hfound, rfl⟩, hwanted⟩
      obtain ⟨hparts, hrel⟩ := isWanted_append_iff.mp hwanted
      exact ⟨rel, ⟨⟨hfound.below, hfound.named, hrel⟩, hparts, hfound.seen⟩, rfl⟩
    · rintro ⟨rel, ⟨hsource, hparts, hseen⟩, rfl⟩
      exact ⟨⟨rel, hsource.named.ne_nil, ⟨hsource.below, hsource.named, hseen⟩, rfl⟩,
        isWanted_append_iff.mpr ⟨hparts, hsource.unskipped⟩⟩

theorem nodup_manifestsBelow
    (hfiles : w.files.Sound)
    (h : w.manifestsBelow root = .ok ps) :
    ps.Nodup := by
  rcases manifestsBelow_eq_ok_iff.mp h with ⟨_, _, rfl⟩ | ⟨hroot, found, hwalk, rfl⟩
  · exact List.nodup_nil
  · rw [sortedWanted, (List.mergeSort_perm _ _).nodup_iff]
    exact (nodup_walk hfiles (reached_nil hroot) hwalk).filter _

theorem pairwise_sortedWanted (found : List Path) :
    (sortedWanted found).Pairwise fun p q => Path.inOrder p.components q.components = true := by
  apply List.pairwise_mergeSort
  · intro a b c
    exact Path.inOrder_trans
  · intro a b
    exact Path.inOrder_total _ _

/-- The manifests that are found are in the order of their paths, none of them twice. -/
theorem ordered_manifestsBelow
    (hfiles : w.files.Sound)
    (h : w.manifestsBelow root = .ok ps) :
    ps.Pairwise fun p q => p.components < q.components := by
  have hsorted : ps.Pairwise fun p q => Path.inOrder p.components q.components = true := by
    rcases manifestsBelow_eq_ok_iff.mp h with ⟨_, _, rfl⟩ | ⟨_, found, _, rfl⟩
    · exact List.Pairwise.nil
    · exact pairwise_sortedWanted found
  refine List.Pairwise.imp_of_mem ?_ (hsorted.and (nodup_manifestsBelow hfiles h))
  rintro p q hp hq ⟨hle, hne⟩
  obtain ⟨rel, _, rfl⟩ := (mem_manifestsBelow_iff hfiles h).mp hp
  obtain ⟨rel', _, rfl⟩ := (mem_manifestsBelow_iff hfiles h).mp hq
  rw [Path.inOrder_iff, Path.components_append_lt_iff, not_lt] at hle
  rw [Path.components_append_lt_iff]
  exact lt_of_le_of_ne hle fun heq => hne (congrArg root.append heq)

/-- What the list of a directory holds. -/
theorem listing_manifestsBelow
    (hfiles : w.files.Sound)
    (h : w.manifestsBelow root = .ok ps) :
    Listing root (w.IsListed root) ps where
  mem_iff _ := mem_manifestsBelow_iff hfiles h
  ordered := ordered_manifestsBelow hfiles h

end Directories

/-- A package beside a directory for what is built. -/
def packages : FileSystem :=
  ((FileSystem.empty.writeFile ["repo", "p", "tool", "m.nuspec"] []).writeFile
    ["repo", "p", ".git", "n.nuspec"] []).writeFile ["repo", "build", "o.nuspec"] []

/-- The workspace with these, started in the directory that holds both. -/
def besidePackages : Workspace :=
  ⟨packages, ⟨.root, ["repo"]⟩, .usual⟩

/-- The same workspace, started where things are built. -/
def insideBuild : Workspace :=
  { besidePackages with cwd := ⟨.root, ["repo", "build"]⟩ }

/-- The same workspace, but what is in the package is closed to reading. -/
def besideClosed : Workspace :=
  { besidePackages with files := packages.close ["repo", "p", "tool"] .reading }

theorem sound_packages :
    packages.Sound := by
  decide +kernel

theorem sound_besideClosed :
    besideClosed.files.Sound := by
  decide +kernel

/-- The package has one manifest, apart from what is kept beside its sources. -/
theorem eq_of_isSource_package
    (h : besidePackages.IsSource (.ofString "p") rel) :
    rel = ["tool", "m.nuspec"] := by
  have honly : ∀ l ∈ packages.entries.map Prod.fst,
      l.getLast?.any isManifest = true → Unskipped l → ["repo", "p"] <+: l →
      l = ["repo", "p"] ++ ["tool", "m.nuspec"] := by
    decide +kernel
  have hlocate : besidePackages.locate (.ofString "p") = .ok ["repo", "p"] := by
    decide +kernel
  obtain ⟨e, hentry⟩ := Option.isSome_iff_exists.mp h.below
  rw [entryBelow?, hlocate] at hentry
  have hmem := List.mem_map_of_mem (f := Prod.fst)
    ((sound_packages.found_iff_mem (by simp)).mp hentry)
  obtain ⟨outer, name, rfl, hname⟩ := h.named
  have hplain : Unskipped ["repo", "p"] := by
    decide
  have hunskipped : Unskipped (["repo", "p"] ++ (outer ++ [name])) :=
    List.forall_mem_append.mpr ⟨hplain, h.unskipped⟩
  have hlast : (["repo", "p"] ++ (outer ++ [name])).getLast?.any isManifest = true := by
    rw [← List.append_assoc, List.getLast?_concat]
    exact isManifest_iff.mpr hname
  exact List.append_cancel_left
    (honly _ hmem hlast hunskipped (List.prefix_append ["repo", "p"] (outer ++ [name])))

end Workspace
end NuspecLint

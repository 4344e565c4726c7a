import NuspecLint.Proofs.FileSystem

/-!
# Which configuration applies, by place

The configuration of a manifest is searched for along its path as it is written.  Here the search
is compared with the one along the directories that really hold the manifest.

**Condition.**  A path leads to a manifest without a detour that matters if every directory on the
way holds the manifest, or has neither a configuration file nor a repository in it.

**Results.**
* `FileSystem.governing_ancestorsOf`: going back along a path visits the directories that hold the
  manifest in their order, with detours in between.
* `Workspace.harmless_of_not_mem`: a path that never leads back makes no detours.
* `Workspace.configFile_by_place`: without detours that matter, the configuration depends only on
  the place of the manifest, and it lies in a directory that holds the manifest.
-/

namespace NuspecLint

namespace FileSystem

variable {fs : FileSystem} {place : Location} {xs ys : List Location}

/-- Whether there is a file at a place. -/
def isFileAt (fs : FileSystem) (place : Location) : Bool :=
  match fs.entry? place with
  | some (.file _) => true
  | _ => false

/-- The configuration file in a directory, if there is one. -/
def configIn? (fs : FileSystem) (place : Location) : Option Location :=
  (Workspace.configNames.map fun name => place ++ [name]).find? fs.isFileAt

/-- Whether a directory holds a repository. -/
def holdsRepository (fs : FileSystem) (place : Location) : Bool :=
  (fs.entry? (place ++ [Workspace.repositoryMark])).isSome

/-- The directory has neither a configuration file nor a repository in it. -/
def Blank (fs : FileSystem) (place : Location) : Prop :=
  fs.configIn? place = none ∧ fs.holdsRepository place = false

instance (fs : FileSystem) (place : Location) : Decidable (fs.Blank place) :=
  inferInstanceAs (Decidable (_ ∧ _))

/-- The configuration file that a search through some directories leads to. -/
def governing (fs : FileSystem) : List Location → Option Location
  | [] => none
  | place :: outer =>
      match fs.configIn? place with
      | some found => some found
      | none => if fs.holdsRepository place then none else governing fs outer

theorem governing_of_blank
    (h : fs.Blank place) :
    fs.governing (place :: xs) = fs.governing xs := by
  rw [governing, h.1, h.2]
  rfl

theorem governing_of_not_blank
    (h : ¬ fs.Blank place) :
    fs.governing (place :: xs) = fs.governing (place :: ys) := by
  rw [governing, governing]
  cases hconfig : fs.configIn? place with
  | some found =>
      rfl
  | none =>
      cases hmark : fs.holdsRepository place with
      | true =>
          rfl
      | false =>
          exact absurd ⟨hconfig, hmark⟩ h

/-- A directory and those that hold it, innermost first; the place is given reversed. -/
def enclosing (place : List String) : List Location :=
  place.tails.map List.reverse

@[simp] theorem enclosing_cons (part : String) (place : List String) :
    enclosing (part :: place) = (part :: place).reverse :: enclosing place := by
  simp [enclosing]

theorem exists_enclosing_eq_cons (place : List String) :
    ∃ outer, enclosing place = place.reverse :: outer := by
  cases place with
  | nil =>
      exact ⟨[], rfl⟩
  | cons part place =>
      exact ⟨enclosing place, enclosing_cons part place⟩

/--
Going back along a path visits the directories that hold the manifest in their order.  The
directories of `place` below `top` have been visited and are blank, and the path does not leave
`top` before it comes to it.
-/
theorem governing_ancestorsOf
    {anchor : Anchor} {parts place top : List String}
    (htop : top <:+ place)
    (hparts : top <:+ Path.follow [] parts.reverse)
    (hvisited : ∀ t, t <:+ place → top.length < t.length → fs.Blank t.reverse)
    (hdetours : ∀ d ∈ Path.ancestorsOf anchor parts,
      d.resolve <+: place.reverse ∨ fs.Blank d.resolve) :
    fs.governing ((Path.ancestorsOf anchor parts).map Path.resolve) =
      fs.governing (enclosing top) := by
  induction parts generalizing top with
  | nil =>
      obtain rfl : top = [] := List.suffix_nil.mp hparts
      rfl
  | cons part outer ih =>
      have houter : ∀ d ∈ Path.ancestorsOf anchor outer,
          d.resolve <+: place.reverse ∨ fs.Blank d.resolve :=
        fun d hd => hdetours d (List.mem_cons_of_mem _ hd)
      have hhere := hdetours ⟨anchor, (part :: outer).reverse⟩ List.mem_cons_self
      rw [Path.ancestorsOf, List.map_cons]
      rw [List.reverse_cons] at hparts hhere ⊢
      rw [Path.resolve, Path.follow_concat] at hhere ⊢
      rw [Path.follow_concat] at hparts
      generalize Path.follow [] outer.reverse = before at hparts hhere ih ⊢
      generalize hstep : (if part = ".." then before.tail else part :: before) = here
        at hparts hhere ⊢
      by_cases hblank : fs.Blank here.reverse
      · rw [governing_of_blank hblank]
        by_cases hbefore : top <:+ before
        · exact ih htop hbefore hvisited houter
        · -- Only here does the way leave `top`, for the directory that holds it.
          obtain ⟨rfl, rfl⟩ : here = part :: before ∧ top = part :: before := by
            split at hstep
            · rw [← hstep] at hparts
              exact absurd (hparts.trans (List.tail_suffix before)) hbefore
            · rw [← hstep] at hparts
              exact ⟨hstep.symm, (List.suffix_cons_iff.mp hparts).resolve_right hbefore⟩
          rw [enclosing_cons, governing_of_blank hblank]
          refine ih ((List.suffix_cons part before).trans htop) List.suffix_rfl ?_ houter
          intro t ht hlength
          rcases Nat.lt_or_ge (part :: before).length t.length with hlt | hle
          · exact hvisited t ht hlt
          · have hsuffix := List.suffix_of_suffix_length_le ht htop hle
            rw [hsuffix.eq_of_length (Nat.le_antisymm hle hlength)]
            exact hblank
      · have heq : here = top := by
          by_contra hne
          rcases hhere with hholds | hempty
          · have hlt : top.length < here.length :=
              Nat.lt_of_le_of_ne hparts.length_le fun hlength =>
                hne (hparts.eq_of_length hlength).symm
            exact hblank (hvisited here (List.reverse_prefix.mp hholds) hlt)
          · exact hblank hempty
        obtain ⟨holders, hholders⟩ := exists_enclosing_eq_cons top
        rw [heq] at hblank ⊢
        rw [hholders]
        exact governing_of_not_blank hblank

/-- A configuration file that is found is in one of the directories searched. -/
theorem exists_mem_of_governing
    {found : Location}
    (h : fs.governing xs = some found) :
    ∃ place ∈ xs, ∃ name ∈ Workspace.configNames,
      found = place ++ [name] ∧ fs.isFileAt found = true := by
  induction xs with
  | nil =>
      cases h
  | cons place outer ih =>
      rw [governing] at h
      split at h
      · next hconfig =>
          cases h
          obtain ⟨name, hname, heq⟩ := List.mem_map.mp (List.mem_of_find?_eq_some hconfig)
          exact ⟨place, List.mem_cons_self, name, hname, heq.symm, List.find?_some hconfig⟩
      · split at h
        · cases h
        · obtain ⟨other, hother, hfound⟩ := ih h
          exact ⟨other, List.mem_cons_of_mem _ hother, hfound⟩

end FileSystem

namespace Workspace

variable {w : Workspace} {p d : Path}

/-- The names that are looked for in each directory. -/
def searchedNames : List String :=
  configNames ++ [repositoryMark]

/-- The names that are looked for can be looked for in a directory. -/
structure Open (w : Workspace) (d : Path) : Prop where
  absolute : d.isAbsolute = true
  locate : ∀ name ∈ searchedNames, w.locate (d.append [name]) = .ok (d.resolve ++ [name])

theorem ne_back_of_mem_searchedNames :
    ∀ name ∈ searchedNames, name ≠ ".." ∧ name.utf8ByteSize ≤ nameLimit ∧
      name.toList.contains (Char.ofNat 0) = false := by
  decide

namespace Open

theorem isFile
    {name : String}
    (h : w.Open d)
    (hname : name ∈ searchedNames) :
    w.isFile (d.append [name]) = w.files.isFileAt (d.resolve ++ [name]) := by
  rw [Workspace.isFile, find?, h.locate name hname]
  rfl

theorem exists?
    (h : w.Open d) :
    w.exists? (d.append [repositoryMark]) = w.files.holdsRepository d.resolve := by
  rw [Workspace.exists?, find?, h.locate repositoryMark (by decide)]
  rfl

theorem placeOf
    {name : String}
    (h : w.Open d)
    (hname : name ∈ searchedNames) :
    w.placeOf (d.append [name]) = d.resolve ++ [name] := by
  have habs : (d.append [name]).isAbsolute = true := h.absolute
  rw [Workspace.placeOf, Path.absolute, if_pos habs,
    Path.resolve_append_singleton d (ne_back_of_mem_searchedNames name hname).1]

theorem find?_map_append
    {names : List String}
    (h : w.Open d)
    (hnames : ∀ name ∈ names, name ∈ searchedNames) :
    ((names.map fun name => d.append [name]).find? w.isFile).map w.placeOf =
      (names.map fun name => d.resolve ++ [name]).find? w.files.isFileAt := by
  induction names with
  | nil =>
      rfl
  | cons name names ih =>
      have hname := hnames name List.mem_cons_self
      rw [List.map_cons, List.map_cons, List.find?_cons, List.find?_cons, h.isFile hname]
      cases w.files.isFileAt (d.resolve ++ [name]) with
      | true =>
          simp only [Option.map_some, h.placeOf hname]
      | false =>
          exact ih fun other hother => hnames other (List.mem_cons_of_mem _ hother)

end Open

/-- Where the system lets the program look, the search finds the first file. -/
theorem firstFile_eq
    {cs : List Path}
    (h : ∀ c ∈ cs, w.refusal? c = none) :
    w.firstFile cs = .ok (cs.find? w.isFile) := by
  induction cs with
  | nil =>
      rfl
  | cons c cs ih =>
      obtain ⟨hc, hcs⟩ := List.forall_mem_cons.mp h
      rw [firstFile, ask_eq hc, List.find?_cons]
      cases w.isFile c with
      | true =>
          rfl
      | false =>
          exact ih hcs

/-- One directory more, with names that can be looked for. -/
theorem searchIn_cons
    {ds : List Path}
    (h : ∀ name ∈ searchedNames, w.refusal? (d.append [name]) = none) :
    w.searchIn (d :: ds) =
      match (configNames.map fun name => d.append [name]).find? w.isFile with
      | some found => .ok (some found)
      | none => if w.exists? (d.append [repositoryMark]) then .ok none else w.searchIn ds := by
  have hnames : ∀ c ∈ configNames.map fun name => d.append [name], w.refusal? c = none := by
    intro c hc
    obtain ⟨name, hname, rfl⟩ := List.mem_map.mp hc
    exact h name (List.mem_append_left _ hname)
  rw [searchIn, firstFile_eq hnames, ask_eq (h repositoryMark (by decide))]
  cases (configNames.map fun name => d.append [name]).find? w.isFile with
  | some found =>
      rfl
  | none =>
      cases w.exists? (d.append [repositoryMark]) <;> rfl

/-- The search along the path finds what the search through the places finds. -/
theorem searchIn_eq_governing
    {ds : List Path}
    (h : ∀ d ∈ ds, w.Open d) :
    ∃ found,
      w.searchIn ds = .ok found ∧
      found.map w.placeOf = w.files.governing (ds.map Path.resolve) := by
  induction ds with
  | nil =>
      exact ⟨none, rfl, rfl⟩
  | cons d outer ih =>
      have hopen := h d List.mem_cons_self
      have hhere : _ = w.files.configIn? d.resolve :=
        hopen.find?_map_append (by decide)
      rw [searchIn_cons fun name hname => refusal?_of_locate (hopen.locate name hname),
        hopen.exists?, List.map_cons, FileSystem.governing, ← hhere]
      cases (configNames.map fun name => d.append [name]).find? w.isFile with
      | some found =>
          exact ⟨some found, rfl, rfl⟩
      | none =>
          cases w.files.holdsRepository d.resolve with
          | true =>
              exact ⟨none, rfl, rfl⟩
          | false =>
              exact ih fun d hd => h d (List.mem_cons_of_mem _ hd)

/-- Every directory on the path of a manifest holds it, or is of no account for the search. -/
def Harmless (w : Workspace) (p : Path) : Prop :=
  ∀ d ∈ (p.parent.absolute w.cwd).ancestors,
    d.resolve <+: (w.placeOf p).dropLast ∨ w.files.Blank d.resolve

instance (w : Workspace) (p : Path) : Decidable (w.Harmless p) :=
  inferInstanceAs (Decidable (∀ d ∈ (p.parent.absolute w.cwd).ancestors, _))

/-- What is looked for along the path of a manifest has no path that is too long. -/
def Within (w : Workspace) (p : Path) : Prop :=
  ∀ d ∈ (p.parent.absolute w.cwd).ancestors, ∀ name ∈ searchedNames,
    (d.append [name]).text.utf8ByteSize ≤ pathLimit

instance (w : Workspace) (p : Path) : Decidable (w.Within p) :=
  inferInstanceAs (Decidable (∀ d ∈ (p.parent.absolute w.cwd).ancestors, _))

theorem Rooted.isAbsolute_absolute
    (hroot : w.Rooted)
    (p : Path) :
    (p.absolute w.cwd).isAbsolute = true :=
  Path.isAbsolute_absolute hroot.absolute p

theorem Rooted.hasNull_absolute
    (hroot : w.Rooted)
    (h : p.hasNull = false) :
    (p.absolute w.cwd).hasNull = false := by
  have hcwd := hroot.exists_way.1
  unfold Path.absolute
  split
  · exact h
  · rw [Path.hasNull, Path.append, List.any_append, ← Path.hasNull, ← Path.hasNull, hcwd, h]
    rfl

/-- In the directories on the path of a file, names can be looked for. -/
theorem open_of_mem_ancestors
    (hroot : w.Rooted)
    (hfile : w.isFile p = true)
    (hwithin : w.Within p)
    (hd : d ∈ (p.parent.absolute w.cwd).ancestors) :
    w.Open d := by
  obtain ⟨last, hsplit, hlocate, _⟩ := exists_last_of_isFile hroot hfile
  obtain ⟨hnull, _, hway⟩ := locate_eq_ok_iff.mp hlocate
  rw [hroot.locateFrom_iff] at hway
  obtain ⟨hanchor, hparts⟩ := Path.mem_ancestorsOf hd
  rw [List.reverse_reverse] at hparts
  obtain ⟨more, hmore⟩ := hparts
  have habs : d.isAbsolute = true := by
    rw [Path.isAbsolute, hanchor]
    exact hroot.isAbsolute_absolute p.parent
  have hnull' := hroot.hasNull_absolute hnull
  rw [Path.hasNull, hsplit, ← hmore, List.any_append, List.any_append] at hnull'
  simp only [Bool.or_eq_false_iff] at hnull'
  rw [hsplit, ← hmore, List.append_assoc] at hway
  obtain ⟨hfirst, hrest⟩ := FileSystem.locateFrom_append_iff.mp hway
  have hpass : w.files.Passable (Path.follow [] d.parts).reverse := by
    cases more with
    | nil =>
        exact (FileSystem.locateFrom_cons_iff.mp hrest).1
    | cons part more =>
        exact (FileSystem.locateFrom_cons_iff.mp hrest).1
  refine ⟨habs, ?_⟩
  intro name hname
  obtain ⟨hback, hsize, hchars⟩ := ne_back_of_mem_searchedNames name hname
  have habs' : (d.append [name]).isAbsolute = true := habs
  refine locate_eq_ok_iff.mpr ⟨?_, hwithin d hd name hname, ?_⟩
  · rw [Path.hasNull, Path.append, List.any_append, hnull'.1.1]
    simpa using hchars
  · rw [origin, if_pos habs']
    refine FileSystem.locateFrom_append_iff.mpr ⟨hfirst, ?_⟩
    refine FileSystem.locateFrom_cons_iff.mpr ⟨hpass, Or.inr hsize, ?_⟩
    rw [if_neg hback, FileSystem.locateFrom, List.reverse_cons]
    rfl

/-- The search for the configuration of a manifest goes through the directories that hold it. -/
theorem configFile_eq_governing
    (hroot : w.Rooted)
    (hfile : w.isFile p = true)
    (hharmless : w.Harmless p)
    (hwithin : w.Within p) :
    ∃ found,
      w.configFile p = .ok found ∧
      found.map w.placeOf =
        w.files.governing (FileSystem.enclosing (w.placeOf p).dropLast.reverse) := by
  obtain ⟨last, _, hlocate, hplace⟩ := exists_last_of_isFile hroot hfile
  have hopen : ∀ d ∈ (p.parent.absolute w.cwd).ancestors, w.Open d :=
    fun d hd => open_of_mem_ancestors hroot hfile hwithin hd
  have hdirectory : w.isDirectory p = false := by
    obtain ⟨bytes, hfind⟩ := isFile_iff.mp hfile
    rw [isDirectory, hfind]
  obtain ⟨found, hfound, hgoverning⟩ := searchIn_eq_governing hopen
  refine ⟨found, ?_, ?_⟩
  · rw [configFile, ask_eq (refusal?_of_locate hlocate), hdirectory]
    exact hfound
  rw [hgoverning, hplace, List.dropLast_concat, Path.resolve, List.reverse_reverse]
  refine FileSystem.governing_ancestorsOf List.suffix_rfl ?_ ?_ ?_
  · rw [List.reverse_reverse]
  · intro t ht hlength
    exact absurd ht.length_le (Nat.not_le_of_lt hlength)
  · intro d hd
    have hdetour := hharmless d hd
    rwa [hplace, List.dropLast_concat] at hdetour

/-- A path that never leads back makes no detours. -/
theorem harmless_of_not_mem
    (hroot : w.Rooted)
    (hfile : w.isFile p = true)
    (h : ".." ∉ (p.absolute w.cwd).parts) :
    w.Harmless p := by
  obtain ⟨last, hsplit, _, hplace⟩ := exists_last_of_isFile hroot hfile
  rw [hsplit, List.mem_append, not_or] at h
  intro d hd
  obtain ⟨_, hparts⟩ := Path.mem_ancestorsOf hd
  rw [List.reverse_reverse] at hparts
  have hd' : ".." ∉ d.parts := fun hmem => h.1 (hparts.subset hmem)
  refine Or.inl ?_
  rw [hplace, List.dropLast_concat, Path.resolve, Path.resolve, Path.follow_of_not_mem hd',
    Path.follow_of_not_mem h.1]
  simpa using hparts

end Workspace

/--
**The configuration of a manifest depends on its place.**  However the path of a manifest is
written and wherever the program is started, if the way there makes no detours that matter, the
search comes to an end with the same file or with none, and the file lies in the directory of the
manifest or in one that holds it.
-/
theorem Workspace.configFile_by_place
    {files : FileSystem} {cwd cwd' p q : Path} {host : Host}
    (hroot : Rooted ⟨files, cwd, host⟩)
    (hroot' : Rooted ⟨files, cwd', host⟩)
    (hp : isFile ⟨files, cwd, host⟩ p = true)
    (hq : isFile ⟨files, cwd', host⟩ q = true)
    (hsame : placeOf ⟨files, cwd, host⟩ p = placeOf ⟨files, cwd', host⟩ q)
    (hharmless : Harmless ⟨files, cwd, host⟩ p)
    (hharmless' : Harmless ⟨files, cwd', host⟩ q)
    (hwithin : Within ⟨files, cwd, host⟩ p)
    (hwithin' : Within ⟨files, cwd', host⟩ q) :
    ∃ found found',
      configFile ⟨files, cwd, host⟩ p = .ok found ∧
      configFile ⟨files, cwd', host⟩ q = .ok found' ∧
      found.map (placeOf ⟨files, cwd, host⟩) = found'.map (placeOf ⟨files, cwd', host⟩) ∧
      ∀ f ∈ found, ∃ directory, ∃ name ∈ configNames,
        placeOf ⟨files, cwd, host⟩ f = directory ++ [name] ∧
        directory <+: (placeOf ⟨files, cwd, host⟩ p).dropLast := by
  obtain ⟨found, hfound, hplace⟩ := configFile_eq_governing hroot hp hharmless hwithin
  obtain ⟨found', hfound', hplace'⟩ := configFile_eq_governing hroot' hq hharmless' hwithin'
  refine ⟨found, found', hfound, hfound', ?_, ?_⟩
  · rw [hplace, hplace', hsame]
  · intro f hf
    rw [Option.mem_def] at hf
    subst hf
    obtain ⟨directory, hdirectory, name, hname, heq, _⟩ :=
      FileSystem.exists_mem_of_governing hplace.symm
    refine ⟨directory, name, hname, heq, ?_⟩
    obtain ⟨t, ht, rfl⟩ := List.mem_map.mp hdirectory
    rw [← List.reverse_suffix, List.reverse_reverse]
    exact (List.mem_tails _ _).mp ht

namespace Workspace

/-- Two packages below one configuration. -/
def siblings : FileSystem :=
  ⟨[(["nuspec-ls.toml"], .file []), (["a"], .directory), (["b"], .directory),
    (["b", "m.nuspec"], .file [])], []⟩

/-- A detour through a package without settings does not matter. -/
theorem configFile_by_place_siblings :
    ∃ found found',
      configFile ⟨siblings, ⟨.root, ["b"]⟩, .usual⟩ (.ofString "./m.nuspec") = .ok found ∧
      configFile ⟨siblings, ⟨.root, ["a"]⟩, .usual⟩ (.ofString "../b/m.nuspec") = .ok found' ∧
      found.map (placeOf ⟨siblings, ⟨.root, ["b"]⟩, .usual⟩) =
        found'.map (placeOf ⟨siblings, ⟨.root, ["a"]⟩, .usual⟩) := by
  have hroot : Rooted ⟨siblings, ⟨.root, ["b"]⟩, .usual⟩ := ⟨rfl, by decide +kernel⟩
  have hroot' : Rooted ⟨siblings, ⟨.root, ["a"]⟩, .usual⟩ := ⟨rfl, by decide +kernel⟩
  have hp : isFile ⟨siblings, ⟨.root, ["b"]⟩, .usual⟩ (.ofString "./m.nuspec") = true := by
    decide +kernel
  have hq : isFile ⟨siblings, ⟨.root, ["a"]⟩, .usual⟩ (.ofString "../b/m.nuspec") = true := by
    decide +kernel
  obtain ⟨found, found', hfound, hfound', hplace, _⟩ :=
    configFile_by_place hroot hroot' hp hq (by decide +kernel)
      (harmless_of_not_mem hroot hp (by decide +kernel)) (by decide +kernel)
      (by decide +kernel) (by decide +kernel)
  exact ⟨found, found', hfound, hfound', hplace⟩

/-- Two packages, one of them with settings of its own. -/
def neighbours : Workspace :=
  ⟨⟨[(["a"], .directory), (["a", ".nuspec-ls.toml"], .file []), (["b"], .directory),
    (["b", "m.nuspec"], .file [])], []⟩, ⟨.root, []⟩, .usual⟩

/-- The settings of a package that a path passes through count for a manifest beside it. -/
theorem configFile_depends_on_spelling :
    neighbours.isFile (.ofString "b/m.nuspec") = true ∧
    neighbours.isFile (.ofString "a/../b/m.nuspec") = true ∧
    neighbours.placeOf (.ofString "b/m.nuspec") =
      neighbours.placeOf (.ofString "a/../b/m.nuspec") ∧
    neighbours.configFile (.ofString "b/m.nuspec") = .ok none ∧
    neighbours.configFile (.ofString "a/../b/m.nuspec") =
      .ok (some (.ofString "/a/.nuspec-ls.toml")) := by
  decide +kernel

end Workspace

end NuspecLint

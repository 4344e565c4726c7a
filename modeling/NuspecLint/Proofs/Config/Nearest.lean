import NuspecLint.Proofs.Config.Refusal

/-!
# The nearest configuration governs

The search for a configuration told without searching: which directories it goes through, which of
the files in them it takes, and on how much of the file system this depends.

**View.**  The program asks for one name after the other and stops at the first answer or refusal.
Here the directories and names that it may come to are listed first, and the answer is told from
the list.  The two come to the same, since the longest name of a directory is asked for first, and
since behind a file that is found nothing is refused.

**Condition.**  A directory is consulted if the answer of the search, should there be one, lies in
it or above it.

**Results.**
* `Workspace.searched_searchPath` and `Workspace.Searched.unique`: the search goes through the
  directory of the manifest and its lexical parents, up to the first that holds a repository.
* `Workspace.configFile_eq`: the search, told by the list of places.
* `Workspace.configFile_congr`: nothing matters but the manifest and the directories consulted.
* `Workspace.configFile_nearest`: the answer of the search, for every file system.
-/

namespace NuspecLint

namespace Workspace

variable {w w' : Workspace} {p d e : Path}

section Directories

/-- The directory at which the search for the configuration of a manifest starts. -/
def startOf (w : Workspace) (p : Path) : Path :=
  (if w.isDirectory p then p else p.parent).absolute w.cwd

/-- The directories up to and including the first that holds a repository. -/
def upToRepository (w : Workspace) : List Path → List Path
  | [] => []
  | directory :: outer =>
      if w.exists? (directory.append [repositoryMark]) then [directory]
      else directory :: upToRepository w outer

/-- The directories that are searched for a configuration, unless the search ends before. -/
def searchPath (w : Workspace) (p : Path) : List Path :=
  w.upToRepository (w.startOf p).ancestors

/--
The directories from the start of the search outwards, up to the first that holds a repository or,
if there is none, up to the root.
-/
structure Searched (w : Workspace) (p : Path) (ds : List Path) : Prop where
  along : ds <+: (w.startOf p).ancestors
  inner : ∀ d ∈ ds.dropLast, w.exists? (d.append [repositoryMark]) = false
  ends :
    ds = (w.startOf p).ancestors ∨
    ∃ d ∈ ds.getLast?, w.exists? (d.append [repositoryMark]) = true

variable {all inner : List Path}

theorem upToRepository_isPrefix (w : Workspace) (all : List Path) :
    w.upToRepository all <+: all := by
  induction all with
  | nil =>
      exact List.prefix_rfl
  | cons d outer ih =>
      rw [upToRepository]
      split
      · exact List.cons_prefix_cons.mpr ⟨rfl, List.nil_prefix⟩
      · exact List.cons_prefix_cons.mpr ⟨rfl, ih⟩

/-- Only the last directory that is searched may hold a repository. -/
theorem exists?_of_mem_dropLast
    (h : d ∈ (w.upToRepository all).dropLast) :
    w.exists? (d.append [repositoryMark]) = false := by
  induction all with
  | nil =>
      cases h
  | cons first outer ih =>
      rw [upToRepository] at h
      split at h
      · cases h
      · next hmark =>
          cases hrest : w.upToRepository outer with
          | nil =>
              rw [hrest] at h
              cases h
          | cons second rest =>
              rw [hrest, List.dropLast_cons_cons, List.mem_cons, ← hrest] at h
              rcases h with rfl | h
              · simpa using hmark
              · exact ih h

/-- The search ends at a repository, or goes through all directories. -/
theorem upToRepository_ends (w : Workspace) (all : List Path) :
    w.upToRepository all = all ∨
    ∃ d ∈ (w.upToRepository all).getLast?,
      w.exists? (d.append [repositoryMark]) = true := by
  induction all with
  | nil =>
      exact Or.inl rfl
  | cons first outer ih =>
      rw [upToRepository]
      split
      · next hmark =>
          exact Or.inr ⟨first, rfl, hmark⟩
      · rcases ih with heq | ⟨d, hd, hmark⟩
        · exact Or.inl (congrArg (first :: ·) heq)
        · refine Or.inr ⟨d, ?_, hmark⟩
          rw [List.getLast?_cons, Option.mem_def.mp hd]
          rfl

/-- The search goes through these directories. -/
theorem searched_searchPath (w : Workspace) (p : Path) :
    w.Searched p (w.searchPath p) where
  along := upToRepository_isPrefix w _
  inner _ := exists?_of_mem_dropLast
  ends := upToRepository_ends w _

namespace Searched

variable {outer ds ds' : List Path}

theorem exists?_eq_false
    (h : w.Searched p (inner ++ d :: outer)) :
    ∀ e ∈ inner, w.exists? (e.append [repositoryMark]) = false := by
  intro e he
  apply h.inner
  rw [List.dropLast_append_cons]
  exact List.mem_append_left _ he

/-- The search comes to every directory that has no repository below it. -/
theorem comes_to
    (h : w.Searched p ds)
    (hnear : inner ++ [d] <+: (w.startOf p).ancestors)
    (hinner : ∀ e ∈ inner, w.exists? (e.append [repositoryMark]) = false) :
    inner ++ [d] <+: ds := by
  rcases List.prefix_or_prefix_of_prefix hnear h.along with hle | hle
  · exact hle
  · rcases List.prefix_concat_iff.mp hle with rfl | hle
    · exact List.prefix_rfl
    · exfalso
      rcases h.ends with rfl | ⟨e, he, hmark⟩
      · have hlength := (hnear.trans hle).length_le
        rw [List.length_append, List.length_singleton] at hlength
        omega
      · rw [hinner e (hle.subset (List.mem_of_getLast? he))] at hmark
        cases hmark

theorem isPrefix
    (h : w.Searched p ds)
    (h' : w.Searched p ds') :
    ds <+: ds' := by
  rcases List.eq_nil_or_concat' ds with rfl | ⟨inner, d, rfl⟩
  · exact List.nil_prefix
  · exact h'.comes_to h.along h.exists?_eq_false

/-- There is one list of directories that are searched. -/
theorem unique
    (h : w.Searched p ds)
    (h' : w.Searched p ds') :
    ds = ds' :=
  (h.isPrefix h').eq_of_length_le (h'.isPrefix h).length_le

end Searched

end Directories

section Answers

/-- The first path of a list that passes a test. -/
def IsFirst (test : Path → Bool) (c : Path) (cs : List Path) : Prop :=
  ∃ before after, cs = before ++ c :: after ∧ test c = true ∧ ∀ b ∈ before, test b = false

theorem find?_eq_some_iff_isFirst
    {test : Path → Bool} {c : Path} {cs : List Path} :
    cs.find? test = some c ↔ IsFirst test c cs := by
  rw [List.find?_eq_some_iff_append]
  simp only [IsFirst, Bool.not_eq_true']
  constructor
  · rintro ⟨hc, before, after, heq, hbefore⟩
    exact ⟨before, after, heq, hc, hbefore⟩
  · rintro ⟨before, after, heq, hc, hbefore⟩
    exact ⟨hc, before, after, heq, hbefore⟩

/-- The places where configuration files may be in some directories, in order of preference. -/
def placesIn (ds : List Path) : List Path :=
  ds.flatMap fun d => configNames.map fun name => d.append [name]

theorem placesIn_cons (d : Path) (ds : List Path) :
    placesIn (d :: ds) = (configNames.map fun name => d.append [name]) ++ placesIn ds :=
  List.flatMap_cons

theorem placesIn_append (ds ds' : List Path) :
    placesIn (ds ++ ds') = placesIn ds ++ placesIn ds' :=
  List.flatMap_append

theorem mem_placesIn_iff
    {c : Path} {ds : List Path} :
    c ∈ placesIn ds ↔ ∃ d ∈ ds, ∃ name ∈ configNames, c = d.append [name] := by
  simp only [placesIn, List.mem_flatMap, List.mem_map, eq_comm]

/-- Why the program may not even ask about a path. -/
def fault? (w : Workspace) (c : Path) : Option PathFault :=
  (w.refusal? c).map (.refused c)

/-- The system refuses to look where a path leads. -/
def refused (w : Workspace) (c : Path) : Bool :=
  (w.refusal? c).isSome

theorem fault?_eq_none_iff
    {c : Path} :
    w.fault? c = none ↔ w.refusal? c = none :=
  Option.map_eq_none_iff

theorem refused_eq_false_iff
    {c : Path} :
    w.refused c = false ↔ w.refusal? c = none :=
  Option.isSome_eq_false_iff.trans Option.isNone_iff_eq_none

theorem findSome?_fault?_eq_none_iff
    {cs : List Path} :
    cs.findSome? w.fault? = none ↔ ∀ c ∈ cs, w.refused c = false := by
  simp only [List.findSome?_eq_none_iff, fault?_eq_none_iff, refused_eq_false_iff]

/-- What the places come to: the first refusal, or else the first file. -/
def answer (w : Workspace) (asked places : List Path) : Except PathFault (Option Path) :=
  match asked.findSome? w.fault? with
  | some f => .error f
  | none => .ok (places.find? w.isFile)

/-- Behind a file that is found nothing is refused, in its directory or above. -/
theorem fault?_eq_none_of_isFile
    {name : String} {ds : List Path}
    (hsiblings : ∀ name ∈ configNames, w.refusal? (d.append [name]) = none)
    (habove : ∀ e ∈ ds, e.Above d)
    (hname : name ∈ configNames)
    (hfile : w.isFile (d.append [name]) = true) :
    (placesIn (d :: ds)).findSome? w.fault? = none := by
  obtain ⟨bytes, hfind⟩ := isFile_iff.mp hfile
  obtain ⟨l, hlocate, _⟩ := find?_eq_some_iff.mp hfind
  simp only [List.findSome?_eq_none_iff, fault?_eq_none_iff]
  intro c hc
  obtain ⟨e, he, name', hname', rfl⟩ := mem_placesIn_iff.mp hc
  rcases List.mem_cons.mp he with rfl | he
  · exact hsiblings name' hname'
  · exact refusal?_of_above (habove e he) hlocate hname hname'

/-- The search through some directories, told by the list of places in them. -/
theorem searchIn_eq
    {all : List Path}
    (hpairs : all.Pairwise fun d e => e.Above d) :
    w.searchIn all =
      w.answer (placesIn (w.upToRepository all)) (placesIn (w.upToRepository all)) := by
  induction all with
  | nil =>
      rfl
  | cons d outer ih =>
      obtain ⟨habove, hpairs⟩ := List.pairwise_cons.mp hpairs
      cases hfirst : w.refusal? (d.append [".nuspec-ls.toml"]) with
      | some f =>
          have hsearch : w.searchIn (d :: outer) =
              .error (.refused (d.append [".nuspec-ls.toml"]) f) := by
            simp only [searchIn, configNames, List.map_cons, firstFile, ask, hfirst, bind,
              Except.bind]
          have hlist : ∃ more, placesIn (w.upToRepository (d :: outer)) =
              d.append [".nuspec-ls.toml"] :: more := by
            rw [upToRepository]
            split
            · exact ⟨_, rfl⟩
            · exact ⟨_, rfl⟩
          obtain ⟨more, hmore⟩ := hlist
          rw [hsearch, answer, hmore, List.findSome?_cons, fault?, hfirst]
          rfl
      | none =>
          have hnames : ∀ name ∈ searchedNames, w.refusal? (d.append [name]) = none :=
            fun name hname => refusal?_of_sibling hfirst hname
          have hconfig : ∀ name ∈ configNames, w.refusal? (d.append [name]) = none :=
            fun name hname => hnames name (List.mem_append_left _ hname)
          have hhere :
              (configNames.map fun name => d.append [name]).findSome? w.fault? = none := by
            simp only [List.findSome?_eq_none_iff, fault?_eq_none_iff, List.forall_mem_map]
            exact hconfig
          rw [searchIn_cons hnames]
          cases hfile : (configNames.map fun name => d.append [name]).find? w.isFile with
          | some found =>
              obtain ⟨name, hname, rfl⟩ := List.mem_map.mp (List.mem_of_find?_eq_some hfile)
              have hrest : ∃ rest, w.upToRepository (d :: outer) = d :: rest ∧
                  ∀ e ∈ rest, e.Above d := by
                rw [upToRepository]
                split
                · exact ⟨[], rfl, by simp⟩
                · exact ⟨_, rfl, fun e he => habove e ((upToRepository_isPrefix w _).subset he)⟩
              obtain ⟨rest, hrest, hbehind⟩ := hrest
              rw [hrest, answer,
                fault?_eq_none_of_isFile hconfig hbehind hname (List.find?_some hfile),
                placesIn_cons, List.find?_append, hfile]
              rfl
          | none =>
              rw [upToRepository]
              dsimp only
              split
              · rw [answer, placesIn_cons, List.findSome?_append, List.find?_append, hhere, hfile]
                rfl
              · rw [ih hpairs, answer, answer, placesIn_cons, List.findSome?_append,
                  List.find?_append, hhere, hfile, Option.none_or, Option.none_or]

theorem configFile_eq (w : Workspace) (p : Path) :
    w.configFile p = w.answer (p :: placesIn (w.searchPath p)) (placesIn (w.searchPath p)) := by
  rw [answer, List.findSome?_cons, fault?, configFile]
  cases hp : w.refusal? p with
  | some f =>
      rw [ask_of_refusal hp]
      rfl
  | none =>
      rw [ask_eq hp]
      exact searchIn_eq (Path.pairwise_ancestorsOf _ _)

theorem configFile_eq_error_iff
    {c : Path} {f : ReadFault} :
    w.configFile p = .error (.refused c f) ↔
      IsFirst w.refused c (p :: placesIn (w.searchPath p)) ∧ w.refusal? c = some f := by
  have hfault : ∀ {c' : Path}, w.fault? c' = some (.refused c f) ↔
      c' = c ∧ w.refusal? c' = some f := by
    intro c'
    rw [fault?]
    cases w.refusal? c' with
    | none =>
        simp
    | some f' =>
        simp
  have hanswer : w.configFile p = .error (.refused c f) ↔
      (p :: placesIn (w.searchPath p)).findSome? w.fault? = some (.refused c f) := by
    rw [configFile_eq, answer]
    cases (p :: placesIn (w.searchPath p)).findSome? w.fault? with
    | none =>
        simp
    | some fault =>
        simp
  rw [hanswer, List.findSome?_eq_some_iff]
  simp only [hfault, fault?_eq_none_iff, IsFirst, refused_eq_false_iff]
  constructor
  · rintro ⟨before, c', after, hplaces, ⟨rfl, hc⟩, hbefore⟩
    exact ⟨⟨before, after, hplaces, by rw [refused, hc]; rfl, hbefore⟩, hc⟩
  · rintro ⟨⟨before, after, hplaces, _, hbefore⟩, hc⟩
    exact ⟨before, c, after, hplaces, ⟨rfl, hc⟩, hbefore⟩

theorem configFile_eq_ok_iff
    {found : Option Path} :
    w.configFile p = .ok found ↔
      (∀ c ∈ p :: placesIn (w.searchPath p), w.refused c = false) ∧
      (placesIn (w.searchPath p)).find? w.isFile = found := by
  rw [← findSome?_fault?_eq_none_iff, configFile_eq, answer]
  cases (p :: placesIn (w.searchPath p)).findSome? w.fault? with
  | none =>
      simp
  | some f =>
      simp

end Answers

section Agreement

/-- The search comes to a directory: its answer, if it has one, lies there or further out. -/
def Consulted (w : Workspace) (p d : Path) : Prop :=
  ∀ f, w.configFile p = .ok (some f) → f.parent.parts <+: d.parts

/-- Two workspaces answer alike when they are asked for what is looked for in a directory. -/
structure AgreeIn (w w' : Workspace) (d : Path) : Prop where
  repository :
    w'.exists? (d.append [repositoryMark]) = w.exists? (d.append [repositoryMark])
  isFile : ∀ name ∈ configNames, w'.isFile (d.append [name]) = w.isFile (d.append [name])
  refusal :
    ∀ name ∈ configNames, w'.refusal? (d.append [name]) = w.refusal? (d.append [name])

instance (w w' : Workspace) (d : Path) : Decidable (w.AgreeIn w' d) :=
  decidable_of_iff
    (w'.exists? (d.append [repositoryMark]) = w.exists? (d.append [repositoryMark]) ∧
      (∀ name ∈ configNames, w'.isFile (d.append [name]) = w.isFile (d.append [name])) ∧
      ∀ name ∈ configNames, w'.refusal? (d.append [name]) = w.refusal? (d.append [name]))
    ⟨fun h => ⟨h.1, h.2.1, h.2.2⟩, fun h => ⟨h.repository, h.isFile, h.refusal⟩⟩

/--
Two workspaces answer alike when they are asked for the manifest, and for what is looked for in the
directories of a search up to the one that holds its answer.
-/
structure Agree (w w' : Workspace) (p : Path) (ds : List Path) : Prop where
  cwd : w'.cwd = w.cwd
  isDirectory : w'.isDirectory p = w.isDirectory p
  refusal : w'.refusal? p = w.refusal? p
  consulted : ∀ d ∈ ds, w.Consulted p d → w.AgreeIn w' d

variable {ds : List Path}

theorem isFile_of_agreeIn
    (h : ∀ d ∈ ds, w.AgreeIn w' d) :
    ∀ c ∈ placesIn ds, w'.isFile c = w.isFile c := by
  intro c hc
  obtain ⟨d, hd, name, hname, rfl⟩ := mem_placesIn_iff.mp hc
  exact (h d hd).isFile name hname

theorem refusal?_of_agreeIn
    (h : ∀ d ∈ ds, w.AgreeIn w' d) :
    ∀ c ∈ placesIn ds, w'.refusal? c = w.refusal? c := by
  intro c hc
  obtain ⟨d, hd, name, hname, rfl⟩ := mem_placesIn_iff.mp hc
  exact (h d hd).refusal name hname

theorem Agree.startOf_eq
    (h : w.Agree w' p ds) :
    w'.startOf p = w.startOf p := by
  rw [startOf, startOf, h.isDirectory, h.cwd]

/-- Workspaces that agree in all directories of a search go through the same ones. -/
theorem Agree.searched_of_all
    (h : w.Agree w' p (w.searchPath p))
    (hall : ∀ d ∈ w.searchPath p, w.AgreeIn w' d) :
    w'.Searched p (w.searchPath p) := by
  obtain ⟨halong, hinner, hends⟩ := searched_searchPath w p
  rw [← h.startOf_eq] at halong hends
  refine ⟨halong, ?_, hends.imp_right ?_⟩
  · intro d hd
    rw [(hall d (List.mem_of_mem_dropLast hd)).repository]
    exact hinner d hd
  · rintro ⟨d, hd, hmark⟩
    refine ⟨d, hd, ?_⟩
    rw [(hall d (List.mem_of_getLast? hd)).repository]
    exact hmark

/-- Workspaces that agree in all directories of the search give the same answer. -/
theorem Agree.configFile_of_all
    (h : w.Agree w' p (w.searchPath p))
    (hall : ∀ d ∈ w.searchPath p, w.AgreeIn w' d) :
    w'.configFile p = w.configFile p := by
  have hpath : w'.searchPath p = w.searchPath p :=
    (searched_searchPath w' p).unique (h.searched_of_all hall)
  have hfaults : (p :: placesIn (w.searchPath p)).findSome? w'.fault? =
      (p :: placesIn (w.searchPath p)).findSome? w.fault? := by
    have halike : ∀ c ∈ p :: placesIn (w.searchPath p), w'.refusal? c = w.refusal? c :=
      List.forall_mem_cons.mpr ⟨h.refusal, refusal?_of_agreeIn hall⟩
    have hfaults : ∀ c ∈ p :: placesIn (w.searchPath p), w'.fault? c = w.fault? c := by
      intro c hc
      rw [fault?, halike c hc, fault?]
    rw [← List.head?_filterMap, ← List.head?_filterMap, List.filterMap_congr hfaults]
  have hfile : (placesIn (w.searchPath p)).find? w'.isFile =
      (placesIn (w.searchPath p)).find? w.isFile :=
    List.find?_congr (isFile_of_agreeIn hall)
  rw [configFile_eq, configFile_eq, hpath, answer, answer, hfaults, hfile]

/--
The directories up to the one that holds the answer are the first that are searched in any other
workspace that agrees in these, and what it searches behind them lies above.
-/
theorem Agree.exists_near
    {holder : Path}
    (h : w.Agree w' p (w.searchPath p))
    (hholder : holder ∈ w.searchPath p)
    (hconsulted : ∀ d, holder.parts <+: d.parts → w.Consulted p d) :
    ∃ near outer outer',
      w.searchPath p = near ++ outer ∧ w'.searchPath p = near ++ outer' ∧
      holder ∈ near ∧ (∀ d ∈ near, w.AgreeIn w' d) ∧ ∀ e ∈ outer', e.Above holder := by
  obtain ⟨inner, outer, hsplit⟩ := List.append_of_mem hholder
  have hsearched := searched_searchPath w p
  rw [hsplit] at hsearched
  rw [List.append_cons] at hsplit
  have hpairs := Path.pairwise_ancestorsOf (w.startOf p).anchor (w.startOf p).parts.reverse
  rw [← Path.ancestors] at hpairs
  have hnear : inner ++ [holder] <+: (w.startOf p).ancestors :=
    List.IsPrefix.trans ⟨outer, by simp⟩ hsearched.along
  have hbelow := (List.pairwise_append.mp (hpairs.sublist hnear.sublist)).2.2
  have hagree : ∀ d ∈ inner ++ [holder], w.AgreeIn w' d := by
    intro d hd
    have hmem : d ∈ w.searchPath p := by
      rw [hsplit]
      exact List.mem_append_left outer hd
    refine h.consulted d hmem (hconsulted d ?_)
    rcases List.mem_append.mp hd with hd | hd
    · exact (hbelow d hd holder List.mem_cons_self).parts_isPrefix
    · rw [List.mem_singleton.mp hd]
  have hinner : ∀ d ∈ inner, w'.exists? (d.append [repositoryMark]) = false := by
    intro d hd
    rw [(hagree d (List.mem_append_left _ hd)).repository]
    exact hsearched.exists?_eq_false d hd
  have hsearched' := searched_searchPath w' p
  obtain ⟨outer', hsplit'⟩ := hsearched'.comes_to (h.startOf_eq ▸ hnear) hinner
  refine ⟨inner ++ [holder], outer, outer', hsplit, hsplit'.symm, by simp, hagree, ?_⟩
  intro e he
  have hbefore : inner ++ [holder] ++ outer' <+: (w.startOf p).ancestors := by
    rw [hsplit', ← h.startOf_eq]
    exact hsearched'.along
  have hbehind := (List.pairwise_append.mp (hpairs.sublist hbefore.sublist)).2.2
  exact hbehind holder (by simp) e he

/-- A search that has an answer gives it wherever the directories up to it are alike. -/
theorem Agree.configFile_of_found
    {f : Path}
    (h : w.Agree w' p (w.searchPath p))
    (hfound : w.configFile p = .ok (some f)) :
    w'.configFile p = .ok (some f) := by
  obtain ⟨hunrefused, hfirst⟩ := configFile_eq_ok_iff.mp hfound
  have hfile : w.isFile f = true := List.find?_some hfirst
  obtain ⟨holder, hholder, name, hname, rfl⟩ :=
    mem_placesIn_iff.mp (List.mem_of_find?_eq_some hfirst)
  have hconsulted : ∀ d, holder.parts <+: d.parts → w.Consulted p d := by
    intro d hd f hf
    rw [hfound, Except.ok.injEq, Option.some.injEq] at hf
    rw [← hf, Path.parent, Path.append, List.dropLast_concat]
    exact hd
  obtain ⟨near, outer, outer', hsearch, hsearch', hmem, hagree, habove⟩ :=
    h.exists_near hholder hconsulted
  have hplace : holder.append [name] ∈ placesIn near :=
    mem_placesIn_iff.mpr ⟨holder, hmem, name, hname, rfl⟩
  have hnear : (placesIn near).find? w.isFile = some (holder.append [name]) := by
    rw [hsearch, placesIn_append, List.find?_append] at hfirst
    cases hhere : (placesIn near).find? w.isFile with
    | none =>
        exact absurd hfile (List.find?_eq_none.mp hhere _ hplace)
    | some g =>
        rwa [hhere, Option.some_or] at hfirst
  rw [hsearch, placesIn_append] at hunrefused
  simp only [refused_eq_false_iff] at hunrefused
  refine configFile_eq_ok_iff.mpr ⟨?_, ?_⟩
  · simp only [hsearch', placesIn_append, List.forall_mem_cons, List.forall_mem_append,
      refused_eq_false_iff]
    refine ⟨?_, ?_, ?_⟩
    · rw [h.refusal]
      exact hunrefused p List.mem_cons_self
    · intro c hc
      rw [refusal?_of_agreeIn hagree c hc]
      exact hunrefused c (List.mem_cons_of_mem p (List.mem_append_left _ hc))
    · -- What lies above the answer can be looked at because the answer can.
      intro c hc
      obtain ⟨e, he, name', hname', rfl⟩ := mem_placesIn_iff.mp hc
      rw [← isFile_of_agreeIn hagree _ hplace] at hfile
      obtain ⟨bytes, hfind⟩ := isFile_iff.mp hfile
      obtain ⟨l, hlocate, _⟩ := find?_eq_some_iff.mp hfind
      exact refusal?_of_above (habove e he) hlocate hname hname'
  · rw [hsearch', placesIn_append, List.find?_append,
      List.find?_congr (isFile_of_agreeIn hagree), hnear, Option.some_or]

/-- Nothing matters but the manifest and the directories that are consulted. -/
theorem configFile_congr
    (h : w.Agree w' p (w.searchPath p)) :
    w'.configFile p = w.configFile p := by
  by_cases hfound : ∃ f, w.configFile p = .ok (some f)
  · obtain ⟨f, hfound⟩ := hfound
    rw [hfound]
    exact h.configFile_of_found hfound
  · apply h.configFile_of_all
    intro d hd
    exact h.consulted d hd fun f hf => absurd ⟨f, hf⟩ hfound

end Agreement

/-- A package with a configuration of its own, in a repository. -/
def packageFiles : FileSystem :=
  ⟨[(["r"], .directory), (["r", ".git"], .directory), (["r", "pkg"], .directory),
    (["r", "pkg", "nuspec-ls.toml"], .file []), (["r", "pkg", "m.nuspec"], .file [])], []⟩

/-- The same package with other configurations around it, and without the repository. -/
def crowdedFiles : FileSystem :=
  ⟨[(["r"], .directory), (["r", ".nuspec-ls.toml"], .file []), (["r", "other"], .directory),
    (["r", "other", ".nuspec-ls.toml"], .file []), (["r", "pkg"], .directory),
    (["r", "pkg", "nuspec-ls.toml"], .file []), (["nuspec-ls.toml"], .file [])], []⟩

/-- A name that is longer than any file's. -/
def longName : Path :=
  ⟨.relative, [String.ofList (List.replicate 256 'n')]⟩

theorem utf8ByteSize_replicate (n : Nat) :
    (String.ofList (List.replicate n 'n')).utf8ByteSize = n := by
  induction n with
  | zero =>
      rfl
  | succ n ih =>
      have hone : (String.singleton 'n').utf8ByteSize = 1 := by decide
      rw [List.replicate_succ, String.ofList_cons, String.utf8ByteSize_append, ih, hone]
      omega

theorem locate_longName :
    locate ⟨.empty, ⟨.root, []⟩, .usual⟩ longName = .error .nameTooLong := by
  have hnull : longName.hasNull = false := by
    simp only [Path.hasNull, longName, List.any_cons, List.any_nil, Bool.or_false,
      String.toList_ofList, List.contains_eq_mem, decide_eq_false_iff_not, List.mem_replicate]
    decide
  have hparent : String.ofList (List.replicate 256 'n') ≠ ".." := by
    intro heq
    have hsize := utf8ByteSize_replicate 256
    rw [heq] at hsize
    exact absurd hsize (by decide)
  have hlong : nameLimit < (String.ofList (List.replicate 256 'n')).utf8ByteSize := by
    rw [utf8ByteSize_replicate]
    decide
  have horigin : origin ⟨.empty, ⟨.root, []⟩, .usual⟩ longName = [] := rfl
  have hfollow : FileSystem.empty.locateFrom [] longName.parts = .error .nameTooLong := by
    have hopen : FileSystem.empty.closes [] .passing = false := rfl
    simp only [longName, FileSystem.locateFrom, FileSystem.entry?, List.reverse_nil, if_true,
      hopen, Bool.false_eq_true, if_false, if_neg hparent, if_pos hlong]
  simp only [locate, hnull, horigin, hfollow, Bool.false_eq_true, if_false, ite_self]

end Workspace

end NuspecLint

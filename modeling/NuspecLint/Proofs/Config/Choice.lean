import NuspecLint.Proofs.Command.Agreement
import NuspecLint.Proofs.Rule.Bounds

/-!
# Which rules run

What is known of the rules that are configured for a manifest, and of configurations that cannot be
used.

**Results.**
* `Chosen.isBuiltIn`: configured rules are rules of the program itself.
* `Workspace.longest_of_rulesFor`: a configured bound on the length of descriptions is an integer.
* `Workspace.rulesOrAll_some`: in place of faulty settings every rule is run, unless the fault is
  more than that.
* `Workspace.rulesFor_misplaced`: settings that are faulty and more than that.
-/

namespace NuspecLint

/-- A rule of the program itself, with any bounds. -/
def Rule.IsBuiltIn (r : Rule) : Prop :=
  r = .placeholder ∨ ∃ b, r = .description b

theorem Chosen.isBuiltIn
    {rules : List Rule}
    (h : Chosen rules) :
    ∀ r ∈ rules, r.IsBuiltIn := by
  obtain ⟨first, second, rfl, hfirst, hsecond⟩ := h
  intro r hr
  rcases List.mem_append.mp hr with hr | hr
  · rcases hfirst with rfl | rfl
    · cases hr
    · exact Or.inl (List.mem_singleton.mp hr)
  · rcases hsecond with rfl | ⟨b, rfl⟩
    · cases hr
    · exact Or.inr ⟨b, List.mem_singleton.mp hr⟩

theorem chosen_registered :
    Chosen Rule.registered :=
  ⟨[.placeholder], [.description .standard], rfl, Or.inr rfl, Or.inr ⟨_, rfl⟩⟩

theorem Config.longest_of_applyOptions
    {c : Config} {b : LengthBounds} {r : Rule}
    (hr : r ∈ Rule.registered)
    (h : c.applyOptions r = .ok (.description b)) :
    ∃ n, b.longest = .integer n := by
  simp only [Rule.registered, List.mem_cons, List.not_mem_nil, or_false] at hr
  rcases hr with rfl | rfl
  · rw [applyOptions_placeholder] at h
    cases h
  · unfold applyOptions at h
    split at h
    · cases h
      exact ⟨4000, rfl⟩
    · cases h
      exact ⟨4000, rfl⟩
    · next options _ _ =>
        simp only [Rule.isConfigurable, if_true, Rule.configure] at h
        cases hbounds : LengthBounds.standard.configure options with
        | error f =>
            rw [hbounds] at h
            cases h
        | ok b' =>
            rw [hbounds] at h
            cases h
            obtain ⟨_, longest, _, hlongest, _⟩ := LengthBounds.inOrder_of_configure hbounds
            exact ⟨longest, hlongest⟩

namespace Workspace

variable {w : Workspace} {p : Path} {rules : List Rule}

/-- A configured bound on the length of descriptions is an integer. -/
theorem longest_of_rulesFor
    {b : LengthBounds}
    (h : (w.rulesFor p).value = .ok rules)
    (hb : Rule.description b ∈ rules) :
    ∃ n, b.longest = .integer n := by
  simp only [rulesFor, Logged.bind] at h
  split at h
  · cases h
  · split at h
    · cases h
    · next hbuild =>
        cases h
        obtain ⟨r, hr, happly⟩ := exists_of_mem_mapM hbuild hb
        exact Config.longest_of_applyOptions (List.mem_of_mem_filter hr) happly

/-- What is run in place of a fault: every rule, unless the fault is more than that. -/
theorem rulesOrAll_some (w : Workspace) (p : Path) :
    (w.rulesOrAll (some p)).value =
      match (w.rulesFor p).value with
      | .ok rules => .ok rules
      | .error f =>
          match f.breakdown? w.host with
          | some b => .error b
          | none => .ok Rule.registered := by
  simp only [rulesOrAll, Logged.bind]
  cases (w.rulesFor p).value with
  | ok rules =>
      rfl
  | error f =>
      dsimp only
      cases f.breakdown? w.host <;> rfl

theorem chosen_of_rulesOrAll
    {path : Option Path}
    (h : (w.rulesOrAll path).value = .ok rules) :
    Chosen rules := by
  cases path with
  | none =>
      cases h
      exact chosen_registered
  | some p =>
      rw [rulesOrAll_some] at h
      split at h
      · next found =>
          cases h
          exact chosen_of_rulesFor found
      · split at h
        · cases h
        · cases h
          exact chosen_registered

/-- The breakdown that the configuration of a manifest leads to, if it does. -/
def breakdownFor? (w : Workspace) (p : Path) : Option Breakdown :=
  match (w.rulesFor p).value with
  | .ok _ => none
  | .error f => f.breakdown? w.host

theorem breakdownFor?_of_fault
    {f : ConfigFault}
    (h : (w.rulesFor p).value = .error f) :
    w.breakdownFor? p = f.breakdown? w.host := by
  rw [breakdownFor?, h]

theorem exists_fault_of_breakdownFor?
    {b : Breakdown}
    (h : w.breakdownFor? p = some b) :
    ∃ f, (w.rulesFor p).value = .error f ∧ f.breakdown? w.host = some b := by
  cases hrules : (w.rulesFor p).value with
  | ok rules =>
      rw [breakdownFor?, hrules] at h
      cases h
  | error f =>
      exact ⟨f, rfl, by rw [← h, breakdownFor?_of_fault hrules]⟩

/-- A workspace with an empty manifest and settings beside it. -/
def withSettings (settings : List Char) : Workspace :=
  ⟨⟨[(["m.nuspec"], .file []), ([".nuspec-ls.toml"], .file (Utf8.encode settings))], []⟩,
    ⟨.root, []⟩, .usual⟩

/-- The path of that manifest. -/
def besideSettings : Path :=
  ⟨.root, ["m.nuspec"]⟩

/-- Settings with a table, sixteen hundred tables deep, in the place of a list of rules. -/
def misplaced : List Char :=
  "select".toList ++ ((List.replicate 1600 ".a".toList).flatten ++ "=1".toList)

/-- Such settings are faulty, and their fault cannot be shown. -/
theorem rulesFor_misplaced :
    ∃ f,
      ((withSettings misplaced).rulesFor besideSettings).value = .error f ∧
      f.breakdown? (withSettings misplaced).host = some .showing := by
  apply exists_fault_of_breakdownFor?
  decide +kernel

end Workspace

end NuspecLint

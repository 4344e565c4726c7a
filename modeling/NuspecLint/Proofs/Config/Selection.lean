import NuspecLint.Config.Basic
import Mathlib.Tactic

/-!
# Which rules a configuration chooses

The rules that are built from a configuration, said by what becomes of each available rule, and what
of the configuration this depends on.

**View.**  The available rules are gone through in order.  A rule that is not enabled is dropped.
An enabled one is adjusted if it takes options and there are some for it, and kept otherwise.  The
first rule that refuses its options ends the work.

**Results.**
* `Config.buildRules_cons`: what one rule adds to what is built from the rules behind it.
* `Config.buildRules_eq_ok_iff` and `Config.buildRules_eq_error_iff`: the rules that are built, and
  the fault if they are not.
* `Config.buildRules_congr` and `Config.buildRules_narrower`: what of a configuration matters, and
  what choosing fewer rules does.
* `Config.buildRules_exact_and_monotone`: all of this for every configuration and every list of
  rules.
-/

namespace NuspecLint
namespace Config

variable {c c' : Config} {r r' : Rule} {available rules : List Rule} {options : Options}
  {f : OptionFault}

/-- A rule is enabled if it is selected, or nothing is, and it is not ignored. -/
theorem isEnabled_iff
    {id : String} :
    c.isEnabled id = true ↔ (∀ ids, c.select = some ids → id ∈ ids) ∧ id ∉ c.ignore := by
  unfold isEnabled
  cases c.select with
  | none =>
      simp
  | some ids =>
      simp

/-- A rule is enabled and takes options, and there are some for it. -/
structure Adjusts (c : Config) (r : Rule) (options : Options) : Prop where
  enabled : c.isEnabled r.id = true
  configurable : r.isConfigurable = true
  given : c.ruleOptions.lookup r.id = some options
  nonempty : options ≠ []

/-- What an enabled rule becomes. -/
inductive Becomes (c : Config) (r : Rule) : Rule → Prop
  | adjusted
      {options : Options} {r' : Rule}
      (due : c.Adjusts r options)
      (accepted : r.configure options = .ok r') :
      Becomes c r r'
  | kept
      (undue : ∀ options, ¬ c.Adjusts r options) :
      Becomes c r r

/-- An enabled rule refuses the options that there are for it. -/
def Rejects (c : Config) (r : Rule) (f : OptionFault) : Prop :=
  ∃ options, c.Adjusts r options ∧ r.configure options = .error f

section Steps

theorem Adjusts.applyOptions_eq
    (h : c.Adjusts r options) :
    c.applyOptions r = r.configure options := by
  obtain ⟨_, hconfigurable, hgiven, hnonempty⟩ := h
  cases options with
  | nil =>
      exact absurd rfl hnonempty
  | cons entry rest =>
      simp only [applyOptions, hgiven, hconfigurable, if_true]

theorem applyOptions_of_not_adjusts
    (henabled : c.isEnabled r.id = true)
    (h : ∀ options, ¬ c.Adjusts r options) :
    c.applyOptions r = .ok r := by
  unfold applyOptions
  split
  · rfl
  · rfl
  · next options hgiven hnonempty =>
      split
      · next hconfigurable =>
          exact absurd ⟨henabled, hconfigurable, hnonempty, hgiven⟩ (h options)
      · rfl

theorem applyOptions_eq_ok_iff
    (henabled : c.isEnabled r.id = true) :
    c.applyOptions r = .ok r' ↔ c.Becomes r r' := by
  constructor
  · intro h
    by_cases hdue : ∃ options, c.Adjusts r options
    · obtain ⟨options, hdue⟩ := hdue
      rw [hdue.applyOptions_eq] at h
      exact .adjusted hdue h
    · rw [not_exists] at hdue
      rw [applyOptions_of_not_adjusts henabled hdue] at h
      cases h
      exact .kept hdue
  · intro h
    cases h with
    | adjusted hdue haccepted =>
        rw [hdue.applyOptions_eq, haccepted]
    | kept hundue =>
        exact applyOptions_of_not_adjusts henabled hundue

theorem applyOptions_eq_error_iff
    (henabled : c.isEnabled r.id = true) :
    c.applyOptions r = .error f ↔ c.Rejects r f := by
  constructor
  · intro h
    by_cases hdue : ∃ options, c.Adjusts r options
    · obtain ⟨options, hdue⟩ := hdue
      rw [hdue.applyOptions_eq] at h
      exact ⟨options, hdue, h⟩
    · rw [not_exists] at hdue
      rw [applyOptions_of_not_adjusts henabled hdue] at h
      cases h
  · rintro ⟨options, hdue, hrefused⟩
    rw [hdue.applyOptions_eq, hrefused]

/-- What one rule adds to what is built from the rules behind it. -/
theorem buildRules_cons (c : Config) (r : Rule) (available : List Rule) :
    c.buildRules (r :: available) =
      if c.isEnabled r.id then
        match c.applyOptions r with
        | .error f => .error f
        | .ok r' => (c.buildRules available).map (r' :: ·)
      else c.buildRules available := by
  unfold buildRules
  rw [List.filter_cons]
  split
  · rw [List.mapM_cons]
    cases c.applyOptions r with
    | error f =>
        rfl
    | ok r' =>
        cases (available.filter fun r => c.isEnabled r.id).mapM c.applyOptions <;> rfl
  · rfl

theorem buildRules_cons_disabled
    (h : c.isEnabled r.id = false) :
    c.buildRules (r :: available) = c.buildRules available := by
  rw [buildRules_cons, h, if_neg Bool.false_ne_true]

theorem buildRules_cons_eq_ok_iff
    (henabled : c.isEnabled r.id = true) :
    c.buildRules (r :: available) = .ok rules ↔
      ∃ r' rest, c.Becomes r r' ∧ c.buildRules available = .ok rest ∧ rules = r' :: rest := by
  rw [buildRules_cons, if_pos henabled]
  simp only [← applyOptions_eq_ok_iff henabled]
  cases c.applyOptions r with
  | error f =>
      simp
  | ok r' =>
      cases c.buildRules available with
      | error f =>
          simp [Except.map]
      | ok rest =>
          simp [Except.map, eq_comm]

theorem buildRules_cons_eq_error_iff
    (henabled : c.isEnabled r.id = true) :
    c.buildRules (r :: available) = .error f ↔
      c.Rejects r f ∨ (∃ r', c.Becomes r r') ∧ c.buildRules available = .error f := by
  rw [buildRules_cons, if_pos henabled, ← applyOptions_eq_error_iff henabled]
  simp only [← applyOptions_eq_ok_iff henabled]
  cases c.applyOptions r with
  | error f =>
      simp
  | ok r' =>
      cases c.buildRules available with
      | error f =>
          simp [Except.map]
      | ok rest =>
          simp [Except.map]

end Steps

section Runs

/-- The rules that are built: one for each enabled rule, in order. -/
theorem buildRules_eq_ok_iff :
    c.buildRules available = .ok rules ↔
      List.Forall₂ c.Becomes (available.filter fun r => c.isEnabled r.id) rules := by
  induction available generalizing rules with
  | nil =>
      rw [List.filter_nil, List.forall₂_nil_left_iff]
      constructor
      · intro h
        cases h
        rfl
      · rintro rfl
        rfl
  | cons r available ih =>
      cases henabled : c.isEnabled r.id with
      | false =>
          rw [buildRules_cons_disabled henabled, ih, List.filter_cons, henabled,
            if_neg Bool.false_ne_true]
      | true =>
          rw [buildRules_cons_eq_ok_iff henabled, List.filter_cons, henabled, if_pos rfl,
            List.forall₂_cons_left_iff]
          simp only [ih]

theorem not_rejects_of_disabled
    (h : c.isEnabled r.id = false) :
    ∀ f, ¬ c.Rejects r f := by
  rintro f ⟨options, hdue, _⟩
  rw [hdue.enabled] at h
  cases h

theorem exists_becomes_iff
    (henabled : c.isEnabled r.id = true) :
    (∃ r', c.Becomes r r') ↔ ∀ f, ¬ c.Rejects r f := by
  simp only [← applyOptions_eq_ok_iff henabled, ← applyOptions_eq_error_iff henabled]
  cases c.applyOptions r <;> simp

/-- The rules are built unless one refuses its options. -/
theorem exists_buildRules_iff :
    (∃ rules, c.buildRules available = .ok rules) ↔
      ∀ r ∈ available, ∀ f, ¬ c.Rejects r f := by
  induction available with
  | nil =>
      exact ⟨fun _ => by simp, fun _ => ⟨[], rfl⟩⟩
  | cons r available ih =>
      rw [List.forall_mem_cons, ← ih]
      cases henabled : c.isEnabled r.id with
      | false =>
          rw [buildRules_cons_disabled henabled]
          exact (and_iff_right (not_rejects_of_disabled henabled)).symm
      | true =>
          rw [← exists_becomes_iff henabled]
          simp only [buildRules_cons_eq_ok_iff henabled]
          constructor
          · rintro ⟨rules, r', rest, hr', hrest, _⟩
            exact ⟨⟨r', hr'⟩, rest, hrest⟩
          · rintro ⟨⟨r', hr'⟩, rest, hrest⟩
            exact ⟨r' :: rest, r', rest, hr', hrest, rfl⟩

/-- The first rule of a list that refuses its options, and what it says. -/
def FirstRejects (c : Config) (available : List Rule) (f : OptionFault) : Prop :=
  ∃ before r after,
    available = before ++ r :: after ∧ (∀ b ∈ before, ∀ g, ¬ c.Rejects b g) ∧ c.Rejects r f

theorem firstRejects_cons_iff :
    c.FirstRejects (r :: available) f ↔
      c.Rejects r f ∨ (∀ g, ¬ c.Rejects r g) ∧ c.FirstRejects available f := by
  constructor
  · rintro ⟨before, first, after, heq, hbefore, hfirst⟩
    rcases List.cons_eq_append_iff.mp heq with ⟨rfl, hcons⟩ | ⟨before, rfl, rfl⟩
    · cases hcons
      exact Or.inl hfirst
    · rw [List.forall_mem_cons] at hbefore
      exact Or.inr ⟨hbefore.1, before, first, after, rfl, hbefore.2, hfirst⟩
  · rintro (hr | ⟨hnone, before, first, after, rfl, hbefore, hfirst⟩)
    · exact ⟨[], r, available, rfl, by simp, hr⟩
    · exact ⟨r :: before, first, after, rfl, List.forall_mem_cons.mpr ⟨hnone, hbefore⟩, hfirst⟩

/-- If the rules are not built, the fault is that of the first rule that refuses its options. -/
theorem buildRules_eq_error_iff :
    c.buildRules available = .error f ↔ c.FirstRejects available f := by
  induction available with
  | nil =>
      simp [buildRules, FirstRejects, pure, Except.pure]
  | cons r available ih =>
      rw [firstRejects_cons_iff, ← ih]
      cases henabled : c.isEnabled r.id with
      | false =>
          have hnone := not_rejects_of_disabled henabled
          rw [buildRules_cons_disabled henabled, and_iff_right hnone, or_iff_right (hnone f)]
      | true =>
          rw [buildRules_cons_eq_error_iff henabled, exists_becomes_iff henabled]

end Runs

section Comparison

theorem applyOptions_congr
    (h : c'.ruleOptions.lookup r.id = c.ruleOptions.lookup r.id) :
    c'.applyOptions r = c.applyOptions r := by
  unfold applyOptions
  rw [h]

/-- Nothing matters but which rules are enabled and the options that there are for these. -/
theorem buildRules_congr
    (henabled : ∀ id, c'.isEnabled id = c.isEnabled id)
    (hoptions : ∀ id, c.isEnabled id = true →
      c'.ruleOptions.lookup id = c.ruleOptions.lookup id) :
    c'.buildRules available = c.buildRules available := by
  induction available with
  | nil =>
      rfl
  | cons r available ih =>
      rw [buildRules_cons, buildRules_cons, henabled, ih]
      split
      · next hr =>
          rw [applyOptions_congr (hoptions r.id hr)]
      · rfl

/-- A configuration that chooses no rules but some of those that another chooses. -/
structure Narrows (c' c : Config) : Prop where
  select : ∀ ids, c.select = some ids → ∃ ids', c'.select = some ids' ∧ ids' ⊆ ids
  ignore : c.ignore ⊆ c'.ignore
  ruleOptions : c'.ruleOptions = c.ruleOptions

theorem Narrows.isEnabled
    {id : String}
    (h : c'.Narrows c)
    (henabled : c'.isEnabled id = true) :
    c.isEnabled id = true := by
  rw [isEnabled_iff] at henabled ⊢
  refine ⟨?_, fun hmem => henabled.2 (h.ignore hmem)⟩
  intro ids hids
  obtain ⟨ids', hids', hsubset⟩ := h.select ids hids
  exact hsubset (henabled.1 ids' hids')

/-- Choosing fewer rules deletes some of those that are built. -/
theorem buildRules_narrower
    (h : c'.Narrows c)
    (hrules : c.buildRules available = .ok rules) :
    ∃ rules', c'.buildRules available = .ok rules' ∧ rules'.Sublist rules := by
  induction available generalizing rules with
  | nil =>
      exact ⟨[], rfl, List.nil_sublist _⟩
  | cons r available ih =>
      cases henabled : c.isEnabled r.id with
      | false =>
          have henabled' : c'.isEnabled r.id = false := by
            by_contra htrue
            rw [Bool.not_eq_false] at htrue
            rw [h.isEnabled htrue] at henabled
            cases henabled
          rw [buildRules_cons_disabled henabled] at hrules
          rw [buildRules_cons_disabled henabled']
          exact ih hrules
      | true =>
          obtain ⟨r', rest, hr', hrest, rfl⟩ := (buildRules_cons_eq_ok_iff henabled).mp hrules
          obtain ⟨rest', hrest', hsublist⟩ := ih hrest
          cases henabled' : c'.isEnabled r.id with
          | false =>
              rw [buildRules_cons_disabled henabled']
              exact ⟨rest', hrest', hsublist.cons r'⟩
          | true =>
              have happly : c'.applyOptions r = c.applyOptions r :=
                applyOptions_congr (by rw [h.ruleOptions])
              rw [← applyOptions_eq_ok_iff henabled, ← happly,
                applyOptions_eq_ok_iff henabled'] at hr'
              exact ⟨r' :: rest',
                (buildRules_cons_eq_ok_iff henabled').mpr ⟨r', rest', hr', hrest', rfl⟩,
                hsublist.cons_cons r'⟩

end Comparison

theorem forall_not_rejects_iff :
    (∀ f, ¬ c.Rejects r f) ↔
      ∀ options, c.Adjusts r options → ∃ r', r.configure options = .ok r' := by
  constructor
  · intro h options hdue
    cases hconfigure : r.configure options with
    | error f =>
        exact absurd ⟨options, hdue, hconfigure⟩ (h f)
    | ok r' =>
        exact ⟨r', rfl⟩
  · rintro h f ⟨options, hdue, hrefused⟩
    obtain ⟨r', haccepted⟩ := h options hdue
    rw [hrefused] at haccepted
    cases haccepted

/--
**The choice of rules is exact and monotone.**  The rules are built exactly if every rule accepts
the options that are due to it; then there is one for each enabled rule, in order, with its options
or as it was.  Otherwise the fault is that of the first rule that refuses.  Options of rules that
are not enabled do not matter.  Ignoring more rules or selecting fewer deletes some of the rules
that are built and never makes a fault.
-/
theorem buildRules_exact_and_monotone (c : Config) (available : List Rule) :
    ((∃ rules, c.buildRules available = .ok rules) ↔
      ∀ r ∈ available, ∀ options, c.Adjusts r options →
        ∃ r', r.configure options = .ok r') ∧
    (∀ rules, c.buildRules available = .ok rules ↔
      List.Forall₂ c.Becomes (available.filter fun r => c.isEnabled r.id) rules) ∧
    (∀ f, c.buildRules available = .error f ↔ c.FirstRejects available f) ∧
    (∀ others, (∀ id, c.isEnabled id = true → others.lookup id = c.ruleOptions.lookup id) →
      buildRules { c with ruleOptions := others } available = c.buildRules available) ∧
    (∀ c' : Config, c'.Narrows c → ∀ rules, c.buildRules available = .ok rules →
      ∃ rules', c'.buildRules available = .ok rules' ∧ rules'.Sublist rules) := by
  refine ⟨?_, fun rules => buildRules_eq_ok_iff, fun f => buildRules_eq_error_iff, ?_, ?_⟩
  · simp only [exists_buildRules_iff, forall_not_rejects_iff]
  · intro others hothers
    exact buildRules_congr (fun id => rfl) hothers
  · intro c' hnarrower rules hrules
    exact buildRules_narrower hnarrower hrules

/-- Settings with options for the length of descriptions. -/
def lenient : Config :=
  ⟨some ["NUS002", "NUS001"], [], [("NUS002", [("min_length", .integer 5)])], none⟩

/-- The same settings, but for a rule that is ignored. -/
def lenientOnly : Config :=
  { lenient with ignore := ["NUS001"] }

/-- The registered rules, one of them twice. -/
def doubled : List Rule :=
  .description .standard :: Rule.registered

/-- Ignoring one of three rules leaves the two others, and options for it do not matter. -/
theorem buildRules_exact_and_monotone_lenient :
    ∃ rules rules',
      lenient.buildRules doubled = .ok rules ∧
      lenientOnly.buildRules doubled = .ok rules' ∧
      buildRules
          { lenientOnly with
            ruleOptions := ("NUS001", [("min_length", .absent)]) :: lenientOnly.ruleOptions }
          doubled =
        .ok rules' ∧
      rules.map Rule.id = ["NUS002", "NUS001", "NUS002"] ∧ rules'.Sublist rules ∧
      rules'.map Rule.id = ["NUS002", "NUS002"] := by
  obtain ⟨_, _, _, _, hnarrower⟩ := buildRules_exact_and_monotone lenient doubled
  obtain ⟨_, _, _, hdisabled, _⟩ := buildRules_exact_and_monotone lenientOnly doubled
  have hnarrows : lenientOnly.Narrows lenient :=
    ⟨fun ids hids => ⟨ids, hids, List.Subset.refl _⟩, List.nil_subset _, rfl⟩
  obtain ⟨rules', hrules', hsublist⟩ := hnarrower lenientOnly hnarrows _ rfl
  refine ⟨_, rules', rfl, hrules', ?_, rfl, hsublist, ?_⟩
  · rw [← hrules']
    apply hdisabled
    intro id henabled
    have hne : id ≠ "NUS001" := by
      rintro rfl
      exact absurd henabled (by decide)
    rw [List.lookup_cons, beq_false_of_ne hne]
  · cases hrules'
    rfl

end Config
end NuspecLint

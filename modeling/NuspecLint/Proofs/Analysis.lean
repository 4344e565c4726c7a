import NuspecLint.Analysis
import Mathlib.Tactic

/-!
# Rules that fail

A rule may fail after it has reported something.  The others are not concerned: what is reported
about a manifest is what the rules report that run to their end.

**View.**  One rule adds to the reports and to the log of the rules behind it.  A rule that fails
adds nothing to the reports and one record to the log.

**Results.**
* `runRules_value` and `runRules_records`: the reports and the log of a run, rule by rule.
* `runRules_append`: rules can be run in two lots.
* `analyze_isolates_failures`: a rule that fails leaves no trace but its record in the log.
-/

namespace NuspecLint

open Markup

/-- What a rule reported, if it ran to its end. -/
def Outcome.complete? : Outcome → Option (List Diagnostic)
  | completed found => some found
  | failed _ => none

/-- The record about a rule that failed. -/
def Rule.failure (r : Rule) : Record :=
  ⟨.error, .analyzer, "Rule " ++ r.id ++ " failed; ignoring its results"⟩

section Runs

variable (tree : Node) (lines : LineTable)

theorem runRule_value (r : Rule) :
    (runRule tree lines r).value = (r.check tree lines).complete?.getD [] := by
  unfold runRule
  cases r.check tree lines with
  | completed found =>
      rfl
  | failed emitted =>
      rfl

theorem runRule_of_failed
    {tree : Node} {lines : LineTable} {r : Rule} {emitted : List Diagnostic}
    (h : r.check tree lines = .failed emitted) :
    runRule tree lines r = ⟨[], [r.failure]⟩ := by
  rw [runRule, h]
  rfl

theorem runRules_value (rules : List Rule) :
    (runRules tree lines rules).value =
      rules.flatMap fun r => (runRule tree lines r).value := by
  induction rules with
  | nil =>
      rfl
  | cons r rules ih =>
      rw [List.flatMap_cons, ← ih]
      rfl

theorem runRules_records (rules : List Rule) :
    (runRules tree lines rules).records =
      rules.flatMap fun r => (runRule tree lines r).records := by
  induction rules with
  | nil =>
      rfl
  | cons r rules ih =>
      rw [List.flatMap_cons, ← ih]
      simp only [runRules, Logged.bind, Logged.pure, List.append_nil]

/-- What is reported is what the rules report that run to their end. -/
theorem runRules_value_eq_flatten (rules : List Rule) :
    (runRules tree lines rules).value =
      (rules.filterMap fun r => (r.check tree lines).complete?).flatten := by
  rw [runRules_value]
  induction rules with
  | nil =>
      rfl
  | cons r rules ih =>
      rw [List.flatMap_cons, List.filterMap_cons, ih, runRule_value]
      cases (r.check tree lines).complete? with
      | none =>
          rfl
      | some found =>
          rfl

/-- Rules can be run in two lots. -/
theorem runRules_append (before after : List Rule) :
    runRules tree lines (before ++ after) =
      ⟨(runRules tree lines before).value ++ (runRules tree lines after).value,
        (runRules tree lines before).records ++ (runRules tree lines after).records⟩ := by
  have hvalue : (runRules tree lines (before ++ after)).value =
      (runRules tree lines before).value ++ (runRules tree lines after).value := by
    simp only [runRules_value, List.flatMap_append]
  have hrecords : (runRules tree lines (before ++ after)).records =
      (runRules tree lines before).records ++ (runRules tree lines after).records := by
    simp only [runRules_records, List.flatMap_append]
  rw [← hvalue, ← hrecords]

/-- A rule that fails adds one record, in its place, and nothing else. -/
theorem runRules_insert_failing
    {tree : Node} {lines : LineTable} {r : Rule} {emitted : List Diagnostic}
    (h : r.check tree lines = .failed emitted)
    (before after : List Rule) :
    runRules tree lines (before ++ r :: after) =
      ⟨(runRules tree lines (before ++ after)).value,
        (runRules tree lines before).records ++
          r.failure :: (runRules tree lines after).records⟩ := by
  have hcons : runRules tree lines (r :: after) =
      ⟨(runRules tree lines after).value,
        r.failure :: (runRules tree lines after).records⟩ := by
    simp [runRules, runRule_of_failed h, Logged.bind, Logged.pure]
  rw [runRules_append, hcons, runRules_append]

end Runs

section Analyses

variable {text : List Char} {tree : Node}

theorem analyze_of_parse
    (h : parse text = .ok tree)
    (rules : List Rule) :
    analyze rules text = runRules tree (.ofText text) rules := by
  rw [analyze, h]

theorem analyze_value_of_error
    {u : Unterminated}
    (h : parse text = .error u)
    (rules : List Rule) :
    (analyze rules text).value = [] := by
  rw [analyze, h]

/-- Reports are made in two lots, whether or not the text parses. -/
theorem analyze_value_append (text : List Char) (before after : List Rule) :
    (analyze (before ++ after) text).value =
      (analyze before text).value ++ (analyze after text).value := by
  cases hparse : parse text with
  | error u =>
      simp only [analyze_value_of_error hparse, List.append_nil]
  | ok tree =>
      simp only [analyze_of_parse hparse, runRules_append]

end Analyses

/--
**A rule that fails is invisible.**  About a text that does not parse nothing is reported, whatever
the rules.  About any other text the rules report that run to their end, each in full and in order;
a rule that fails, wherever it stands and however much it had reported, changes no report and adds
one record to the log, in its place.  So the reports of two lots of rules are those of the one and
then those of the other.  A publisher is handed the reports once, under the name of the document.
-/
theorem analyze_isolates_failures (text : List Char) :
    (∀ u, parse text = .error u → ∀ rules,
      (analyze rules text).value = [] ∧ ∀ others, analyze others text = analyze rules text) ∧
    (∀ tree, parse text = .ok tree →
      (∀ rules,
        (analyze rules text).value =
          (rules.filterMap fun r => (r.check tree (.ofText text)).complete?).flatten) ∧
      ∀ before r after emitted, r.check tree (.ofText text) = .failed emitted →
        (analyze (before ++ r :: after) text).value = (analyze (before ++ after) text).value ∧
        (analyze (before ++ after) text).records =
          (analyze before text).records ++ (analyze after text).records ∧
        (analyze (before ++ r :: after) text).records =
          (analyze before text).records ++ r.failure :: (analyze after text).records) ∧
    (∀ before after,
      (analyze (before ++ after) text).value =
        (analyze before text).value ++ (analyze after text).value) ∧
    ∀ (α : Type) (publisher : String → List Diagnostic → Logged α) rules uri,
      publish rules uri text publisher =
        ⟨(publisher uri (analyze rules text).value).value,
          (analyze rules text).records ++ (publisher uri (analyze rules text).value).records⟩ := by
  refine ⟨?_, ?_, analyze_value_append text, fun _ _ _ _ => rfl⟩
  · intro u hparse rules
    refine ⟨analyze_value_of_error hparse rules, fun others => ?_⟩
    rw [analyze, hparse, analyze, hparse]
  · intro tree hparse
    simp only [analyze_of_parse hparse]
    refine ⟨runRules_value_eq_flatten tree (.ofText text), ?_⟩
    intro before r after emitted hfailed
    refine ⟨?_, ?_, ?_⟩
    · rw [runRules_insert_failing hfailed]
    · rw [runRules_append]
    · rw [runRules_insert_failing hfailed]

/-- A check that reports one thing and then fails. -/
def halfway : Rule :=
  .custom "Halfway" fun _ lines =>
    .failed [⟨"Halfway", "first", lines.rangeOf 0 0, .hint⟩]

/-- Between the registered rules, such a check leaves the two reports and adds one record. -/
theorem analyze_isolates_failures_halfway :
    ∃ tree,
      parse "tag1".toList = .ok tree ∧
      (analyze ([.placeholder] ++ halfway :: [.description .standard]) "tag1".toList).value =
        (analyze ([.placeholder] ++ [.description .standard]) "tag1".toList).value ∧
      (analyze ([.placeholder] ++ [.description .standard]) "tag1".toList).value.map
        (fun d => d.ruleId) = ["NUS001", "NUS002"] ∧
      (analyze ([.placeholder] ++ halfway :: [.description .standard]) "tag1".toList).records =
        [halfway.failure] := by
  have hparse : parse "tag1".toList = .ok (.document 4 [.text 0 4 "tag1".toList]) := by
    with_unfolding_all rfl
  obtain ⟨_, hruns, _, _⟩ := analyze_isolates_failures "tag1".toList
  obtain ⟨_, hinsert⟩ := hruns _ hparse
  obtain ⟨hvalue, _, hrecords⟩ := hinsert [.placeholder] halfway [.description .standard] _ rfl
  refine ⟨_, hparse, hvalue, by decide +kernel, ?_⟩
  rw [hrecords, analyze_of_parse hparse, analyze_of_parse hparse]
  with_unfolding_all rfl

end NuspecLint

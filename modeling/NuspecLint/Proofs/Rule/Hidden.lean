import NuspecLint.Proofs.Markup.Bare
import NuspecLint.Proofs.Rule.Place

/-!
# What the rules do not see

Comments, processing instructions and the values of attributes carry no information to the rules.

**View.**  A report is compared by what it says: the rule, the message and how grave it is.  Where
it points to may move with the length of what is hidden.

**Results.**
* `Placeholder.said_check_bare` and `Description.said_check_bare`: what the rules say about a tree
  they say about its names and texts alone.
* `said_analyze_rewritten`: two texts that differ inside one comment, one instruction or one quoted
  string of a start tag get the same reports.
-/

namespace NuspecLint

open Markup

/-- What a diagnostic says, apart from the place. -/
def Diagnostic.said (d : Diagnostic) : String × String × Severity :=
  (d.ruleId, d.message, d.severity)

section Bare

variable (tree : Node) (lines lines' : LineTable)

/-- Left-over placeholders are found by the texts of a tree. -/
theorem Placeholder.said_check_bare :
    (check tree.bare lines').map Diagnostic.said = (check tree lines).map Diagnostic.said := by
  unfold check
  rw [Node.descendants_bare Node.isText_bare, List.filter_map, List.map_map, List.map_map,
    List.map_map]
  simp only [Function.comp_def, Node.textValue_bare]
  rfl

theorem Description.find?_bare :
    find? tree.bare = (find? tree).map Node.bare := by
  have hkeep : ∀ n : Node, isDescription n.bare = isDescription n := by
    intro n
    simp [isDescription]
  rw [find?, Node.descendants_bare hkeep, List.head?_map, find?]

theorem Description.finding?_bare (b : LengthBounds) :
    (finding? b tree.bare).map Prod.fst = (finding? b tree).map Prod.fst := by
  unfold finding?
  rw [find?_bare]
  cases find? tree with
  | none =>
      rfl
  | some element =>
      simp only [Option.map_some, Node.contentValue_bare, Option.map_map]
      rfl

/-- What is said about a description is the message for what is wrong with it. -/
theorem Description.said_check (b : LengthBounds) :
    (check b tree lines).map (List.map Diagnostic.said) =
      match (finding? b tree).map Prod.fst with
      | none => .ok []
      | some f => (f.message b).map fun message => [(id, message, f.severity)] := by
  unfold check
  cases finding? b tree with
  | none =>
      rfl
  | some found =>
      simp only [Option.map_some, report]
      cases found.1.message b <;> rfl

/-- The description is judged by the names and texts of a tree. -/
theorem Description.said_check_bare (b : LengthBounds) :
    (check b tree.bare lines').map (List.map Diagnostic.said) =
      (check b tree lines).map (List.map Diagnostic.said) := by
  rw [said_check, said_check, finding?_bare]

theorem Description.said_runRule (b : LengthBounds) :
    (runRule tree lines (.description b)).value.map Diagnostic.said =
      match (check b tree lines).map (List.map Diagnostic.said) with
      | .ok said => said
      | .error _ => [] := by
  simp only [runRule, Rule.check]
  cases check b tree lines <;> rfl

end Bare

theorem said_runRule_bare
    {r : Rule} (tree : Node) (lines lines' : LineTable)
    (hr : r.IsBuiltIn) :
    (runRule tree.bare lines' r).value.map Diagnostic.said =
      (runRule tree lines r).value.map Diagnostic.said := by
  rcases hr with rfl | ⟨b, rfl⟩
  · exact Placeholder.said_check_bare tree lines lines'
  · rw [Description.said_runRule, Description.said_runRule, Description.said_check_bare]

/-- Trees with the same names and texts get the same reports. -/
theorem said_runRules_congr
    {rules : List Rule} {tree tree' : Node} (lines lines' : LineTable)
    (hrules : ∀ r ∈ rules, r.IsBuiltIn)
    (hbare : tree'.bare = tree.bare) :
    (runRules tree' lines' rules).value.map Diagnostic.said =
      (runRules tree lines rules).value.map Diagnostic.said := by
  rw [runRules_value, runRules_value, List.map_flatMap, List.map_flatMap]
  apply List.flatMap_congr
  intro r hr
  rw [← said_runRule_bare tree' lines' lines' (hrules r hr), hbare,
    said_runRule_bare tree lines lines' (hrules r hr)]

/--
**Comments, instructions and attribute values carry no information to the rules.**  A text in which
no plain text holds a `<` may get something else inside one comment, one processing instruction or
one quoted string of a start tag: it is still parsed, and the rules say the same about it.
-/
theorem said_analyze_rewritten
    {source : List Char} {before after : List Piece} {p p' : Piece} {rules : List Rule}
    (hrules : ∀ r ∈ rules, r.IsBuiltIn)
    (hpieces : pieces source = .ok (before ++ p :: after))
    (hplain : PlainTexts (before ++ p :: after))
    (hp : p.Rewritten p') :
    (∃ tree, parse (rawAll (before ++ p' :: after)) = .ok tree) ∧
    (analyze rules (rawAll (before ++ p' :: after))).value.map Diagnostic.said =
      (analyze rules source).value.map Diagnostic.said := by
  obtain ⟨tree, tree', hparse, hparse', hbare⟩ := parse_rewritten hpieces hplain hp
  refine ⟨⟨tree', hparse'⟩, ?_⟩
  simp only [analyze, hparse, hparse']
  exact said_runRules_congr _ _ hrules hbare

/-- A manifest of one description, which is a placeholder, and an attribute with the given value. -/
def withAttribute (value : List Char) : List Piece :=
  [.startTag (.ofBody "a".toList (" x=".toList ++ '\'' :: (value ++ ['\'']))),
    .startTag ⟨"description".toList, [], false⟩, .text "Tag1".toList,
    .endTag ⟨"description".toList, []⟩, .endTag ⟨"a".toList, []⟩]

/--
A tag and a placeholder inside an attribute value: the description behind it is still the one that
is measured, and the placeholder in its text the only one that is found.
-/
theorem said_analyze_rewritten_tag :
    rawAll (withAttribute "><description>tag1".toList) =
      "<a x='><description>tag1'><description>Tag1</description></a>".toList ∧
    (analyze Rule.registered (rawAll (withAttribute "><description>tag1".toList))).value.map
        Diagnostic.said =
      (analyze Rule.registered (rawAll (withAttribute []))).value.map Diagnostic.said ∧
    (analyze Rule.registered (rawAll (withAttribute []))).value.map
        (fun d => (d.ruleId, d.severity)) =
      [("NUS001", Severity.error), ("NUS002", Severity.warning)] := by
  have hpieces : pieces (rawAll (withAttribute [])) = .ok ([] ++ withAttribute []) := by
    decide +kernel
  have hplain : PlainTexts ([] ++ withAttribute []) := by
    intro run hrun
    obtain rfl : run = "Tag1".toList := by
      simpa [withAttribute] using hrun
    decide
  have hfront : TagBody " x=".toList := TagBody.of_plain (by simp [IsPlain, isQuote])
  refine ⟨by decide, ?_, by decide +kernel⟩
  exact (said_analyze_rewritten chosen_registered.isBuiltIn hpieces hplain
    (.quoted "a".toList [] hfront rfl (by simp) (by decide))).2

end NuspecLint

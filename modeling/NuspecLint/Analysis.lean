import NuspecLint.Log
import NuspecLint.Markup.Tree
import NuspecLint.Rule.Basic

/-!
# Analysis of a manifest

**Input.**  A list of rules and a manifest text.

**Algorithm.**  The text is parsed once and every rule runs on the tree.  A rule that fails gives
a log record and none of its reports; a text that does not parse gives no reports at all.

**Results.**
* `analyze`: the reports in rule order, each rule's in the order in which it made them.
* `publish`: the same, for a publisher.
-/

namespace NuspecLint

/-- The reports of one rule; a failing rule is logged and ignored. -/
def runRule (tree : Markup.Node) (lines : LineTable) (r : Rule) : Logged (List Diagnostic) :=
  match r.check tree lines with
  | .completed found => Logged.pure found
  | .failed _ =>
      ⟨[], [⟨.error, .analyzer, "Rule " ++ r.id ++ " failed; ignoring its results"⟩]⟩

/-- The reports of some rules, in order. -/
def runRules (tree : Markup.Node) (lines : LineTable) : List Rule → Logged (List Diagnostic)
  | [] => Logged.pure []
  | r :: rest =>
      (runRule tree lines r).bind fun found =>
        (runRules tree lines rest).bind fun others => Logged.pure (found ++ others)

/-- The reports of some rules about a text. -/
def analyze (rules : List Rule) (text : List Char) : Logged (List Diagnostic) :=
  match Markup.parse text with
  | .error u =>
      ⟨[], [⟨.debug, .analyzer,
        "Skipping analysis, document does not parse: " ++ u.message⟩]⟩
  | .ok tree => runRules tree (.ofText text) rules

/--
The reports about a document, handed to a publisher all at once; whatever the publisher makes of
them comes back.
-/
def publish {α : Type} (rules : List Rule) (uri : String) (text : List Char)
    (publisher : String → List Diagnostic → Logged α) : Logged α :=
  (analyze rules text).bind fun found => publisher uri found

end NuspecLint

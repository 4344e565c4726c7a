import NuspecLint.Diagnostic
import NuspecLint.Markup.Node
import NuspecLint.Text.Case
import NuspecLint.Text.Search

/-!
# Template placeholders

A freshly generated package holds placeholders that its author has to replace.  The rule reports
every text of the manifest that still holds one, in any case and anywhere in the text; a text
with several placeholders is reported once, and attribute values are not looked at.
-/

namespace NuspecLint
namespace Placeholder

/-- The identifier of the rule. -/
def id : String := "NUS001"

/-- The placeholders of the package template, in lower case. -/
def placeholders : List (List Char) :=
  ["__replace".toList, "space_separated".toList, "tag1".toList]

/-- A placeholder occurs in the text, letters compared without regard to case. -/
def isLeftOver (s : List Char) : Bool :=
  let lowered := Text.lower s
  placeholders.any fun t => Text.occursIn t lowered

/-- The report about one text. -/
def report (lines : LineTable) (n : Markup.Node) : Diagnostic :=
  { ruleId := id
    message := "Templated value which should be removed"
    range := lines.rangeOf n.start n.stop
    severity := .error }

/-- The texts that still hold a placeholder, in document order. -/
def check (tree : Markup.Node) (lines : LineTable) : List Diagnostic :=
  ((tree.descendants Markup.Node.isText true).filter fun n => isLeftOver n.textValue).map
    (report lines)

end Placeholder
end NuspecLint

import NuspecLint.Text.NameTable

/-!
# Names

Texts that can name something: a letter or an underscore, and after it letters, digits, marks and
underscores of any script.  Some words are reserved.

**Results.**
* `Text.isName`: the text can name something.
-/

namespace NuspecLint
namespace Text

/-- The character may start a name. -/
def isNameStart (c : Char) : Bool :=
  nameStartRanges.any fun r => r.1 ≤ c.toNat && c.toNat ≤ r.2

/-- The character may stand in a name after its start. -/
def isNamePart (c : Char) : Bool :=
  isNameStart c || nameFurtherRanges.any fun r => r.1 ≤ c.toNat && c.toNat ≤ r.2

/-- The words that name nothing. -/
def reservedWords : List String :=
  ["False", "None", "True", "and", "as", "assert", "async", "await", "break", "class", "continue",
   "def", "del", "elif", "else", "except", "finally", "for", "from", "global", "if", "import", "in",
   "is", "lambda", "nonlocal", "not", "or", "pass", "raise", "return", "try", "while", "with",
   "yield"]

/-- The text can name something. -/
def isName (s : String) : Bool :=
  match s.toList with
  | [] => false
  | c :: rest => isNameStart c && rest.all isNamePart && !reservedWords.contains s

end Text
end NuspecLint

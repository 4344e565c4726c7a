import NuspecLint.Text.Hexadecimal
import NuspecLint.Text.Printable

/-!
# Quoted texts

Texts as messages show them: between quotes, with everything that does not print escaped.
-/

namespace NuspecLint
namespace Text

/-- The escape of a character by its code: `\x`, `\u` or `\U`, whichever it first fits. -/
def codeEscape (c : Char) : List Char :=
  let n := c.toNat
  if n < 0x100 then '\\' :: 'x' :: hexadecimal 2 n
  else if n < 0x10000 then '\\' :: 'u' :: hexadecimal 4 n
  else '\\' :: 'U' :: hexadecimal 8 n

/-- A character inside the given quotes. -/
def quotedChar (quote c : Char) : List Char :=
  if c = quote ∨ c = '\\' then ['\\', c]
  else if c = '\n' then ['\\', 'n']
  else if c = '\r' then ['\\', 'r']
  else if c = '\t' then ['\\', 't']
  else if isPrintable c then [c]
  else codeEscape c

/-- A text is put between apostrophes, unless it holds some and no quotation mark. -/
def quoteFor (s : List Char) : Char :=
  if s.contains '\'' && !s.contains '"' then '"' else '\''

/-- A text between quotes. -/
def quoted (s : List Char) : List Char :=
  quoteFor s :: (s.flatMap (quotedChar (quoteFor s)) ++ [quoteFor s])

/-- A string between quotes. -/
def quotedString (s : String) : String :=
  String.ofList (quoted s.toList)

end Text
end NuspecLint

import NuspecLint.Text.CaseTable

/-!
# Lower and upper case

Full case mappings of texts.  A character may become several, and a capital sigma that ends a
word is lowered to the final form of the letter.

**Algorithm.**  A capital sigma ends a word if the nearest character before it carries case and
the nearest one after it does not, where the characters that case context ignores are looked
through on both sides.
-/

namespace NuspecLint
namespace Text

/-- The code point lies in one of the closed ranges. -/
def inRanges (ranges : List (Nat × Nat)) (n : Nat) : Bool :=
  ranges.any fun r => r.1 ≤ n && n ≤ r.2

/-- Case context looks through the character. -/
def isCaseIgnorable (c : Char) : Bool :=
  inRanges ignorableRanges c.toNat

/-- The character carries case and is not looked through. -/
def isCased (c : Char) : Bool :=
  inRanges casedRanges c.toNat

/-- Map one character: by its expansion, else by the run that covers it, else to itself. -/
def mapCase
    (expansions : List (Nat × List Nat))
    (runs : List CaseRun)
    (c : Char) : List Char :=
  match expansions.lookup c.toNat with
  | some codes => codes.map Char.ofNat
  | none =>
      match runs.find? (·.covers c.toNat) with
      | some run => [Char.ofNat (run.target c.toNat)]
      | none => [c]

/-- Lower-case form of a character outside any context. -/
def lowerChar (c : Char) : List Char :=
  if c.toNat < 0x80 then [c.toLower] else mapCase lowerExpansions lowerRuns c

/-- Upper-case form of a character. -/
def upperChar (c : Char) : List Char :=
  if c.toNat < 0x80 then [c.toUpper] else mapCase upperExpansions upperRuns c

/-- The capital sigma, the one letter whose lower-case form depends on its place. -/
def capitalSigma : Char := Char.ofNat 0x3A3

/-- The form of the lower-case sigma at the end of a word. -/
def finalSigma : Char := Char.ofNat 0x3C2

/-- The nearest character that case context does not look through carries case. -/
def startsCased (s : List Char) : Bool :=
  match s.dropWhile isCaseIgnorable with
  | [] => false
  | c :: _ => isCased c

/--
Lower-case form of a text that follows other characters, which are given nearest first.
-/
def lowerAfter (before : List Char) : List Char → List Char
  | [] => []
  | c :: s =>
      let lowered :=
        if c = capitalSigma && startsCased before && !startsCased s then [finalSigma]
        else lowerChar c
      lowered ++ lowerAfter (c :: before) s

/-- Lower-case form of a text. -/
def lower (s : List Char) : List Char :=
  lowerAfter [] s

/-- Upper-case form of a text. -/
def upper (s : List Char) : List Char :=
  s.flatMap upperChar

end Text
end NuspecLint

/-!
# White space

The white space of manifest texts: it separates the parts of a tag and is stripped from the
ends of a description before its length is measured.
-/

namespace NuspecLint
namespace Text

/-- White space: the ASCII blanks and separators, the next-line control and the Unicode spaces. -/
def isBlank (c : Char) : Bool :=
  let n := c.toNat
  (0x09 ≤ n && n ≤ 0x0D) ||
  (0x1C ≤ n && n ≤ 0x20) ||
  n == 0x85 ||
  n == 0xA0 ||
  n == 0x1680 ||
  (0x2000 ≤ n && n ≤ 0x200A) ||
  n == 0x2028 ||
  n == 0x2029 ||
  n == 0x202F ||
  n == 0x205F ||
  n == 0x3000

/-- The text without the white space at its two ends. -/
def trim (s : List Char) : List Char :=
  ((s.dropWhile isBlank).reverse.dropWhile isBlank).reverse

end Text
end NuspecLint

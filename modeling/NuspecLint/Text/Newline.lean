/-!
# Line ends

Two readings of where lines end.  Files are read with every line end turned into a line feed;
editors split a document after a wider set of separators.
-/

namespace NuspecLint
namespace Text

/-- Every carriage return, with the line feed after it if there is one, becomes a line feed. -/
def normalizeNewlines : List Char → List Char
  | [] => []
  | '\r' :: '\n' :: s => '\n' :: normalizeNewlines s
  | c :: s => (if c = '\r' then '\n' else c) :: normalizeNewlines s

/-- Every carriage return that a line feed follows is dropped; others stay. -/
def joinReturnFeeds : List Char → List Char
  | [] => []
  | '\r' :: '\n' :: s => '\n' :: joinReturnFeeds s
  | c :: s => c :: joinReturnFeeds s

/--
The separators after which an editor starts a new line: carriage return, line feed, vertical
tab, form feed, the file, group and record separators, next line, and the line and paragraph
separators.
-/
def isLineSeparator (c : Char) : Bool :=
  let n := c.toNat
  (0x0A ≤ n && n ≤ 0x0D) ||
  (0x1C ≤ n && n ≤ 0x1E) ||
  n == 0x85 ||
  n == 0x2028 ||
  n == 0x2029

/-- Put a character in front of the first line. -/
def pushFront (c : Char) : List (List Char) → List (List Char)
  | [] => [[c]]
  | line :: lines => (c :: line) :: lines

/--
The lines of a text with their separators; a carriage return and the line feed after it end
one line together, and no empty line follows the last separator.
-/
def splitLines : List Char → List (List Char)
  | [] => []
  | '\r' :: '\n' :: s => ['\r', '\n'] :: splitLines s
  | c :: s =>
      if isLineSeparator c then [c] :: splitLines s
      else pushFront c (splitLines s)

end Text
end NuspecLint

import NuspecLint.Client.Encoding

/-!
# Edits

The changes that a client makes to an open document: a new text, either for the whole document
or for a range of it.
-/

namespace NuspecLint

/-- A change to a document. -/
structure Edit where
  /-- The range that is replaced; the whole document if there is none. -/
  range : Option ClientRange
  text : List Char
  deriving Repr, DecidableEq

/-- The lines of a document, the first of which is number `i`, after a range is replaced. -/
def replaceLines (start stop : ClientPosition) (text : List Char) :
    Nat → List (List Char) → List Char
  | _, [] => []
  | i, line :: rest =>
      let kept :=
        if i < start.line ∨ stop.line < i then line
        else
          (if i = start.line then line.take start.character ++ text else []) ++
            (if i = stop.line then line.drop stop.character else [])
      kept ++ replaceLines start stop text (i + 1) rest

/-- The text of a document after a change by a client that counts in the given encoding. -/
def Edit.apply (e : Encoding) (source : List Char) (edit : Edit) : List Char :=
  match edit.range with
  | none => edit.text
  | some range =>
      let lines := Text.splitLines source
      let start := e.ofClient lines range.start
      let stop := e.ofClient lines range.stop
      if start.line = lines.length then source ++ edit.text
      else replaceLines start stop edit.text 0 lines

end NuspecLint

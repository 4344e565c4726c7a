/-!
# Paths

Paths as users write them.  A path is an anchor and a list of parts; repeated slashes and parts
that name the current directory are not kept, parts that name the parent directory are.
-/

namespace NuspecLint

/-- Where a path starts. -/
inductive Anchor where
  /-- At the working directory. -/
  | relative
  /-- At the root. -/
  | root
  /-- At the root, written with exactly two slashes. -/
  | doubleRoot
  deriving Repr, DecidableEq

/-- A path. -/
structure Path where
  anchor : Anchor
  parts : List String
  deriving Repr, DecidableEq

namespace Path

/-- The anchor that the leading slashes of a path stand for. -/
def anchorOf : List Char → Anchor
  | '/' :: '/' :: '/' :: _ => .root
  | '/' :: '/' :: _ => .doubleRoot
  | '/' :: _ => .root
  | _ => .relative

/-- The stretches of a text between slashes; the one under way is `current`, newest first. -/
def splitSlashes (current : List Char) : List Char → List (List Char)
  | [] => [current.reverse]
  | c :: s =>
      if c = '/' then current.reverse :: splitSlashes [] s
      else splitSlashes (c :: current) s

/-- The path that a text stands for. -/
def ofText (s : List Char) : Path :=
  let parts := (splitSlashes [] s).filter fun part => part ≠ [] && part ≠ ['.']
  ⟨anchorOf s, parts.map String.ofList⟩

/-- The path that a string stands for. -/
def ofString (s : String) : Path :=
  ofText s.toList

/-- How an anchor is written. -/
def anchorText : Anchor → String
  | .relative => ""
  | .root => "/"
  | .doubleRoot => "//"

/-- The path as it is shown; one without any parts is the current directory. -/
def text (p : Path) : String :=
  let shown := anchorText p.anchor ++ "/".intercalate p.parts
  if shown.isEmpty then "." else shown

/-- The path starts at the root. -/
def isAbsolute (p : Path) : Bool :=
  p.anchor ≠ .relative

/-- A path below another. -/
def append (p : Path) (parts : List String) : Path :=
  ⟨p.anchor, p.parts ++ parts⟩

/-- The path seen from a working directory. -/
def absolute (p cwd : Path) : Path :=
  if p.isAbsolute then p else cwd.append p.parts

/-- The path without its last part. -/
def parent (p : Path) : Path :=
  ⟨p.anchor, p.parts.dropLast⟩

/-- The path and its lexical parents, innermost first; `parts` is the path's parts reversed. -/
def ancestorsOf (anchor : Anchor) : List String → List Path
  | [] => [⟨anchor, []⟩]
  | part :: outer => ⟨anchor, (part :: outer).reverse⟩ :: ancestorsOf anchor outer

/-- The path and its lexical parents, innermost first. -/
def ancestors (p : Path) : List Path :=
  ancestorsOf p.anchor p.parts.reverse

/-- All components of a path, its anchor included. -/
def components (p : Path) : List String :=
  (if p.isAbsolute then [anchorText p.anchor] else []) ++ p.parts

/-- Lists of components in order: the first difference decides, and a shorter list comes first. -/
def inOrder : List String → List String → Bool
  | [], _ => true
  | _ :: _, [] => false
  | a :: as, b :: bs => if a < b then true else if b < a then false else inOrder as bs

end Path

/-- The place of a file or directory: the names on the way to it from the root. -/
abbrev Location := List String

namespace Path

/-- Follow parts from a place, `..` leading to the place that holds it; the place is reversed. -/
def follow (place : List String) : List String → List String
  | [] => place
  | part :: rest => follow (if part = ".." then place.tail else part :: place) rest

/-- The place that an absolute path leads to. -/
def resolve (p : Path) : Location :=
  (follow [] p.parts).reverse

end Path

end NuspecLint

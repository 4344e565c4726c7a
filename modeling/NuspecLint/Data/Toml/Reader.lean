import NuspecLint.Data.Toml.Scalar
import NuspecLint.Data.Toml.Table
import NuspecLint.Text.Newline

/-!
# TOML: files

**Input.**  The text of a configuration file.

**Algorithm.**  The file is read line by line: a header opens a table, a key with a value adds an
entry to the open table, and blank lines and comments add nothing.  Values nest and keys are
dotted, so the readers carry a budget; a text holds no more values and names than characters.
They also carry an allowance for nesting, of which each list and each table takes its part; how
much there is depends on the host.

**Results.**
* `Toml.read`: the entries of the file, or the first thing in it that cannot be read.
-/

namespace NuspecLint
namespace Toml

/-- The rest of a text after its leading blanks. -/
def skipBlanks (s : List Char) : List Char :=
  s.dropWhile isBlank

/-- The rest of a text after the comment that may start it. -/
def skipComment? : List Char → Option (List Char)
  | '#' :: s =>
      if (s.takeWhile (· != '\n')).any isControl then none else some (s.dropWhile (· != '\n'))
  | s => some s

/-- The rest of a text after blanks, line ends and comments. -/
def skipFiller? (inComment : Bool) : List Char → Option (List Char)
  | [] => some []
  | c :: s =>
      if inComment then
        if c = '\n' then skipFiller? false s
        else if isControl c then none
        else skipFiller? true s
      else if isBlank c || c == '\n' then skipFiller? false s
      else if c = '#' then skipFiller? true s
      else some (c :: s)

/-- The characters of a name that stands without quotes. -/
def isBareKeyChar (c : Char) : Bool :=
  c.isAlphanum || c == '-' || c == '_'

/-- One name of a key. -/
def readName? : List Char → Option (String × List Char)
  | [] => none
  | c :: s =>
      if isBareKeyChar c then
        some (String.ofList (c :: s.takeWhile isBareKeyChar), s.dropWhile isBareKeyChar)
      else if c = '\'' then
        (readLiteral? ['\''] isControl s).map fun found => (String.ofList found.1, found.2)
      else if c = '"' then
        (readBasic? false .off [] s).map fun found => (String.ofList found.1, found.2)
      else none

/-- A dotted key, with the blanks around its parts; the names read before are newest first. -/
def readNames? : Nat → List String → List Char → Option (Key × List Char)
  | 0, _, _ => none
  | budget + 1, names, s =>
      match readName? s with
      | none => none
      | some (name, rest) =>
          match skipBlanks rest with
          | '.' :: t => readNames? budget (name :: names) (skipBlanks t)
          | t => some ((name :: names).reverse, t)

/-- A dotted key. -/
def readKey? (s : List Char) : Option (Key × List Char) :=
  readNames? (s.length + 1) [] s

/-- A key and the equals sign after it. -/
def readAssigned? (s : List Char) : Option (Key × List Char) :=
  match readKey? s with
  | some (key, '=' :: t) => some (key, skipBlanks t)
  | _ => none

/-- What a list takes of the allowance for nesting. -/
def listNesting : Nat := 2

/-- What a table written in place takes of the allowance for nesting. -/
def tableNesting : Nat := 3

mutual

/-- A value, within an allowance for nesting. -/
def readValue : Nat → Nat → List Char → Except Fault (Value × List Char)
  | 0, _, _ => .error .malformed
  | budget + 1, allowance, s =>
      match s with
      | '[' :: t =>
          if allowance < listNesting then .error .tooDeep
          else
            match skipFiller? false t with
            | none => .error .malformed
            | some (']' :: rest) => .ok (.list [], rest)
            | some t => readItems budget (allowance - listNesting) [] t
      | '{' :: t =>
          if allowance < tableNesting then .error .tooDeep
          else
            match skipBlanks t with
            | '}' :: rest => .ok (.table [], rest)
            | t => readFields budget (allowance - tableNesting) ⟨[], []⟩ t
      | s => readScalar s

/-- The items of a list up to its closing bracket; those read before are newest first. -/
def readItems : Nat → Nat → List Value → List Char → Except Fault (Value × List Char)
  | 0, _, _, _ => .error .malformed
  | budget + 1, allowance, items, s =>
      match readValue budget allowance s with
      | .error f => .error f
      | .ok (v, rest) =>
          match skipFiller? false rest with
          | some (']' :: t) => .ok (.list (v :: items).reverse, t)
          | some (',' :: t) =>
              match skipFiller? false t with
              | none => .error .malformed
              | some (']' :: t) => .ok (.list (v :: items).reverse, t)
              | some t => readItems budget allowance (v :: items) t
          | _ => .error .malformed

/-- The fields of a table written in place, up to its closing brace. -/
def readFields : Nat → Nat → InlineTable → List Char → Except Fault (Value × List Char)
  | 0, _, _, _ => .error .malformed
  | budget + 1, allowance, table, s =>
      match readAssigned? s with
      | none => .error .malformed
      | some (key, t) =>
          match readValue budget allowance t with
          | .error f => .error f
          | .ok (v, rest) =>
              match table.assign? key v with
              | none => .error .malformed
              | some table =>
                  match skipBlanks rest with
                  | '}' :: t => .ok (.table table.entries, t)
                  | ',' :: t => readFields budget allowance table (skipBlanks t)
                  | _ => .error .malformed

end

/-- A key with its value. -/
def readAssignment (allowance : Nat) (b : Builder) (s : List Char) :
    Except Fault (Builder × List Char) := do
  let (key, t) ← required (readAssigned? s)
  let (v, rest) ← readValue (2 * t.length + 2) allowance t
  let b ← required (b.assign? key v)
  return (b, rest)

/-- A header, after its first bracket. -/
def readHeader? (b : Builder) : List Char → Option (Builder × List Char)
  | '[' :: s =>
      match readKey? (skipBlanks s) with
      | some (key, ']' :: ']' :: rest) => (b.openItem? key).map fun b => (b, rest)
      | _ => none
  | s =>
      match readKey? (skipBlanks s) with
      | some (key, ']' :: rest) => (b.openTable? key).map fun b => (b, rest)
      | _ => none

/-- What a line holds before its comment. -/
def readStatement (allowance : Nat) (b : Builder) (s : List Char) :
    Except Fault (Builder × List Char) :=
  match s with
  | [] => .ok (b, s)
  | c :: t =>
      if c = '\n' ∨ c = '#' then .ok (b, s)
      else if c = '[' then required (readHeader? b t)
      else readAssignment allowance b s

/-- The lines of a file. -/
def readLines (allowance : Nat) : Nat → Builder → List Char → Except Fault Entries
  | 0, _, _ => .error .malformed
  | budget + 1, b, s =>
      match readStatement allowance b (skipBlanks s) with
      | .error f => .error f
      | .ok (b, rest) =>
          match skipComment? (skipBlanks rest) with
          | some [] => .ok b.entries
          | some ('\n' :: t) => readLines allowance budget b t
          | _ => .error .malformed

/-- The entries of a file. -/
def read (allowance : Nat) (s : List Char) : Except Fault Entries :=
  let s := Text.joinReturnFeeds s
  readLines allowance (s.length + 1) .empty s

end Toml
end NuspecLint

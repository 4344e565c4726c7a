import NuspecLint.FileSystem
import NuspecLint.Host

/-!
# The workspace

What the program sees of its surroundings: the files, where it was started, and its host.

**Algorithm.**  A path is looked up as it is written, from the working directory.  One with a null
character is never looked up, and one that is too long is refused before it is followed.  The
system also refuses a path that leads through a directory closed to passing.

**Results.**
* `Workspace.locate`: the place that a path leads to, or why it leads to none.
* `Workspace.read`: the bytes of a file, or why they cannot be read.
* `Workspace.list`: what is in a directory, or why it cannot be listed.
-/

namespace NuspecLint

/-- The files, the directory that relative paths start from, and the host. -/
structure Workspace where
  files : FileSystem
  cwd : Path
  host : Host

/-- Why a path cannot even be asked about. -/
inductive PathFault where
  /-- The system refuses to look. -/
  | refused (path : Path) (fault : ReadFault)
  | nullCharacter
  deriving Repr, DecidableEq

/-- The message for a path that cannot be asked about. -/
def PathFault.message : PathFault → String
  | refused path fault => fault.message path.text
  | nullCharacter => ReadFault.nullCharacter.message ""

/-- What a path that cannot be asked about is called in messages. -/
def PathFault.kind : PathFault → String
  | refused _ fault => fault.kind
  | nullCharacter => ReadFault.nullCharacter.kind

/-- The most bytes that a path may be written with. -/
def pathLimit : Nat := 4095

/-- A part of the path holds a null character. -/
def Path.hasNull (p : Path) : Bool :=
  p.parts.any fun part => part.toList.contains (Char.ofNat 0)

namespace Workspace

/-- The place that a path is followed from, innermost name first. -/
def origin (w : Workspace) (p : Path) : List String :=
  if p.isAbsolute then [] else Path.follow [] w.cwd.parts

/-- The place that a path leads to; there may be nothing at it. -/
def locate (w : Workspace) (p : Path) : Except ReadFault Location :=
  if p.hasNull then .error .nullCharacter
  else if pathLimit < p.text.utf8ByteSize then .error .nameTooLong
  else w.files.locateFrom (w.origin p) p.parts

/-- What a path leads to, if anything. -/
def find? (w : Workspace) (p : Path) : Option Entry :=
  match w.locate p with
  | .ok place => w.files.entry? place
  | .error _ => none

/-- Whether a path leads to a directory. -/
def isDirectory (w : Workspace) (p : Path) : Bool :=
  match w.find? p with
  | some .directory => true
  | _ => false

/-- Whether a path leads to a file. -/
def isFile (w : Workspace) (p : Path) : Bool :=
  match w.find? p with
  | some (.file _) => true
  | _ => false

/-- Whether a path leads to anything. -/
def exists? (w : Workspace) (p : Path) : Bool :=
  (w.find? p).isSome

/-- Why the system refuses to look where a path leads, if it does. -/
def refusal? (w : Workspace) (p : Path) : Option ReadFault :=
  match w.locate p with
  | .error f => if f.isRefusal then some f else none
  | .ok _ => none

/-- Ask something about a path; the system may refuse to look. -/
def ask (w : Workspace) (question : Workspace → Path → Bool) (p : Path) :
    Except PathFault Bool :=
  match w.refusal? p with
  | some f => .error (.refused p f)
  | none => .ok (question w p)

/-- The bytes of the file that a path leads to. -/
def read (w : Workspace) (p : Path) : Except ReadFault (List UInt8) :=
  match w.locate p with
  | .error f => .error f
  | .ok place =>
      match w.files.entry? place with
      | none => .error .notFound
      | some e =>
          if w.files.closes place .reading then .error .denied
          else
            match e with
            | .file bytes => .ok bytes
            | .directory => .error .isDirectory

/-- What is in the directory that a path leads to, by name. -/
def list (w : Workspace) (p : Path) : Except ReadFault (List (String × Entry)) :=
  match w.locate p with
  | .error f => .error f
  | .ok place =>
      match w.files.entry? place with
      | none => .error .notFound
      | some (.file _) => .error .notDirectory
      | some .directory =>
          if w.files.closes place .reading then .error .denied else .ok (w.files.listed place)

end Workspace

end NuspecLint

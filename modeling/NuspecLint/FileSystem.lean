import NuspecLint.Path
import NuspecLint.Text.Quoted

/-!
# File systems

A finite collection of places, each with a file or a directory, and what the system does not let the
program do at some of them.  There are no links, and what is there does not change while it is
looked at.

**Access.**  A file or a directory may be closed to reading.  A directory may be closed to passing:
then nothing in it can be looked at, though its names may still be listed.

**Results.**
* `FileSystem.locate`: the place that a path leads to, or why it leads to none.  Every part but
  the last must lead to a directory that may be passed, also before `..`, and no name may be too
  long.
* `FileSystem.listed`: what is in a directory.
-/

namespace NuspecLint

/-- What is found at a place. -/
inductive Entry where
  | file (bytes : List UInt8)
  | directory
  deriving Repr, DecidableEq

/-- What the program may be kept from doing at a place. -/
inductive Access where
  /-- Read a file, or list a directory. -/
  | reading
  /-- Look at what a directory holds. -/
  | passing
  deriving Repr, DecidableEq

/-- The places in use.  The root is always a directory and is not listed. -/
structure FileSystem where
  entries : List (Location × Entry)
  /-- What the program may not do. -/
  closed : List (Location × Access)

/-- Why a file cannot be read. -/
inductive ReadFault where
  | notFound
  | denied
  | notDirectory
  | isDirectory
  | nameTooLong
  | nullCharacter
  deriving Repr, DecidableEq

namespace ReadFault

/-- The message for a file that cannot be read, given its path as it was asked for. -/
def message (f : ReadFault) (asked : String) : String :=
  match f with
  | notFound => "[Errno 2] No such file or directory: " ++ Text.quotedString asked
  | denied => "[Errno 13] Permission denied: " ++ Text.quotedString asked
  | notDirectory => "[Errno 20] Not a directory: " ++ Text.quotedString asked
  | isDirectory => "[Errno 21] Is a directory: " ++ Text.quotedString asked
  | nameTooLong => "[Errno 36] File name too long: " ++ Text.quotedString asked
  | nullCharacter => "embedded null byte"

/-- What the kind of fault is called in messages. -/
def kind : ReadFault → String
  | notFound => "FileNotFoundError"
  | denied => "PermissionError"
  | notDirectory => "NotADirectoryError"
  | isDirectory => "IsADirectoryError"
  | nameTooLong => "OSError"
  | nullCharacter => "ValueError"

/-- The system refuses to look: there may or may not be something. -/
def isRefusal : ReadFault → Bool
  | denied | nameTooLong => true
  | _ => false

end ReadFault

/-- The most bytes that a name may have. -/
def nameLimit : Nat := 255

namespace FileSystem

/-- What is found at a place, if anything. -/
def entry? (fs : FileSystem) (place : Location) : Option Entry :=
  if place = [] then some .directory else fs.entries.lookup place

/-- The program may not do this at a place. -/
def closes (fs : FileSystem) (place : Location) (access : Access) : Bool :=
  fs.closed.contains (place, access)

/-- Follow parts from a directory; the place is reversed. -/
def locateFrom (fs : FileSystem) (place : List String) : List String → Except ReadFault Location
  | [] => .ok place.reverse
  | part :: rest =>
      match fs.entry? place.reverse with
      | none => .error .notFound
      | some (.file _) => .error .notDirectory
      | some .directory =>
          if fs.closes place.reverse .passing then .error .denied
          else if part = ".." then locateFrom fs place.tail rest
          else if nameLimit < part.utf8ByteSize then .error .nameTooLong
          else locateFrom fs (part :: place) rest

/-- What is in a directory, by name. -/
def listed (fs : FileSystem) (directory : Location) : List (String × Entry) :=
  fs.entries.filterMap fun e =>
    match e.1.getLast? with
    | some name => if e.1 = directory ++ [name] then some (name, e.2) else none
    | none => none

/-- Put an entry at a place, in place of what was there. -/
def set (fs : FileSystem) (place : Location) (e : Entry) : FileSystem :=
  { fs with entries := fs.entries.filter (fun old => old.1 ≠ place) ++ [(place, e)] }

/-- Put a directory at each of some places where there is nothing yet. -/
def ensureDirectories (fs : FileSystem) : List Location → FileSystem
  | [] => fs
  | place :: rest =>
      let fs := if (fs.entry? place).isSome then fs else fs.set place .directory
      ensureDirectories fs rest

/-- The places on the way to a place, outermost first; the root is left out. -/
def holders (place : Location) : List Location :=
  (List.range place.length).tail.map fun n => place.take n

/-- Write a file, with the directories that hold it. -/
def writeFile (fs : FileSystem) (place : Location) (bytes : List UInt8) : FileSystem :=
  (fs.ensureDirectories (holders place)).set place (.file bytes)

/-- Make a directory, with the directories that hold it. -/
def makeDirectory (fs : FileSystem) (place : Location) : FileSystem :=
  fs.ensureDirectories (holders place ++ [place])

/-- Keep the program from doing something at a place. -/
def close (fs : FileSystem) (place : Location) (access : Access) : FileSystem :=
  { fs with closed := (place, access) :: fs.closed }

/-- Nothing is there, and nothing is closed. -/
def empty : FileSystem :=
  ⟨[], []⟩

end FileSystem

end NuspecLint

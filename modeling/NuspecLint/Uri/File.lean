import NuspecLint.Path
import NuspecLint.Text.Utf8
import NuspecLint.Uri.Authority

/-!
# Document addresses

Clients name documents by URIs.  Those of the scheme `file` lead to the path of a manifest.  Every
URI leads to a path that the document is read from while it is not open.

**Algorithm.**  Leading controls and spaces and all tabs and line ends are dropped.  The scheme
stands before the first colon, the authority between `//` and the next `/`, `?` or `#`, and the
path up to the next `?` or `#`.  In some schemes parameters may follow the last name of the path;
they are dropped.  Percent escapes are decoded after the parts are cut; a run of ASCII characters
is decoded as one stretch of bytes.

**Results.**
* `Uri.path?`: the path of the manifest that a URI names, if it names one.
* `Uri.documentPath`: the path that a document is read from.
-/

namespace NuspecLint
namespace Uri

/-- The byte that an escape stands for. -/
def escapedByte? (a b : Char) : Option UInt8 :=
  match Text.hexDigit? a, Text.hexDigit? b with
  | some high, some low => some (UInt8.ofNat (16 * high + low))
  | _, _ => none

/-- The bytes of a run of ASCII characters, escapes decoded and bad escapes kept. -/
def runBytes : List Char → List UInt8
  | [] => []
  | '%' :: a :: b :: s =>
      match escapedByte? a b with
      | some byte => byte :: runBytes s
      | none => 0x25 :: runBytes (a :: b :: s)
  | c :: s => UInt8.ofNat c.toNat :: runBytes s

/-- Decode percent escapes; `run` holds the ASCII characters just before, newest first. -/
def unescapeAfter (run : List Char) : List Char → List Char
  | [] => Utf8.decodeReplacing (runBytes run.reverse)
  | c :: s =>
      if c.toNat < 0x80 then unescapeAfter (c :: run) s
      else Utf8.decodeReplacing (runBytes run.reverse) ++ c :: unescapeAfter [] s

/-- Decode percent escapes. -/
def unescape (s : List Char) : List Char :=
  unescapeAfter [] s

/-- The characters of a scheme. -/
def isSchemeChar (c : Char) : Bool :=
  c.isAlphanum || c == '+' || c == '-' || c == '.'

/-- The text without what no URI holds. -/
def clean (s : List Char) : List Char :=
  (s.dropWhile fun c => c.toNat ≤ 0x20).filter fun c => c != '\t' && c != '\n' && c != '\r'

/-- The scheme, in lower case, and what follows its colon. -/
def splitScheme (s : List Char) : List Char × List Char :=
  let scheme := s.takeWhile (· != ':')
  match scheme, s.dropWhile (· != ':') with
  | first :: _, _ :: rest =>
      if first.isAlpha && scheme.all isSchemeChar then (scheme.map Char.toLower, rest)
      else ([], s)
  | _, _ => ([], s)

/-- The authority and what follows it. -/
def splitAuthority : List Char → List Char × List Char
  | '/' :: '/' :: s =>
      let inside (c : Char) : Bool := c != '/' && c != '?' && c != '#'
      (s.takeWhile inside, s.dropWhile inside)
  | s => ([], s)

/-- The schemes in which parameters may follow the last name of a path. -/
def parameterSchemes : List String :=
  ["", "ftp", "hdl", "http", "https", "imap", "mms", "prospero", "rtsp", "rtspu", "sftp", "shttp",
   "sip", "sips", "tel"]

/-- A path without the parameters after its last name. -/
def dropParameters (path : List Char) : List Char :=
  let name := (path.reverse.takeWhile (· != '/')).reverse
  path.take (path.length - name.length) ++ name.takeWhile (· != ';')

/-- The parts of a URI that matter, percent escapes decoded. -/
structure Parts where
  scheme : String
  authority : List Char
  path : List Char

/-- Take a URI apart. -/
def split (uri : String) : Except Fault Parts :=
  let (scheme, rest) := splitScheme (clean uri.toList)
  let scheme := String.ofList scheme
  let (authority, rest) := splitAuthority rest
  (checkAuthority authority).map fun _ =>
    let path := (rest.takeWhile (· != '#')).takeWhile (· != '?')
    let path := if parameterSchemes.contains scheme then dropParameters path else path
    ⟨scheme, unescape authority, unescape path⟩

/-- The scheme of files. -/
def fileScheme : String := "file"

/-- The path that a decoded authority and path of the scheme `file` stand for. -/
def filePath (authority path : List Char) : List Char :=
  if !authority.isEmpty && !path.isEmpty then '/' :: '/' :: (authority ++ path)
  else
    match path with
    | '/' :: drive :: ':' :: rest =>
        if drive.isAlpha then drive.toLower :: ':' :: rest else path
    | _ => path

/-- The path of a manifest: that of a file, unless it is empty. -/
def Parts.manifestPath? (p : Parts) : Option Path :=
  let text := filePath p.authority p.path
  if p.scheme = fileScheme ∧ text ≠ [] then some (Path.ofText text) else none

/-- The path that a document is read from; an empty one is the current directory. -/
def Parts.documentPath (p : Parts) : Path :=
  Path.ofText (if p.scheme = fileScheme then filePath p.authority p.path else p.path)

/-- The path of the manifest that a URI names, if it names one. -/
def path? (uri : String) : Except Fault (Option Path) :=
  (split uri).map Parts.manifestPath?

/-- The path that the document of a URI is read from. -/
def documentPath (uri : String) : Except Fault Path :=
  (split uri).map Parts.documentPath

/-- What open documents are told apart by. -/
def key (uri : String) : String :=
  String.ofList (unescape uri.toList)

end Uri
end NuspecLint

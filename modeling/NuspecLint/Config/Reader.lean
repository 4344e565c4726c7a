import NuspecLint.Config.Basic
import NuspecLint.Data.Toml.Reader
import NuspecLint.Log
import NuspecLint.Text.Case
import NuspecLint.Text.Utf8
import NuspecLint.Workspace

/-!
# Configuration files

**Input.**  The bytes of a configuration file.

**Algorithm.**  The file is decoded and read as TOML.  Settings with unknown names are logged and
ignored.  Rule identifiers are compared in upper case; those that no registered rule has are
logged and kept.

**Results.**
* `Config.ofBytes`: the settings of a file, or what is wrong with it.
-/

namespace NuspecLint

/-- What ends the work on manifests, whatever is to be done about faulty configurations. -/
inductive Breakdown where
  /-- A path cannot be asked about. -/
  | path (fault : PathFault)
  /-- A configuration is nested too deeply to be read. -/
  | nesting
  /-- A configuration is faulty, and the value that would have to be shown is nested too deeply. -/
  | showing
  /-- Directories to be searched are nested too deeply. -/
  | walking
  deriving Repr, DecidableEq

namespace Breakdown

/-- The message for a breakdown. -/
def message : Breakdown → String
  | path fault => fault.message
  | nesting => tooDeep
  | showing => tooDeepToShow
  | walking => tooDeep

/-- What the kind of breakdown is called in messages. -/
def kind : Breakdown → String
  | path fault => fault.kind
  | nesting | showing | walking => "RecursionError"

end Breakdown

/-- What is wrong with a configuration. -/
inductive ConfigFault where
  | broken (cause : Breakdown)
  | unreadable (path : Path) (fault : ReadFault)
  | notText (fault : Utf8.Fault)
  | notToml (path : Path) (text : List Char)
  | longInteger (fault : LongInteger)
  | notRuleList (path : Path) (key : String) (value : Value)
  | rulesNotTable (path : Path)
  | ruleNotTable (path : Path) (id : String)
  | options (fault : OptionFault)

/-- The message for a faulty configuration, on a host. -/
def ConfigFault.message (host : Host) : ConfigFault → String
  | broken cause => cause.message
  | unreadable path fault => path.text ++ ": " ++ fault.message path.text
  | notText fault => fault.message
  | notToml path text => path.text ++ ": " ++ host.objection text
  | longInteger fault => fault.message
  | notRuleList path key value =>
      value.complaint host.showing
        (path.text ++ ": `" ++ key ++ "` must be a list of rule IDs, got ")
  | rulesNotTable path => path.text ++ ": `rules` must be a table keyed by rule ID"
  | ruleNotTable path id => path.text ++ ": `rules." ++ id ++ "` must be a table of options"
  | options fault => fault.message host.showing

/-- The breakdown that a faulty configuration amounts to on a host, if it is more than faulty. -/
def ConfigFault.breakdown? (host : Host) : ConfigFault → Option Breakdown
  | broken cause => some cause
  | notRuleList _ _ value => if value.isTooDeep host.showing then some .showing else none
  | options fault => if fault.isTooDeep host.showing then some .showing else none
  | _ => none

/-- Strings in increasing order, each once. -/
def sortedSet (xs : List String) : List String :=
  (xs.mergeSort fun a b => decide (a ≤ b)).eraseReps

/-- A rule identifier in upper case. -/
def upperId (id : String) : String :=
  String.ofList (Text.upper id.toList)

namespace Config

/-- The settings that a configuration file may hold. -/
def knownKeys : List String := ["select", "ignore", "rules"]

/-- Log the settings with unknown names. -/
def warnUnknownKeys (path : Path) (entries : Toml.Entries) : Logged Unit :=
  let unknown := (entries.map (·.1)).filter fun key => !knownKeys.contains key
  ⟨(), (sortedSet unknown).map fun key =>
    ⟨.warning, .config, path.text ++ ": ignoring unknown setting `" ++ key ++ "`"⟩⟩

/-- Log the identifiers that no registered rule has. -/
def warnUnknownIds (path : Path) (key : String) (ids : List String) : Logged Unit :=
  let unknown := ids.filter fun id => !Rule.registeredIds.contains id
  if unknown.isEmpty then Logged.pure ()
  else
    Logged.log .warning .config
      (path.text ++ ": unknown rule IDs in `" ++ key ++ "`: " ++
        ", ".intercalate (sortedSet unknown))

/-- A setting that lists rule identifiers. -/
def readIds (path : Path) (entries : Toml.Entries) (key : String) :
    Logged (Except ConfigFault (Option (List String))) :=
  match entries.lookup key with
  | none => Logged.pure (.ok none)
  | some value =>
      match value.strings? with
      | none => Logged.pure (.error (.notRuleList path key value))
      | some names =>
          let ids := sortedSet (names.map upperId)
          (warnUnknownIds path key ids).bind fun _ => Logged.pure (.ok (some ids))

/-- Give a key a value: in its old place if it has one, else at the end. -/
def put {α : Type} (key : String) (v : α) : List (String × α) → List (String × α)
  | [] => [(key, v)]
  | (k, old) :: rest => if k = key then (k, v) :: rest else (k, old) :: put key v rest

/-- The options of rules, by identifier in upper case; the last table of an identifier counts. -/
def collectOptions (path : Path) (found : List (String × Options)) :
    Toml.Entries → Except ConfigFault (List (String × Options))
  | [] => .ok found
  | (id, value) :: rest =>
      match value.entries? with
      | none => .error (.ruleNotTable path id)
      | some options => collectOptions path (put (upperId id) options found) rest

/-- The setting that holds the options of rules. -/
def readOptions (path : Path) (entries : Toml.Entries) :
    Logged (Except ConfigFault (List (String × Options))) :=
  match ((entries.lookup "rules").getD (.table [])).entries? with
  | none => Logged.pure (.error (.rulesNotTable path))
  | some table =>
      match collectOptions path [] table with
      | .error f => Logged.pure (.error f)
      | .ok options =>
          (warnUnknownIds path "rules" (options.map (·.1))).bind fun _ =>
            Logged.pure (.ok options)

/-- The settings that the entries of a file stand for. -/
def ofEntries (path : Path) (entries : Toml.Entries) : Logged (Except ConfigFault Config) :=
  (warnUnknownKeys path entries).bind fun _ =>
  (readIds path entries "select").bind fun select =>
  match select with
  | .error f => Logged.pure (.error f)
  | .ok select =>
      (readIds path entries "ignore").bind fun ignore =>
      match ignore with
      | .error f => Logged.pure (.error f)
      | .ok ignore =>
          (readOptions path entries).bind fun options =>
          match options with
          | .error f => Logged.pure (.error f)
          | .ok options => Logged.pure (.ok ⟨select, ignore.getD [], options, some path⟩)

/-- The settings of a file with the given bytes. -/
def ofBytes (host : Host) (path : Path) (bytes : List UInt8) :
    Logged (Except ConfigFault Config) :=
  match Utf8.decode bytes with
  | .error f => Logged.pure (.error (.notText f))
  | .ok text =>
      match Toml.read host.reading text with
      | .error .malformed => Logged.pure (.error (.notToml path text))
      | .error (.longInteger f) => Logged.pure (.error (.longInteger f))
      | .error .tooDeep => Logged.pure (.error (.broken .nesting))
      | .ok entries => ofEntries path entries

end Config

end NuspecLint

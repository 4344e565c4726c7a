import NuspecLint.Analysis
import NuspecLint.Command.Manifests
import NuspecLint.Text.Terminal

/-!
# The check command

**Input.**  Paths of manifests and directories.

**Algorithm.**  Each manifest is read and checked with the rules configured for it.  One that
cannot be read is named on the error channel and passed over.  A faulty configuration ends the
command at once, and so does a breakdown.  Commands for a terminal are left out of what is
printed, log records excepted.

**Results.**
* `Workspace.check`: what is printed, and the exit code: two after a faulty configuration, else
  one if anything was reported or there was a breakdown, else zero.
-/

namespace NuspecLint

/-- What a command prints, line by line, and how it ends. -/
structure Report where
  output : List String
  errors : List String
  exitCode : Nat
  /-- What ended the command before its time, if anything did. -/
  breakdown : Option Breakdown
  deriving Repr, DecidableEq

/-- The messages of the records that are shown without any logging set up: warnings and worse. -/
def shownRecords (records : List Record) : List String :=
  (records.filter fun r => Level.warning.rank ≤ r.level.rank).map (·.message)

/-- A line as it is printed. -/
def printed (line : String) : String :=
  String.ofList (Text.withoutCommands line.toList)

/-- The line for a diagnostic; lines and characters are counted from one. -/
def diagnosticLine (p : Path) (d : Diagnostic) : String :=
  p.text ++ ":" ++ toString (d.range.start.line + 1) ++ ":" ++
    toString (d.range.start.character + 1) ++ ": " ++ d.ruleId ++ " " ++ d.message

namespace Workspace

/-- Why a manifest has no text. -/
inductive ManifestFault where
  | unreadable (fault : ReadFault)
  | notText (fault : Utf8.Fault)
  deriving Repr, DecidableEq

/-- The message for a manifest that has no text. -/
def ManifestFault.message (p : Path) : ManifestFault → String
  | unreadable fault => fault.message p.text
  | notText fault => fault.message

/-- The text of a manifest, without byte order mark and with line feeds as its only line ends. -/
def readManifest (w : Workspace) (p : Path) : Except ManifestFault (List Char) :=
  match w.read p with
  | .error f => .error (.unreadable f)
  | .ok bytes =>
      match Utf8.decodeMarked bytes with
      | .error f => .error (.notText f)
      | .ok text => .ok (Text.normalizeNewlines text)

/-- Check manifests one after the other. -/
def checkAll (w : Workspace) : List Path → Report
  | [] => ⟨[], [], 0, none⟩
  | p :: rest =>
      match w.readManifest p with
      | .error f =>
          let later := checkAll w rest
          let line := printed ("error: " ++ p.text ++ ": " ++ f.message p)
          { later with errors := line :: later.errors }
      | .ok text =>
          let rules := w.rulesFor p
          match rules.value with
          | .error f =>
              let shown := shownRecords rules.records
              match f.breakdown? w.host with
              | some b => ⟨[], shown, 1, some b⟩
              | none =>
                  let line := printed ("error: invalid configuration: " ++ f.message w.host)
                  ⟨[], shown ++ [line], 2, none⟩
          | .ok rules' =>
              let found := analyze rules' text
              let later := checkAll w rest
              let lines := found.value.map fun d => printed (diagnosticLine p d)
              { output := lines ++ later.output
                errors :=
                  shownRecords (rules.records ++ found.records) ++ later.errors
                exitCode :=
                  if later.exitCode = 0 ∧ found.value ≠ [] then 1 else later.exitCode
                breakdown := later.breakdown }

/-- Check what the paths of a command line stand for. -/
def check (w : Workspace) (paths : List Path) : Report :=
  match w.manifests paths with
  | .error b => ⟨[], [], 1, some b⟩
  | .ok found => w.checkAll found

end Workspace
end NuspecLint

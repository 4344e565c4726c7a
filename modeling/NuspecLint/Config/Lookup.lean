import NuspecLint.Config.Reader

/-!
# Which configuration applies

Packages keep their settings next to their manifests.

**Algorithm.**  The directory of a manifest and its lexical parents are searched, innermost first,
for a configuration file.  The search ends with the first directory that holds a repository.  It
also ends, without an answer, where the system refuses to look.

**Results.**
* `Workspace.configFile`: the file that governs a manifest, if there is one.
* `Workspace.rulesFor`: the rules to run on it, or what is wrong with its configuration.
* `Workspace.rulesOrAll`: the same, with every registered rule in place of a faulty configuration.
-/

namespace NuspecLint
namespace Workspace

/-- The names of configuration files; of two in one directory the first counts. -/
def configNames : List String := [".nuspec-ls.toml", "nuspec-ls.toml"]

/-- The name that marks the directory of a repository. -/
def repositoryMark : String := ".git"

/-- The first of some paths that leads to a file. -/
def firstFile (w : Workspace) : List Path → Except PathFault (Option Path)
  | [] => .ok none
  | path :: rest => do
      if ← w.ask isFile path then return some path
      firstFile w rest

/-- The configuration file that a search through some directories comes to, if there is one. -/
def searchIn (w : Workspace) : List Path → Except PathFault (Option Path)
  | [] => .ok none
  | directory :: outer => do
      match ← w.firstFile (configNames.map fun name => directory.append [name]) with
      | some path => return some path
      | none =>
          if ← w.ask exists? (directory.append [repositoryMark]) then return none
          searchIn w outer

/-- The configuration file that governs a manifest, if there is one. -/
def configFile (w : Workspace) (manifest : Path) : Except PathFault (Option Path) := do
  let directory := if ← w.ask isDirectory manifest then manifest else manifest.parent
  w.searchIn (directory.absolute w.cwd).ancestors

/-- The settings that apply to a manifest. -/
def config (w : Workspace) (manifest : Path) : Logged (Except ConfigFault Config) :=
  match w.configFile manifest with
  | .error f => Logged.pure (.error (.broken (.path f)))
  | .ok none => Logged.pure (.ok .standard)
  | .ok (some path) =>
      (Logged.log .debug .config ("Using " ++ path.text ++ " for " ++ manifest.text)).bind
        fun _ =>
          match w.read path with
          | .error f => Logged.pure (.error (.unreadable path f))
          | .ok bytes => Config.ofBytes w.host path bytes

/-- The rules to run on a manifest. -/
def rulesFor (w : Workspace) (manifest : Path) : Logged (Except ConfigFault (List Rule)) :=
  (w.config manifest).bind fun found =>
    match found with
    | .error f => Logged.pure (.error f)
    | .ok config =>
        match config.buildRules Rule.registered with
        | .error f => Logged.pure (.error (.options f))
        | .ok rules => Logged.pure (.ok rules)

/--
The rules to run on a document: every registered rule if it has no path, or if its configuration
is faulty, which is logged.  A breakdown is passed on.
-/
def rulesOrAll (w : Workspace) (manifest : Option Path) :
    Logged (Except Breakdown (List Rule)) :=
  match manifest with
  | none => Logged.pure (.ok Rule.registered)
  | some path =>
      (w.rulesFor path).bind fun found =>
        match found with
        | .ok rules => Logged.pure (.ok rules)
        | .error f =>
            match f.breakdown? w.host with
            | some b => Logged.pure (.error b)
            | none =>
                (Logged.log .warning .server
                  ("Invalid configuration for " ++ path.text ++ ", running every rule: " ++
                    f.message w.host)).bind fun _ => Logged.pure (.ok Rule.registered)

end Workspace
end NuspecLint

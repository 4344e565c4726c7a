import NuspecLint.Config.Lookup

/-!
# Which manifests to check

**Input.**  Paths as given on the command line.

**Algorithm.**  A path to a directory stands for the manifests below it, in the order of their
components; those with a component that names a directory without sources are left out.  A
directory that is closed to reading, or to be reached through one closed to passing, counts as
empty.  Any other path stands for itself.  Of several paths that lead to one place the first is
kept.

**Results.**
* `Workspace.manifests`: the manifests to check, or why there is no answer: the system refuses to
  look at a path of the command line or at a directory below one, directories are nested too
  deeply, or else a path has a null character.
-/

namespace NuspecLint
namespace Workspace

/-- Names of directories that hold no manifests worth checking. -/
def skippedNames : List String :=
  [".venv", "venv", "__pycache__", ".git", "node_modules", "build", "dist", ".tox"]

/-- The ending of a manifest's name. -/
def manifestEnding : List Char := ".nuspec".toList

/-- The name is one of a manifest. -/
def isManifest (name : String) : Bool :=
  manifestEnding.isSuffixOf name.toList

/-- No component of a path names a directory without sources. -/
def isWanted (p : Path) : Bool :=
  !p.components.any skippedNames.contains

/-- The directories in a directory, by name. -/
def directoriesIn (names : List (String × Entry)) : List String :=
  names.filterMap fun e => if e.2 = .directory then some e.1 else none

/--
The manifests in a directory and below it: first those in it, then those below each directory in
it.  So many directories may be searched one inside the other.
-/
def walk (w : Workspace) : Nat → Path → Except Breakdown (List Path)
  | 0, _ => .error .walking
  | allowance + 1, directory =>
      match w.list directory with
      | .error .denied => .ok []
      | .error f => .error (.path (.refused directory f))
      | .ok names => do
          let here := (names.map Prod.fst).filter isManifest
          let below ← (directoriesIn names).mapM fun name =>
            walk w allowance (directory.append [name])
          return here.map (fun name => directory.append [name]) ++ below.flatten

/-- The manifests below a directory, in the order of their components. -/
def manifestsBelow (w : Workspace) (root : Path) : Except Breakdown (List Path) := do
  if ← (w.ask isDirectory root).mapError .path then
    let found ← w.walk w.host.walking root
    return (found.filter isWanted).mergeSort fun a b => Path.inOrder a.components b.components
  else return []

/-- The place that a path leads to. -/
def placeOf (w : Workspace) (p : Path) : Location :=
  (p.absolute w.cwd).resolve

/-- The paths that a path of the command line stands for. -/
def expand (w : Workspace) (p : Path) : Except Breakdown (List Path) := do
  if ← (w.ask isDirectory p).mapError .path then w.manifestsBelow p else return [p]

/-- Keep the first of the paths that lead to one place; `seen` are the places met before. -/
def firstOfEach (w : Workspace) (seen : List Location) : List Path → List Path
  | [] => []
  | p :: rest =>
      if seen.contains (w.placeOf p) then firstOfEach w seen rest
      else p :: firstOfEach w (w.placeOf p :: seen) rest

/-- The manifests that the paths of a command line stand for. -/
def manifests (w : Workspace) (paths : List Path) : Except Breakdown (List Path) := do
  let found := (← paths.mapM w.expand).flatten
  if found.any Path.hasNull then throw (.path .nullCharacter)
  return w.firstOfEach [] found

end Workspace
end NuspecLint

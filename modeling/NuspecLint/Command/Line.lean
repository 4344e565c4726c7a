import NuspecLint.Command.Check
import NuspecLint.Command.Serve

/-!
# The command line

**Input.**  The arguments of the program.

**Algorithm.**  Options before the first other argument belong to the program, and that argument
names a command.  Options of a command may stand anywhere after it; a lone `--` ends them.  An
unknown option is refused before anything else is looked at, and help is given before arguments
are counted.  An option in the place of a command's name is read as one of the program after all.

**Results.**
* `Command.ofArguments`: the command that arguments stand for.
* `Command.exitCode`: the exit code of a command.
-/

namespace NuspecLint

/-- What a command line asks for. -/
inductive Command where
  /-- Nothing that the program understands. -/
  | misuse
  | help
  | check (paths : List String)
  | serve (level : String)
  deriving Repr, DecidableEq

/-- The arguments of a command, taken apart. -/
structure Arguments where
  wantsHelp : Bool
  /-- The value of the log level option, as given last. -/
  level : Option String
  others : List String
  deriving Repr, DecidableEq

namespace Command

/-- The option that asks for help. -/
def helpOption : String := "--help"

/-- The option that names the log level. -/
def levelOption : String := "--log-level"

/-- The argument is an option; a lone dash is none. -/
def isOption (argument : String) : Bool :=
  match argument.toList with
  | '-' :: _ :: _ => true
  | _ => false

/-- The value that is joined to the log level option by an equals sign. -/
def joinedLevel? (argument : String) : Option String :=
  let opening := (levelOption ++ "=").toList
  if opening.isPrefixOf argument.toList then
    some (String.ofList (argument.toList.drop opening.length))
  else none

/-- Take arguments apart, or refuse them; `hasLevel` says whether a log level may be named. -/
def split? (hasLevel : Bool) : Arguments → List String → Option Arguments
  | found, [] => some found
  | found, argument :: rest =>
      if argument = "--" then some { found with others := found.others ++ rest }
      else if argument = helpOption then split? hasLevel { found with wantsHelp := true } rest
      else if hasLevel && argument = levelOption then
        match rest with
        | [] => none
        | value :: rest => split? hasLevel { found with level := some value } rest
      else if hasLevel && (joinedLevel? argument).isSome then
        split? hasLevel { found with level := joinedLevel? argument } rest
      else if isOption argument then none
      else split? hasLevel { found with others := found.others ++ [argument] } rest

/-- No arguments yet. -/
def noArguments : Arguments := ⟨false, none, []⟩

/-- The check command with its arguments: at least one path, and none with a null character. -/
def ofCheck (arguments : List String) : Command :=
  match split? false noArguments arguments with
  | none => misuse
  | some found =>
      if found.wantsHelp then help
      else if found.others.isEmpty then misuse
      else if found.others.any fun path => (Path.ofString path).hasNull then misuse
      else check found.others

/-- The serve command with its arguments; it takes no paths. -/
def ofServe (arguments : List String) : Command :=
  match split? true noArguments arguments with
  | none => misuse
  | some found =>
      if found.wantsHelp then help
      else if found.others.isEmpty then serve (found.level.getD standardLevel)
      else misuse

/-- The command of a name. -/
def ofName (name : String) (arguments : List String) : Command :=
  if name = "check" then ofCheck arguments
  else if name = "serve" then ofServe arguments
  else misuse

/-- The names of commands. -/
def names : List String := ["check", "serve"]

/-- Take the options of the program off its arguments: whether help is wanted, and the rest. -/
def leading? (wantsHelp : Bool) : List String → Option (Bool × List String)
  | [] => some (wantsHelp, [])
  | argument :: rest =>
      if argument = "--" then some (wantsHelp, rest)
      else if argument = helpOption then leading? true rest
      else if isOption argument then none
      else some (wantsHelp, argument :: rest)

/-- What arguments ask for that do not start with the name of a command: at most for help. -/
def withoutName (arguments : List String) : Command :=
  match leading? false arguments with
  | some (true, _) => help
  | _ => misuse

/-- The command that the arguments of the program stand for. -/
def ofArguments (arguments : List String) : Command :=
  match leading? false arguments with
  | none => misuse
  | some (true, _) => help
  | some (false, []) => misuse
  | some (false, name :: rest) =>
      if names.contains name then ofName name rest else withoutName (name :: rest)

/-- The exit code of a command; a server whose client says nothing ends well. -/
def exitCode (w : Workspace) : Command → Nat
  | misuse => 2
  | help => 0
  | check paths => (w.check (paths.map Path.ofString)).exitCode
  | serve level =>
      match w.serve level [] with
      | .ok _ => 0
      | .error _ => 1

end Command

end NuspecLint

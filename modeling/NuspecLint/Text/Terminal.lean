/-!
# Terminal sequences

A terminal takes an escape character and an opening bracket, followed by parameters and a letter,
for a command.  Where output does not go to a terminal such commands are left out.

**Algorithm.**  What may be the start of a command is held back until it is seen to be one or not.
-/

namespace NuspecLint
namespace Text

/-- The character that starts a command. -/
def escapeChar : Char := Char.ofNat 0x1B

/-- The characters of a command's parameters. -/
def isCommandParameter (c : Char) : Bool :=
  c.isDigit || c == ';' || c == '?'

/-- A text without commands; `held` is the start of one that is under way, newest first. -/
def withoutCommandsAfter (held : List Char) : List Char → List Char
  | [] => held.reverse
  | c :: s =>
      if c = escapeChar then held.reverse ++ withoutCommandsAfter [c] s
      else if held = [] then c :: withoutCommandsAfter [] s
      else if held = [escapeChar] then
        if c = '[' then withoutCommandsAfter (c :: held) s
        else held.reverse ++ c :: withoutCommandsAfter [] s
      else if isCommandParameter c then withoutCommandsAfter (c :: held) s
      else if c.isAlpha then withoutCommandsAfter [] s
      else held.reverse ++ c :: withoutCommandsAfter [] s

/-- A text without the commands for a terminal. -/
def withoutCommands (s : List Char) : List Char :=
  withoutCommandsAfter [] s

end Text
end NuspecLint

/-!
# The host

What runs the program.  It ends what is nested too deeply, and how deep that is depends on how deep
the program is already when it comes to it.  Nor does the program choose the words for a text that
is no TOML.  So none of this is fixed here.
-/

namespace NuspecLint

/-- What the program takes from its host. -/
structure Host where
  /-- How much nesting may be read. -/
  reading : Nat
  /-- How many values, one inside the other, may be shown within another. -/
  showing : Nat
  /-- How many directories, one inside the other, may be searched. -/
  walking : Nat
  /-- What is said of a text that is no TOML. -/
  objection : List Char → String

/-- A host with the usual allowances, which says no more of a text than that it is no TOML. -/
def Host.usual : Host :=
  ⟨980, 984, 970, fun _ => "invalid TOML"⟩

/-- The message for what is nested too deeply. -/
def tooDeep : String := "maximum recursion depth exceeded"

/-- The message for values that are nested too deeply to be shown. -/
def tooDeepToShow : String :=
  tooDeep ++ " while getting the repr of an object"

end NuspecLint

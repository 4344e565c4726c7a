import NuspecLint.Path
import NuspecLint.Rule.Basic

/-!
# Configurations

The settings that apply to one manifest, and the rules that they choose.

**Results.**
* `Config.buildRules`: the enabled rules with their options applied, in registry order, or the
  fault of the first rule that rejects its options.
-/

namespace NuspecLint

/-- The settings that apply to one manifest. -/
structure Config where
  /-- The rules to run; every rule if there is no list. -/
  select : Option (List String)
  /-- The rules not to run, even if they are selected. -/
  ignore : List String
  /-- Options by rule. -/
  ruleOptions : List (String × Options)
  /-- The file that the settings come from. -/
  source : Option Path

namespace Config

/-- The settings where there is no configuration file. -/
def standard : Config :=
  ⟨none, [], [], none⟩

/-- A rule is selected and not ignored. -/
def isEnabled (c : Config) (id : String) : Bool :=
  (match c.select with
    | none => true
    | some ids => ids.contains id) &&
  !c.ignore.contains id

/-- An enabled rule with its options; an empty table of options changes nothing. -/
def applyOptions (c : Config) (r : Rule) : Except OptionFault Rule :=
  match c.ruleOptions.lookup r.id with
  | none => .ok r
  | some [] => .ok r
  | some options => if r.isConfigurable then r.configure options else .ok r

/-- The enabled ones among some rules, with their options, in order. -/
def buildRules (c : Config) (available : List Rule) : Except OptionFault (List Rule) :=
  (available.filter fun r => c.isEnabled r.id).mapM c.applyOptions

end Config

end NuspecLint

import NuspecLint.Data.Value

/-!
# TOML: tables under construction

The tables that the lines of a file build up, and what may no longer be done to them.

A key may be *declared*: a header has opened a table of that key, or a dotted key has made it,
and no later header may open it again.  A key may be *sealed*: its value was written in place as
a list or table, and nothing may be added to it or below it.
-/

namespace NuspecLint
namespace Toml

/-- The names that lead to a value through nested tables. -/
abbrev Key := List String

/-- The entries of a table. -/
abbrev Entries := List (String × Value)

namespace Entries

/-- Give a key that is present a new value, in its old place. -/
def replace (key : String) (v : Value) : Entries → Entries
  | [] => []
  | (k, old) :: rest => if k = key then (k, v) :: rest else (k, old) :: replace key v rest

/--
Change the table that a key leads to; tables that are missing on the way are made.  A list leads
on to its last table if `throughLists` holds.
-/
def update? (throughLists : Bool) (change : Entries → Option Entries) :
    Key → Entries → Option Entries
  | [], entries => change entries
  | name :: rest, entries =>
      match entries.lookup name with
      | none =>
          (update? throughLists change rest []).map fun inner => entries ++ [(name, .table inner)]
      | some (.table inner) =>
          (update? throughLists change rest inner).map fun inner =>
            replace name (.table inner) entries
      | some (.list items) =>
          if throughLists then
            match items.getLast? with
            | some (.table inner) =>
                (update? throughLists change rest inner).map fun inner =>
                  replace name (.list (items.dropLast ++ [.table inner])) entries
            | _ => none
          else none
      | some _ => none

/-- Add an entry under a name that is not in use yet. -/
def insert? (name : String) (v : Value) (entries : Entries) : Option Entries :=
  if (entries.lookup name).isSome then none else some (entries ++ [(name, v)])

/-- Add an empty table to the list under a name. -/
def extend? (name : String) (entries : Entries) : Option Entries :=
  match entries.lookup name with
  | none => some (entries ++ [(name, .list [.table []])])
  | some (.list items) => some (replace name (.list (items ++ [.table []])) entries)
  | some _ => none

end Entries

/-- The value was written in place and holds others. -/
def isContainer : Value → Bool
  | .list _ => true
  | .table _ => true
  | _ => false

/-- A key leads to one of some keys or below it. -/
def isBelow (keys : List Key) (key : Key) : Bool :=
  keys.any fun k => k.isPrefixOf key

/-- The keys on the way to the last name of a dotted key, seen from a header. -/
def steps (header : Key) (key : Key) : List Key :=
  (List.range key.length).tail.map fun n => header ++ key.take n

/-- What the lines of a file have built up. -/
structure Builder where
  entries : Entries
  declared : List Key
  sealed : List Key
  /-- Keys that the next header will declare. -/
  pending : List Key
  /-- The key of the last header. -/
  header : Key

namespace Builder

/-- Nothing read yet. -/
def empty : Builder := ⟨[], [], [], [], []⟩

/-- Declare what the lines since the last header have made. -/
def settle (b : Builder) : Builder :=
  { b with declared := b.pending ++ b.declared, pending := [] }

/-- A header opens a table. -/
def openTable? (key : Key) (b : Builder) : Option Builder :=
  let b := b.settle
  if b.declared.contains key || isBelow b.sealed key then none
  else
    (Entries.update? true some key b.entries).map fun entries =>
      { b with entries := entries, declared := key :: b.declared, header := key }

/-- A header adds a table to a list and opens it; what was said of the last one is forgotten. -/
def openItem? (key : Key) (b : Builder) : Option Builder :=
  let b := b.settle
  if isBelow b.sealed key then none
  else
    match key.getLast? with
    | none => none
    | some name =>
        (Entries.update? true (Entries.extend? name) key.dropLast b.entries).map fun entries =>
          { b with
            entries := entries
            declared := key :: b.declared.filter fun k => !key.isPrefixOf k
            sealed := b.sealed.filter fun k => !key.isPrefixOf k
            header := key }

/-- A line gives a value to a key. -/
def assign? (key : Key) (v : Value) (b : Builder) : Option Builder :=
  let made := steps b.header key
  let parent := b.header ++ key.dropLast
  if made.any b.declared.contains || isBelow b.sealed parent then none
  else
    match key.getLast? with
    | none => none
    | some name =>
        (Entries.update? true (Entries.insert? name v) parent b.entries).map fun entries =>
          { b with
            entries := entries
            pending := made ++ b.pending
            sealed := if isContainer v then (b.header ++ key) :: b.sealed else b.sealed }

end Builder

/-- A table written in place, and the keys in it that are sealed. -/
structure InlineTable where
  entries : Entries
  sealed : List Key

/-- Give a value to a key of a table written in place. -/
def InlineTable.assign? (key : Key) (v : Value) (t : InlineTable) : Option InlineTable :=
  if isBelow t.sealed key then none
  else
    match key.getLast? with
    | none => none
    | some name =>
        (Entries.update? false (Entries.insert? name v) key.dropLast t.entries).map
          fun entries => ⟨entries, if isContainer v then key :: t.sealed else t.sealed⟩

end Toml
end NuspecLint

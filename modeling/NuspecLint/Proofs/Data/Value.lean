import NuspecLint.Data.Value

/-!
# Equality of data values

A data value holds others in its lists and tables.  So equality is decided by a recursion through
both, one function for each.

**Result.**
* `Value.same_iff`: the recursion decides equality, which is the instance for data values.
-/

namespace NuspecLint
namespace Value

mutual

/-- Whether two values are the same. -/
def same (v w : Value) : Bool :=
  match v, w with
  | absent, absent => true
  | boolean b, boolean c => b = c
  | integer m, integer n => m = n
  | number x, number y => x = y
  | string s, string t => s = t
  | moment m, moment n => m = n
  | list vs, list ws => sameItems vs ws
  | table es, table fs => sameEntries es fs
  | rendering s, rendering t => s = t
  | _, _ => false

/-- Whether two lists hold the same values. -/
def sameItems (vs ws : List Value) : Bool :=
  match vs, ws with
  | [], [] => true
  | v :: vs, w :: ws => v.same w && sameItems vs ws
  | _, _ => false

/-- Whether two tables have the same entries in the same order. -/
def sameEntries (es fs : List (String × Value)) : Bool :=
  match es, fs with
  | [], [] => true
  | (key, v) :: es, (other, w) :: fs => key = other && v.same w && sameEntries es fs
  | _, _ => false

end

mutual

theorem same_iff (v w : Value) : v.same w = true ↔ v = w := by
  cases v <;> cases w <;> simp [same, sameItems_iff, sameEntries_iff]

theorem sameItems_iff (vs ws : List Value) : sameItems vs ws = true ↔ vs = ws := by
  cases vs with
  | nil => cases ws <;> simp [sameItems]
  | cons v vs =>
      cases ws with
      | nil => simp [sameItems]
      | cons w ws => simp [sameItems, same_iff v w, sameItems_iff vs ws]

theorem sameEntries_iff (es fs : List (String × Value)) : sameEntries es fs = true ↔ es = fs := by
  cases es with
  | nil => cases fs <;> simp [sameEntries]
  | cons e es =>
      cases fs with
      | nil => simp [sameEntries]
      | cons f fs =>
          simp [sameEntries, same_iff e.2 f.2, sameEntries_iff es fs, Prod.ext_iff]

end

instance : DecidableEq Value :=
  fun v w => decidable_of_iff _ (same_iff v w)

end Value
end NuspecLint

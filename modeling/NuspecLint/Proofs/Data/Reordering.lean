import NuspecLint.Data.Value
import NuspecLint.Proofs.Data.Lookup
import Mathlib.Data.List.Perm.Basic
import Mathlib.Data.Option.Basic

/-!
# The order of entries

Values that differ only in the order in which tables list their entries, and what they have in
common.

**View.**  A reordering is a sequence of moves: the entries of one table, which may be anywhere
inside the value, are permuted.  What one move keeps, every reordering keeps.

**Results.**
* `Value.Reordered.symm`: reordering can be undone.
* `Value.Reordered.eq_of_strings`: only tables are affected.
* `Value.Reordered.keyed`: tables have no key twice, in any order.
* `Value.Reordered.exists_table`: in tables without repeated keys, look-ups find the same up to
  order.
* `Value.Reordered.showable`: what can be shown can be shown in every order.
-/

namespace NuspecLint

namespace Value

/-- Two values that differ only in the order in which tables list their entries, at any depth. -/
inductive Reordered : Value → Value → Prop
  | refl
      (v : Value) :
      Reordered v v
  | trans
      {u v w : Value}
      (h : Reordered u v)
      (h' : Reordered v w) :
      Reordered u w
  | permute
      {xs ys : List (String × Value)}
      (h : xs.Perm ys) :
      Reordered (.table xs) (.table ys)
  | inList
      {v w : Value}
      (before after : List Value)
      (h : Reordered v w) :
      Reordered (.list (before ++ v :: after)) (.list (before ++ w :: after))
  | inTable
      {v w : Value}
      (before : List (String × Value))
      (key : String)
      (after : List (String × Value))
      (h : Reordered v w) :
      Reordered (.table (before ++ (key, v) :: after)) (.table (before ++ (key, w) :: after))

/-- No table, at any depth, has a key twice. -/
inductive Keyed : Value → Prop
  | plain
      {v : Value}
      (hlist : ∀ items, v ≠ .list items)
      (htable : ∀ entries, v ≠ .table entries) :
      Keyed v
  | list
      {items : List Value}
      (h : ∀ v ∈ items, Keyed v) :
      Keyed (.list items)
  | table
      {entries : List (String × Value)}
      (hkeys : (entries.map Prod.fst).Nodup)
      (h : ∀ e ∈ entries, Keyed e.2) :
      Keyed (.table entries)

variable {v w : Value} {items : List Value} {entries xs ys : List (String × Value)}

theorem keyed_list_iff :
    (list items).Keyed ↔ ∀ v ∈ items, v.Keyed := by
  constructor
  · intro h
    cases h with
    | plain hlist =>
        exact absurd rfl (hlist items)
    | list h =>
        exact h
  · exact .list

theorem keyed_table_iff :
    (table entries).Keyed ↔ (entries.map Prod.fst).Nodup ∧ ∀ e ∈ entries, e.2.Keyed := by
  constructor
  · intro h
    cases h with
    | plain _ htable =>
        exact absurd rfl (htable entries)
    | table hkeys h =>
        exact ⟨hkeys, h⟩
  · rintro ⟨hkeys, h⟩
    exact .table hkeys h

namespace Reordered

theorem symm
    (h : Reordered v w) :
    Reordered w v := by
  induction h with
  | refl v =>
      exact .refl v
  | trans _ _ ih ih' =>
      exact ih'.trans ih
  | permute h =>
      exact .permute h.symm
  | inList before after _ ih =>
      exact .inList before after ih
  | inTable before key after _ ih =>
      exact .inTable before key after ih

/-- A value that is neither a list nor a table has no other order. -/
theorem eq_of_plain
    (h : Reordered v w)
    (hlist : ∀ items, v ≠ .list items)
    (htable : ∀ entries, v ≠ .table entries) :
    w = v := by
  induction h with
  | refl v =>
      rfl
  | trans _ _ ih ih' =>
      obtain rfl := ih hlist htable
      exact ih' hlist htable
  | permute =>
      exact absurd rfl (htable _)
  | inList =>
      exact absurd rfl (hlist _)
  | inTable =>
      exact absurd rfl (htable _)

theorem eq_integer_iff
    {n : Int}
    (h : Reordered v w) :
    w = .integer n ↔ v = .integer n := by
  constructor
  · rintro rfl
    exact h.symm.eq_of_plain (by simp) (by simp)
  · rintro rfl
    exact h.eq_of_plain (by simp) (by simp)

/-- A list of strings has no other order. -/
theorem eq_of_strings
    {names : List String}
    (h : Reordered v w)
    (hv : v = .list (names.map .string)) :
    w = v := by
  induction h with
  | refl v =>
      rfl
  | trans _ _ ih ih' =>
      obtain rfl := ih hv
      exact ih' hv
  | permute =>
      cases hv
  | inTable =>
      cases hv
  | @inList v w before after h _ =>
      have hmem : v ∈ names.map Value.string := by
        rw [← list.inj hv]
        simp
      obtain ⟨s, _, rfl⟩ := List.mem_map.mp hmem
      rw [h.eq_of_plain (by simp) (by simp)]

theorem keyed
    (h : Reordered v w)
    (hv : v.Keyed) :
    w.Keyed := by
  induction h with
  | refl v =>
      exact hv
  | trans _ _ ih ih' =>
      exact ih' (ih hv)
  | permute h =>
      rw [keyed_table_iff] at hv ⊢
      exact ⟨(h.map Prod.fst).nodup hv.1, fun e he => hv.2 e (h.mem_iff.mpr he)⟩
  | inList before after _ ih =>
      rw [keyed_list_iff, List.forall_mem_append, List.forall_mem_cons] at hv ⊢
      exact ⟨hv.1, ih hv.2.1, hv.2.2⟩
  | inTable before key after _ ih =>
      rw [keyed_table_iff, List.forall_mem_append, List.forall_mem_cons, List.map_append,
        List.map_cons] at hv ⊢
      exact ⟨hv.1, hv.2.1, ih hv.2.2.1, hv.2.2.2⟩

theorem rel_refl (found : Option Value) :
    Option.Rel Reordered found found := by
  cases found with
  | none =>
      exact .none
  | some v =>
      exact .some (.refl v)

theorem rel_trans
    {a b c : Option Value}
    (h : Option.Rel Reordered a b)
    (h' : Option.Rel Reordered b c) :
    Option.Rel Reordered a c := by
  cases h with
  | none =>
      exact h'
  | some h =>
      cases h' with
      | some h' =>
          exact .some (h.trans h')

/-- Look-ups in tables find the same, up to order. -/
theorem exists_table
    (h : Reordered v w)
    (hkeyed : v.Keyed)
    (hv : v = .table xs) :
    ∃ ys, w = .table ys ∧ ∀ key, Option.Rel Reordered (xs.lookup key) (ys.lookup key) := by
  induction h generalizing xs with
  | refl v =>
      exact ⟨xs, hv, fun key => rel_refl _⟩
  | trans h _ ih ih' =>
      obtain ⟨ys, hys, hrel⟩ := ih hkeyed hv
      obtain ⟨zs, hzs, hrel'⟩ := ih' (h.keyed hkeyed) hys
      exact ⟨zs, hzs, fun key => rel_trans (hrel key) (hrel' key)⟩
  | @permute xs' ys h =>
      obtain rfl := table.inj hv
      refine ⟨ys, rfl, ?_⟩
      intro key
      rw [lookup_of_perm (keyed_table_iff.mp hkeyed).1 h]
      exact rel_refl _
  | inList =>
      cases hv
  | @inTable v w before name after h _ =>
      obtain rfl := table.inj hv
      refine ⟨_, rfl, ?_⟩
      intro key
      rw [List.lookup_append, List.lookup_append]
      cases before.lookup key with
      | some found =>
          exact rel_refl _
      | none =>
          rw [Option.none_or, Option.none_or, List.lookup_cons, List.lookup_cons]
          cases key == name with
          | true =>
              exact .some h
          | false =>
              exact rel_refl _

theorem lookup
    (h : Reordered (.table xs) (.table ys))
    (hkeyed : (table xs).Keyed)
    (key : String) :
    Option.Rel Reordered (xs.lookup key) (ys.lookup key) := by
  obtain ⟨zs, hzs, hrel⟩ := h.exists_table hkeyed rfl
  rw [table.inj hzs]
  exact hrel key

theorem exists_lookup
    {key : String}
    (h : Reordered (.table xs) (.table ys))
    (hkeyed : (table xs).Keyed)
    (hv : xs.lookup key = some v) :
    ∃ w, ys.lookup key = some w ∧ Reordered v w := by
  have hrel := h.lookup hkeyed key
  rw [hv] at hrel
  generalize ys.lookup key = found at hrel ⊢
  cases hrel with
  | some hvw =>
      exact ⟨_, rfl, hvw⟩

theorem lookup_eq_none
    {key : String}
    (h : Reordered (.table xs) (.table ys))
    (hkeyed : (table xs).Keyed)
    (hnone : xs.lookup key = none) :
    ys.lookup key = none := by
  have hrel := h.lookup hkeyed key
  rw [hnone] at hrel
  generalize ys.lookup key = found at hrel ⊢
  cases hrel with
  | none =>
      rfl

theorem getD_lookup
    (h : Reordered (.table xs) (.table ys))
    (hkeyed : (table xs).Keyed)
    (key : String)
    (default : Value) :
    Reordered ((xs.lookup key).getD default) ((ys.lookup key).getD default) := by
  cases hlookup : xs.lookup key with
  | none =>
      rw [h.lookup_eq_none hkeyed hlookup]
      exact .refl _
  | some v =>
      obtain ⟨w, hw, hvw⟩ := h.exists_lookup hkeyed hlookup
      rw [hw]
      exact hvw

/-- The entries of a table are found again in every order of it. -/
theorem exists_mem
    {key : String}
    (h : Reordered (.table xs) (.table ys))
    (hkeyed : (table xs).Keyed)
    (hmem : (key, v) ∈ xs) :
    ∃ w, (key, w) ∈ ys ∧ Reordered v w := by
  have hfound := (lookup_eq_some_iff_mem (keyed_table_iff.mp hkeyed).1).mpr hmem
  obtain ⟨w, hw, hvw⟩ := h.exists_lookup hkeyed hfound
  exact ⟨w, mem_of_lookup hw, hvw⟩

/-- An empty table has no other order. -/
theorem eq_nil
    (h : Reordered (.table []) (.table ys)) :
    ys = [] := by
  have hkeyed : (table []).Keyed := .table (by simp) (by simp)
  rw [List.eq_nil_iff_forall_not_mem]
  rintro ⟨key, w⟩ hw
  obtain ⟨v, hv, _⟩ := h.symm.exists_mem (h.keyed hkeyed) hw
  cases hv

end Reordered

section Showing

variable {n : Nat}

/-- The value can be shown within an allowance for nesting. -/
def Showable (n : Nat) (v : Value) : Prop :=
  ∃ shown, v.text n = .ok shown

theorem exists_itemTexts_iff :
    (∃ shown, itemTexts n items = .ok shown) ↔ ∀ v ∈ items, n ≠ 0 ∧ v.Showable (n - 1) := by
  induction items with
  | nil =>
      simp [itemTexts]
  | cons v rest ih =>
      rw [itemTexts, List.forall_mem_cons, ← ih, Showable]
      by_cases hn : n = 0
      · simp [hn]
      · rw [if_neg hn]
        cases text (n - 1) v with
        | error f =>
            simp
        | ok shown =>
            cases itemTexts n rest <;> simp [hn, Except.map]

theorem exists_entryTexts_iff :
    (∃ shown, entryTexts n entries = .ok shown) ↔
      ∀ e ∈ entries, n ≠ 0 ∧ e.2.Showable (n - 1) := by
  induction entries with
  | nil =>
      simp [entryTexts]
  | cons e rest ih =>
      rw [entryTexts, List.forall_mem_cons, ← ih, Showable]
      by_cases hn : n = 0
      · simp [hn]
      · rw [if_neg hn]
        cases text (n - 1) e.2 with
        | error f =>
            simp
        | ok shown =>
            cases entryTexts n rest <;> simp [hn, Except.map]

theorem showable_list_iff :
    (list items).Showable n ↔ ∀ v ∈ items, n ≠ 0 ∧ v.Showable (n - 1) := by
  rw [← exists_itemTexts_iff, Showable, text]
  cases itemTexts n items <;> simp [Except.map]

theorem showable_table_iff :
    (table entries).Showable n ↔ ∀ e ∈ entries, n ≠ 0 ∧ e.2.Showable (n - 1) := by
  rw [← exists_entryTexts_iff, Showable, text]
  cases entryTexts n entries <;> simp [Except.map]

/-- What can be shown can be shown in every order. -/
theorem Reordered.showable
    (h : Reordered v w)
    (hv : v.Showable n) :
    w.Showable n := by
  induction h generalizing n with
  | refl v =>
      exact hv
  | trans _ _ ih ih' =>
      exact ih' (ih hv)
  | permute h =>
      rw [showable_table_iff] at hv ⊢
      exact fun e he => hv e (h.mem_iff.mpr he)
  | inList before after _ ih =>
      rw [showable_list_iff, List.forall_mem_append, List.forall_mem_cons] at hv ⊢
      obtain ⟨hbefore, ⟨hn, hv⟩, hafter⟩ := hv
      exact ⟨hbefore, ⟨hn, ih hv⟩, hafter⟩
  | inTable before key after _ ih =>
      rw [showable_table_iff, List.forall_mem_append, List.forall_mem_cons] at hv ⊢
      obtain ⟨hbefore, ⟨hn, hv⟩, hafter⟩ := hv
      exact ⟨hbefore, ⟨hn, ih hv⟩, hafter⟩

/-- In no order of its entries is the value nested too deeply to be shown. -/
def Shallow (n : Nat) (v : Value) : Prop :=
  ∀ w, Reordered v w → w.isTooDeep n = false

theorem shallow_of_text
    {shown : String}
    (h : v.text n = .ok shown) :
    v.Shallow n := by
  intro w hw
  obtain ⟨shown', htext⟩ : w.Showable n := hw.showable ⟨shown, h⟩
  rw [isTooDeep, htext]

end Showing

end Value

end NuspecLint

import Mathlib.Data.List.Nodup

/-!
# Looking up entries

What is found in a list of entries under a key.

**Results.**
* `lookup_eq_some_iff_mem`: where no key is repeated, each entry is found under its key.
* `lookup_of_perm`: and the order of the entries does not matter.
-/

namespace NuspecLint

variable {α β : Type} [BEq α] [LawfulBEq α] {xs ys : List (α × β)} {a : α} {b : β}

theorem mem_of_lookup
    (h : xs.lookup a = some b) :
    (a, b) ∈ xs := by
  obtain ⟨before, after, rfl, _⟩ := List.lookup_eq_some_iff.mp h
  exact List.mem_append_right _ List.mem_cons_self

/-- Where no key is repeated, each entry is found under its key. -/
theorem lookup_eq_some_iff_mem
    (hkeys : (xs.map Prod.fst).Nodup) :
    xs.lookup a = some b ↔ (a, b) ∈ xs := by
  refine ⟨mem_of_lookup, ?_⟩
  intro h
  obtain ⟨before, after, rfl⟩ := List.append_of_mem h
  rw [List.lookup_eq_some_iff]
  refine ⟨before, after, rfl, ?_⟩
  intro x hx
  rw [List.map_append, List.map_cons, List.nodup_append] at hkeys
  have hne := hkeys.2.2 x.1 (List.mem_map_of_mem hx) a List.mem_cons_self
  exact bne_iff_ne.mpr hne.symm

theorem lookup_of_perm
    (hkeys : (xs.map Prod.fst).Nodup)
    (h : xs.Perm ys)
    (a : α) :
    ys.lookup a = xs.lookup a := by
  have hkeys' : (ys.map Prod.fst).Nodup := (h.map Prod.fst).nodup hkeys
  ext b
  rw [lookup_eq_some_iff_mem hkeys, lookup_eq_some_iff_mem hkeys', h.mem_iff]

end NuspecLint

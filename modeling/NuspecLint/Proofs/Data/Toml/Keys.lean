import NuspecLint.Data.Toml.Reader
import NuspecLint.Proofs.Data.Reordering
import Mathlib.Data.List.Nodup

/-!
# TOML: every key once

The tables that are read from a file have no key twice, at any depth.

**View.**  An entry is added only under a name that is not in use, and changed only in its place.
This is kept by each change to a table, so by each line of a file and by the readers of values.

**Results.**
* `Toml.Entries.keyed_update`: changing a table that a key leads to.
* `Toml.keyed_of_readValue`: what is read as a value.
* `Toml.keyed_of_read`: what is read as a file.
-/

namespace NuspecLint

theorem Value.keyed_of_isScalar
    {v : Value}
    (h : v.isScalar = true) :
    v.Keyed := by
  refine .plain ?_ ?_
  · rintro items rfl
    cases h
  · rintro entries rfl
    cases h

namespace Toml

namespace Entries

variable {entries entries' : Entries} {name : String} {v : Value} {key : Key}
  {throughLists : Bool} {change : Entries → Option Entries}

theorem keys_replace (name : String) (v : Value) (entries : Entries) :
    (replace name v entries).map Prod.fst = entries.map Prod.fst := by
  induction entries with
  | nil =>
      rfl
  | cons e rest ih =>
      rw [replace]
      split
      · rfl
      · rw [List.map_cons, List.map_cons, ih]

theorem mem_replace
    {e : String × Value}
    (h : e ∈ replace name v entries) :
    e ∈ entries ∨ e.2 = v := by
  induction entries with
  | nil =>
      cases h
  | cons first rest ih =>
      rw [replace] at h
      split at h
      · rcases List.mem_cons.mp h with rfl | h
        · exact Or.inr rfl
        · exact Or.inl (List.mem_cons_of_mem _ h)
      · rcases List.mem_cons.mp h with rfl | h
        · exact Or.inl List.mem_cons_self
        · exact (ih h).imp_left (List.mem_cons_of_mem _)

theorem keyed_replace
    (h : (Value.table entries).Keyed)
    (hv : v.Keyed) :
    (Value.table (replace name v entries)).Keyed := by
  rw [Value.keyed_table_iff] at h ⊢
  rw [keys_replace]
  refine ⟨h.1, ?_⟩
  intro e he
  rcases mem_replace he with he | rfl
  · exact h.2 e he
  · exact hv

/-- An entry is added under a name that is not in use. -/
theorem keyed_concat
    (h : (Value.table entries).Keyed)
    (hfresh : entries.lookup name = none)
    (hv : v.Keyed) :
    (Value.table (entries ++ [(name, v)])).Keyed := by
  rw [Value.keyed_table_iff] at h ⊢
  have hname : name ∉ entries.map Prod.fst := by
    intro hmem
    obtain ⟨e, he, rfl⟩ := List.mem_map.mp hmem
    have hne := List.lookup_eq_none_iff.mp hfresh e he
    simp at hne
  refine ⟨?_, ?_⟩
  · rw [List.map_append, List.map_singleton, ← List.concat_eq_append]
    exact h.1.concat hname
  · intro e he
    rcases List.mem_append.mp he with he | he
    · exact h.2 e he
    · rw [List.mem_singleton.mp he]
      exact hv

theorem keyed_of_lookup
    (h : (Value.table entries).Keyed)
    (hfound : entries.lookup name = some v) :
    v.Keyed :=
  (Value.keyed_table_iff.mp h).2 (name, v) (mem_of_lookup hfound)

/-- A table that a key leads to is changed, and the tables on the way with it. -/
theorem keyed_update
    (hchange : ∀ xs ys, (Value.table xs).Keyed → change xs = some ys → (Value.table ys).Keyed)
    (hkeyed : (Value.table entries).Keyed)
    (h : update? throughLists change key entries = some entries') :
    (Value.table entries').Keyed := by
  induction key generalizing entries entries' with
  | nil =>
      exact hchange entries entries' hkeyed h
  | cons name rest ih =>
      rw [update?] at h
      split at h
      · next hfresh =>
          obtain ⟨inner, hinner, rfl⟩ := Option.map_eq_some_iff.mp h
          exact keyed_concat hkeyed hfresh (ih (.table (by simp) (by simp)) hinner)
      · next hfound =>
          obtain ⟨inner, hinner, rfl⟩ := Option.map_eq_some_iff.mp h
          exact keyed_replace hkeyed (ih (keyed_of_lookup hkeyed hfound) hinner)
      · next items hfound =>
          have hitems := Value.keyed_list_iff.mp (keyed_of_lookup hkeyed hfound)
          split at h
          · split at h
            · next hlast =>
                obtain ⟨inner, hinner, rfl⟩ := Option.map_eq_some_iff.mp h
                have hlast' := hitems _ (List.mem_of_getLast? hlast)
                refine keyed_replace hkeyed (.list ?_)
                intro v hv
                rcases List.mem_append.mp hv with hv | hv
                · exact hitems v ((List.dropLast_sublist items).mem hv)
                · rw [List.mem_singleton.mp hv]
                  exact ih hlast' hinner
            · cases h
          · cases h
      · cases h

theorem keyed_insert
    (hv : v.Keyed)
    (hkeyed : (Value.table entries).Keyed)
    (h : insert? name v entries = some entries') :
    (Value.table entries').Keyed := by
  unfold insert? at h
  split at h
  · cases h
  · next hfresh =>
      cases h
      exact keyed_concat hkeyed (Option.not_isSome_iff_eq_none.mp hfresh) hv

theorem keyed_extend
    (hkeyed : (Value.table entries).Keyed)
    (h : extend? name entries = some entries') :
    (Value.table entries').Keyed := by
  have hempty : (Value.table []).Keyed := .table (by simp) (by simp)
  unfold extend? at h
  split at h
  · next hfresh =>
      cases h
      exact keyed_concat hkeyed hfresh (.list (by simpa using hempty))
  · next items hfound =>
      cases h
      have hitems := Value.keyed_list_iff.mp (keyed_of_lookup hkeyed hfound)
      refine keyed_replace hkeyed (.list ?_)
      intro v hv
      rcases List.mem_append.mp hv with hv | hv
      · exact hitems v hv
      · rw [List.mem_singleton.mp hv]
        exact hempty
  · cases h

end Entries

section Values

variable {s rest : List Char} {v : Value}

theorem isScalar_of_readBased
    (h : readBased? s = some (v, rest)) :
    v.isScalar = true := by
  unfold readBased? at h
  split at h
  · simp only [Option.bind_eq_bind, Option.bind_eq_some_iff, Option.pure_def, Option.some.injEq,
      Prod.mk.injEq] at h
    obtain ⟨_, _, _, _, rfl, _⟩ := h
    rfl
  · cases h

theorem isScalar_of_readNamed
    (h : readNamed? s = some (v, rest)) :
    v.isScalar = true := by
  unfold readNamed? at h
  dsimp only at h
  split at h
  · cases h
    rfl
  · cases h
    rfl
  · cases h

theorem isScalar_of_integerOf
    {negative : Bool} {digits : List Char}
    (h : integerOf negative digits = .ok v) :
    v.isScalar = true := by
  unfold integerOf at h
  split at h
  · cases h
  · cases h
    rfl

theorem isScalar_of_readDecimal
    (h : readDecimal s = .ok (v, rest)) :
    v.isScalar = true := by
  unfold readDecimal at h
  simp only [bind, Except.bind, pure, Except.pure] at h
  split at h
  · cases h
  · split at h
    · split at h
      · cases h
      · next hinteger =>
          cases h
          exact isScalar_of_integerOf hinteger
    · cases h
      rfl

theorem isScalar_of_readNumber
    (h : readNumber s = .ok (v, rest)) :
    v.isScalar = true := by
  unfold readNumber at h
  split at h
  · next hbased =>
      cases h
      exact isScalar_of_readBased hbased
  · split at h
    · next hnamed =>
        cases h
        exact isScalar_of_readNamed hnamed
    · exact isScalar_of_readDecimal h

theorem isScalar_of_readBoolean
    (h : readBoolean? s = some (v, rest)) :
    v.isScalar = true := by
  unfold readBoolean? at h
  split at h
  · cases h
    rfl
  · cases h
    rfl
  · cases h

theorem isScalar_of_readText
    (h : readText s = .ok (v, rest)) :
    v.isScalar = true := by
  unfold readText at h
  cases hstring : required (readString? s) with
  | error f =>
      rw [hstring] at h
      cases h
  | ok found =>
      rw [hstring] at h
      cases h
      rfl

/-- A value that holds no others is neither a list nor a table. -/
theorem isScalar_of_readScalar
    (h : readScalar s = .ok (v, rest)) :
    v.isScalar = true := by
  unfold readScalar at h
  split at h
  · exact isScalar_of_readText h
  · exact isScalar_of_readText h
  · split at h
    · next hboolean =>
        cases h
        exact isScalar_of_readBoolean hboolean
    · split at h
      · cases h
        rfl
      · cases h
      · exact isScalar_of_readNumber h

theorem keyed_assign
    {key : Key} {t t' : InlineTable}
    (hv : v.Keyed)
    (hkeyed : (Value.table t.entries).Keyed)
    (h : t.assign? key v = some t') :
    (Value.table t'.entries).Keyed := by
  unfold InlineTable.assign? at h
  split at h
  · cases h
  · split at h
    · cases h
    · obtain ⟨entries, hentries, rfl⟩ := Option.map_eq_some_iff.mp h
      exact Entries.keyed_update (fun xs ys => Entries.keyed_insert hv) hkeyed hentries

/-- The readers of values, with a budget, give values without repeated keys. -/
structure ReadsKeyed (budget : Nat) : Prop where
  value : ∀ {allowance s v rest}, readValue budget allowance s = .ok (v, rest) → v.Keyed
  items :
    ∀ {allowance items s v rest}, (∀ u ∈ items, u.Keyed) →
      readItems budget allowance items s = .ok (v, rest) → v.Keyed
  fields :
    ∀ {allowance t s v rest}, (Value.table t.entries).Keyed →
      readFields budget allowance t s = .ok (v, rest) → v.Keyed

theorem readsKeyed_zero :
    ReadsKeyed 0 where
  value h := by cases h
  items _ h := by cases h
  fields _ h := by cases h

theorem readsKeyed_succ
    {budget : Nat}
    (ih : ReadsKeyed budget) :
    ReadsKeyed (budget + 1) where
  value := by
    intro allowance s v rest h
    unfold readValue at h
    split at h
    · split at h
      · cases h
      · split at h
        · cases h
        · cases h
          exact .list (by simp)
        · exact ih.items (by simp) h
    · split at h
      · cases h
      · split at h
        · cases h
          exact .table (by simp) (by simp)
        · exact ih.fields (.table (by simp) (by simp)) h
    · exact Value.keyed_of_isScalar (isScalar_of_readScalar h)
  items := by
    intro allowance items s v rest hitems h
    rw [readItems] at h
    split at h
    · cases h
    · next v' rest' hvalue =>
        have hall : ∀ u ∈ v' :: items, u.Keyed :=
          List.forall_mem_cons.mpr ⟨ih.value hvalue, hitems⟩
        have hlist : (Value.list (v' :: items).reverse).Keyed :=
          .list fun u hu => hall u (List.mem_reverse.mp hu)
        split at h
        · cases h
          exact hlist
        · split at h
          · cases h
          · cases h
            exact hlist
          · exact ih.items hall h
        · cases h
  fields := by
    intro allowance t s v rest ht h
    rw [readFields] at h
    split at h
    · cases h
    · split at h
      · cases h
      · next hvalue =>
          split at h
          · cases h
          · next hassign =>
              have ht' := keyed_assign (ih.value hvalue) ht hassign
              split at h
              · cases h
                exact ht'
              · exact ih.fields ht' h
              · cases h

theorem readsKeyed (budget : Nat) :
    ReadsKeyed budget := by
  induction budget with
  | zero =>
      exact readsKeyed_zero
  | succ budget ih =>
      exact readsKeyed_succ ih

end Values

section Lines

variable {allowance : Nat} {s rest : List Char} {b b' : Builder}

/-- Nothing has been built up that has a key twice. -/
def Builder.Keyed (b : Builder) : Prop :=
  (Value.table b.entries).Keyed

theorem Builder.keyed_openTable
    {key : Key}
    (hkeyed : b.Keyed)
    (h : b.openTable? key = some b') :
    b'.Keyed := by
  unfold openTable? at h
  dsimp only at h
  split at h
  · cases h
  · obtain ⟨entries, hentries, rfl⟩ := Option.map_eq_some_iff.mp h
    exact Entries.keyed_update (fun xs ys hxs hys => Option.some.inj hys ▸ hxs) hkeyed hentries

theorem Builder.keyed_openItem
    {key : Key}
    (hkeyed : b.Keyed)
    (h : b.openItem? key = some b') :
    b'.Keyed := by
  unfold openItem? at h
  dsimp only at h
  split at h
  · cases h
  · split at h
    · cases h
    · obtain ⟨entries, hentries, rfl⟩ := Option.map_eq_some_iff.mp h
      exact Entries.keyed_update (fun xs ys => Entries.keyed_extend) hkeyed hentries

theorem Builder.keyed_assign
    {key : Key} {v : Value}
    (hkeyed : b.Keyed)
    (hv : v.Keyed)
    (h : b.assign? key v = some b') :
    b'.Keyed := by
  unfold assign? at h
  dsimp only at h
  split at h
  · cases h
  · split at h
    · cases h
    · obtain ⟨entries, hentries, rfl⟩ := Option.map_eq_some_iff.mp h
      exact Entries.keyed_update (fun xs ys => Entries.keyed_insert hv) hkeyed hentries

theorem eq_some_of_required
    {α : Type} {found : Option α} {a : α}
    (h : required found = .ok a) :
    found = some a := by
  cases found with
  | none =>
      cases h
  | some b =>
      cases h
      rfl

theorem keyed_of_readHeader
    (hkeyed : b.Keyed)
    (h : readHeader? b s = some (b', rest)) :
    b'.Keyed := by
  unfold readHeader? at h
  split at h
  · split at h
    · obtain ⟨opened, hopened, heq⟩ := Option.map_eq_some_iff.mp h
      cases heq
      exact Builder.keyed_openItem hkeyed hopened
    · cases h
  · split at h
    · obtain ⟨opened, hopened, heq⟩ := Option.map_eq_some_iff.mp h
      cases heq
      exact Builder.keyed_openTable hkeyed hopened
    · cases h

theorem keyed_of_readAssignment
    (hkeyed : b.Keyed)
    (h : readAssignment allowance b s = .ok (b', rest)) :
    b'.Keyed := by
  unfold readAssignment at h
  simp only [bind, Except.bind, pure, Except.pure] at h
  split at h
  · cases h
  · split at h
    · cases h
    · next hvalue =>
        split at h
        · cases h
        · next hassigned =>
            cases h
            exact Builder.keyed_assign hkeyed ((readsKeyed _).value hvalue)
              (eq_some_of_required hassigned)

theorem keyed_of_readStatement
    (hkeyed : b.Keyed)
    (h : readStatement allowance b s = .ok (b', rest)) :
    b'.Keyed := by
  unfold readStatement at h
  split at h
  · cases h
    exact hkeyed
  · split at h
    · cases h
      exact hkeyed
    · split at h
      · exact keyed_of_readHeader hkeyed (eq_some_of_required h)
      · exact keyed_of_readAssignment hkeyed h

theorem keyed_of_readLines
    {budget : Nat} {entries : Entries}
    (hkeyed : b.Keyed)
    (h : readLines allowance budget b s = .ok entries) :
    (Value.table entries).Keyed := by
  induction budget generalizing b s with
  | zero =>
      cases h
  | succ budget ih =>
      rw [readLines] at h
      split at h
      · cases h
      · next hstatement =>
          have hkeyed' := keyed_of_readStatement hkeyed hstatement
          split at h
          · cases h
            exact hkeyed'
          · exact ih hkeyed' h
          · cases h

/-- What is read from a file has every key once, at every depth. -/
theorem keyed_of_read
    {entries : Entries}
    (h : read allowance s = .ok entries) :
    (Value.table entries).Keyed :=
  keyed_of_readLines (.table (by simp [Builder.empty]) (by simp [Builder.empty])) h

end Lines

end Toml
end NuspecLint

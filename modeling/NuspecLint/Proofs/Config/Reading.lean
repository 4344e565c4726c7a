import NuspecLint.Config.Reader
import Mathlib.Data.List.Basic

/-!
# What settings files are accepted

The reader of settings told by what it asks of a file: which entries it takes, what it makes of
them, and what it objects to first.

**Results.**
* `Config.lookup_collectOptions`: of two tables for one rule the last counts.
* `Config.ofEntries_eq_ok_iff` and `Config.ofEntries_eq_error_iff`: the settings that entries stand
  for, and the fault that is noticed first.
* `Config.exists_ofEntries_iff`: entries are accepted exactly if they are of the right kinds.
-/

namespace NuspecLint

namespace Value

variable {v : Value} {names : List String} {entries : List (String × Value)}

/-- Only a list of strings has strings. -/
theorem strings?_eq_some_iff :
    v.strings? = some names ↔ v = .list (names.map .string) := by
  cases v with
  | list items =>
      rw [list.injEq]
      induction items generalizing names with
      | nil =>
          cases names <;> simp [strings?]
      | cons item items ih =>
          cases item with
          | string s =>
              have hrest := @ih
              simp only [strings?] at hrest
              cases names with
              | nil =>
                  simp [strings?, Option.bind_eq_some_iff]
              | cons name names =>
                  simp [strings?, Option.bind_eq_some_iff, hrest, and_comm]
          | _ =>
              cases names <;> simp [strings?]
  | _ =>
      simp [strings?]

theorem strings?_eq_none_iff :
    v.strings? = none ↔ ∀ names : List String, v ≠ .list (names.map .string) := by
  simp only [Option.eq_none_iff_forall_ne_some, ne_eq, strings?_eq_some_iff]

theorem entries?_eq_some_iff :
    v.entries? = some entries ↔ v = .table entries := by
  cases v <;> simp [entries?]

theorem entries?_eq_none_iff :
    v.entries? = none ↔ ∀ entries, v ≠ .table entries := by
  simp only [Option.eq_none_iff_forall_ne_some, ne_eq, entries?_eq_some_iff]

end Value

namespace Config

variable {path : Path} {entries table : Toml.Entries} {key id : String} {v : Value}
  {f : ConfigFault} {c : Config}

section Ids

/-- A setting that is there and is no list of strings. -/
def Misfit (entries : Toml.Entries) (key : String) (v : Value) : Prop :=
  entries.lookup key = some v ∧ ∀ names : List String, v ≠ .list (names.map .string)

/-- The identifiers that a setting lists, if it is there. -/
def Lists (entries : Toml.Entries) (key : String) : Option (List String) → Prop
  | none => entries.lookup key = none
  | some ids =>
      ∃ names : List String, entries.lookup key = some (.list (names.map .string)) ∧
        ids = sortedSet (names.map upperId)

theorem readIds_value (path : Path) (entries : Toml.Entries) (key : String) :
    (readIds path entries key).value =
      match entries.lookup key with
      | none => .ok none
      | some v =>
          match v.strings? with
          | none => .error (.notRuleList path key v)
          | some names => .ok (some (sortedSet (names.map upperId))) := by
  unfold readIds
  cases entries.lookup key with
  | none =>
      rfl
  | some v =>
      dsimp only
      cases v.strings? <;> rfl

theorem readIds_eq_ok_iff
    (path : Path) {ids : Option (List String)} :
    (readIds path entries key).value = .ok ids ↔ Lists entries key ids := by
  rw [readIds_value]
  cases hlookup : entries.lookup key with
  | none =>
      cases ids <;> simp [Lists, hlookup]
  | some v =>
      cases hstrings : v.strings? with
      | none =>
          have hkind := Value.strings?_eq_none_iff.mp hstrings
          cases ids <;> simp [Lists, hlookup, hstrings, hkind]
      | some names =>
          cases ids with
          | none =>
              simp [Lists, hlookup, hstrings]
          | some ids =>
              simp [Lists, hlookup, hstrings, ← Value.strings?_eq_some_iff, eq_comm]

/-- A setting stands for one set of identifiers. -/
theorem Lists.unique
    {ids ids' : Option (List String)}
    (h : Lists entries key ids)
    (h' : Lists entries key ids') :
    ids = ids' := by
  rw [← readIds_eq_ok_iff ⟨.root, []⟩] at h h'
  exact Except.ok.inj (h.symm.trans h')

theorem readIds_eq_error_iff :
    (readIds path entries key).value = .error f ↔
      ∃ v, Misfit entries key v ∧ f = .notRuleList path key v := by
  rw [readIds_value]
  cases hlookup : entries.lookup key with
  | none =>
      simp [Misfit, hlookup]
  | some v =>
      cases hstrings : v.strings? with
      | none =>
          have hkind := Value.strings?_eq_none_iff.mp hstrings
          simp [Misfit, hlookup, hstrings, hkind, eq_comm]
      | some names =>
          have hkind := Value.strings?_eq_some_iff.mp hstrings
          have hfits : ¬ ∀ names : List String, v ≠ .list (names.map .string) :=
            fun hnone => hnone names hkind
          simp [Misfit, hlookup, hstrings, hfits]

theorem exists_readIds_iff (path : Path) :
    (∃ ids, (readIds path entries key).value = .ok ids) ↔ ∀ v, ¬ Misfit entries key v := by
  constructor
  · rintro ⟨ids, hids⟩ v hv
    rw [readIds_eq_error_iff.mpr ⟨v, hv, rfl⟩] at hids
    cases hids
  · intro h
    cases hread : (readIds path entries key).value with
    | ok ids =>
        exact ⟨ids, rfl⟩
    | error f =>
        obtain ⟨v, hv, _⟩ := readIds_eq_error_iff.mp hread
        exact absurd hv (h v)

end Ids

section Options

variable {found options : List (String × Options)} {t : Options}

theorem lookup_put
    {α : Type} {a : α} {xs : List (String × α)} :
    (put key a xs).lookup id = if id = key then some a else xs.lookup id := by
  induction xs with
  | nil =>
      by_cases h : id = key
      · simp [put, h]
      · simp [put, List.lookup_cons, beq_false_of_ne h, h]
  | cons x xs ih =>
      rw [put]
      split
      · next hx =>
          rw [List.lookup_cons, List.lookup_cons, hx]
          by_cases h : id = key
          · simp [h]
          · simp [beq_false_of_ne h, h]
      · next hx =>
          rw [List.lookup_cons, List.lookup_cons, ih]
          by_cases h : id = x.1
          · simp [h, hx]
          · simp [beq_false_of_ne h]

/-- The last table for a rule. -/
def lastFor (table : Toml.Entries) (id : String) : Option Options :=
  table.reverse.findSome? fun e => if upperId e.1 = id then e.2.entries? else none

theorem lastFor_cons (e : String × Value) (table : Toml.Entries) (id : String) :
    lastFor (e :: table) id =
      (lastFor table id).or (if upperId e.1 = id then e.2.entries? else none) := by
  rw [lastFor, List.reverse_cons, List.findSome?_append, ← lastFor]
  simp

theorem lastFor_concat (table : Toml.Entries) (key : String) (t : Options) :
    lastFor (table ++ [(key, .table t)]) (upperId key) = some t := by
  simp [lastFor, Value.entries?]

theorem exists_mem_of_lastFor
    (h : lastFor table id = some t) :
    ∃ e ∈ table, upperId e.1 = id ∧ e.2 = .table t := by
  obtain ⟨e, he, hfound⟩ := List.exists_of_findSome?_eq_some h
  split at hfound
  · next hid =>
      exact ⟨e, List.mem_reverse.mp he, hid, Value.entries?_eq_some_iff.mp hfound⟩
  · cases hfound

theorem exists_lastFor_of_mem
    (h : (key, .table t) ∈ table) :
    ∃ t', lastFor table (upperId key) = some t' := by
  rw [← Option.isSome_iff_exists, lastFor, List.findSome?_isSome_iff]
  exact ⟨(key, .table t), List.mem_reverse.mpr h, by simp [Value.entries?]⟩

/-- Of two tables for one rule the last counts. -/
theorem lookup_collectOptions
    (h : collectOptions path found table = .ok options) :
    options.lookup id = (lastFor table id).or (found.lookup id) := by
  induction table generalizing found with
  | nil =>
      cases h
      rfl
  | cons e table ih =>
      rw [collectOptions] at h
      split at h
      · cases h
      · next t ht =>
          rw [ih h, lookup_put, lastFor_cons, Option.or_assoc, ht]
          simp only [eq_comm (a := id)]
          split <;> rfl

/-- Options are collected exactly from entries that are all tables. -/
theorem exists_collectOptions_iff (path : Path) :
    (∃ options, collectOptions path found table = .ok options) ↔
      ∀ e ∈ table, ∃ t, e.2 = .table t := by
  induction table generalizing found with
  | nil =>
      simp [collectOptions]
  | cons e table ih =>
      rw [collectOptions, List.forall_mem_cons]
      cases hentries : e.2.entries? with
      | none =>
          have hkind := Value.entries?_eq_none_iff.mp hentries
          simp [hkind]
      | some t =>
          have hkind := Value.entries?_eq_some_iff.mp hentries
          simpa [hkind] using ih

/-- The key of the first entry that is no table. -/
def FirstUnfit (table : Toml.Entries) (id : String) : Prop :=
  ∃ v, table.find? (fun e => e.2.entries?.isNone) = some (id, v)

theorem collectOptions_eq_error_iff :
    collectOptions path found table = .error f ↔
      ∃ id, FirstUnfit table id ∧ f = .ruleNotTable path id := by
  induction table generalizing found with
  | nil =>
      simp [collectOptions, FirstUnfit]
  | cons e table ih =>
      rw [collectOptions]
      cases hentries : e.2.entries? with
      | none =>
          simp [FirstUnfit, hentries, Prod.ext_iff, eq_comm]
      | some t =>
          simpa [FirstUnfit, hentries] using ih

/-- The setting that holds the options of rules; without it there are none. -/
def rulesOf (entries : Toml.Entries) : Value :=
  (entries.lookup "rules").getD (.table [])

theorem readOptions_value (path : Path) (entries : Toml.Entries) :
    (readOptions path entries).value =
      match (rulesOf entries).entries? with
      | none => .error (.rulesNotTable path)
      | some table => collectOptions path [] table := by
  unfold readOptions
  rw [← rulesOf]
  cases (rulesOf entries).entries? with
  | none =>
      rfl
  | some table =>
      dsimp only
      cases collectOptions path [] table <;> rfl

theorem readOptions_eq_ok_iff :
    (readOptions path entries).value = .ok options ↔
      ∃ table, rulesOf entries = .table table ∧ collectOptions path [] table = .ok options := by
  rw [readOptions_value]
  cases hentries : (rulesOf entries).entries? with
  | none =>
      have hkind := Value.entries?_eq_none_iff.mp hentries
      simp [hkind]
  | some table =>
      have hkind := Value.entries?_eq_some_iff.mp hentries
      simp [hkind]

theorem readOptions_eq_error_iff :
    (readOptions path entries).value = .error f ↔
      ((∀ table, rulesOf entries ≠ .table table) ∧ f = .rulesNotTable path) ∨
      ∃ table id, rulesOf entries = .table table ∧ FirstUnfit table id ∧
        f = .ruleNotTable path id := by
  rw [readOptions_value]
  cases hentries : (rulesOf entries).entries? with
  | none =>
      have hkind := Value.entries?_eq_none_iff.mp hentries
      simp [hkind, eq_comm]
  | some table =>
      have hkind := Value.entries?_eq_some_iff.mp hentries
      simp [hkind, collectOptions_eq_error_iff]

end Options

section Settings

/-- The setting that is complained about for its kind: `select` before `ignore`. -/
inductive Complaint (entries : Toml.Entries) : String → Value → Prop
  | select
      {v : Value}
      (h : Misfit entries "select" v) :
      Complaint entries "select" v
  | ignore
      {v : Value}
      (hselect : ∀ u, ¬ Misfit entries "select" u)
      (h : Misfit entries "ignore" v) :
      Complaint entries "ignore" v

/-- What is wrong with the entries of a settings file; what is noticed first counts. -/
inductive Objection (path : Path) (entries : Toml.Entries) : ConfigFault → Prop
  | ids
      {key : String} {v : Value}
      (h : Complaint entries key v) :
      Objection path entries (.notRuleList path key v)
  | rules
      (hids : ∀ key v, ¬ Complaint entries key v)
      (h : ∀ table, rulesOf entries ≠ .table table) :
      Objection path entries (.rulesNotTable path)
  | rule
      {table : Toml.Entries} {id : String}
      (hids : ∀ key v, ¬ Complaint entries key v)
      (hrules : rulesOf entries = .table table)
      (h : FirstUnfit table id) :
      Objection path entries (.ruleNotTable path id)

theorem Complaint.lookup
    (h : Complaint entries key v) :
    entries.lookup key = some v := by
  cases h with
  | select h =>
      exact h.1
  | ignore _ h =>
      exact h.1

/-- There is at most one setting to complain about. -/
theorem Complaint.unique
    {key' : String} {v' : Value}
    (h : Complaint entries key v)
    (h' : Complaint entries key' v') :
    v = v' := by
  cases h with
  | select h =>
      cases h' with
      | select h' =>
          exact Option.some.inj (h.1.symm.trans h'.1)
      | ignore hselect =>
          exact absurd h (hselect v)
  | ignore hselect h =>
      cases h' with
      | select h' =>
          exact absurd h' (hselect v')
      | ignore _ h' =>
          exact Option.some.inj (h.1.symm.trans h'.1)

theorem ofEntries_value (path : Path) (entries : Toml.Entries) :
    (ofEntries path entries).value =
      ((readIds path entries "select").value.bind fun select =>
        (readIds path entries "ignore").value.bind fun ignore =>
          (readOptions path entries).value.map fun options =>
            ⟨select, ignore.getD [], options, some path⟩) := by
  unfold ofEntries
  simp only [Logged.bind]
  cases (readIds path entries "select").value with
  | error f =>
      rfl
  | ok select =>
      simp only [Except.bind]
      cases (readIds path entries "ignore").value with
      | error f =>
          rfl
      | ok ignore =>
          dsimp only
          cases (readOptions path entries).value <;> rfl

theorem forall_not_complaint_iff :
    (∀ key v, ¬ Complaint entries key v) ↔
      (∀ v, ¬ Misfit entries "select" v) ∧ ∀ v, ¬ Misfit entries "ignore" v := by
  constructor
  · intro h
    have hselect : ∀ v, ¬ Misfit entries "select" v :=
      fun v hv => h _ v (.select hv)
    exact ⟨hselect, fun v hv => h _ v (.ignore hselect hv)⟩
  · rintro ⟨hselect, hignore⟩ key v hv
    cases hv with
    | select h =>
        exact hselect v h
    | ignore _ h =>
        exact hignore v h

theorem ofEntries_eq_ok_iff :
    (ofEntries path entries).value = .ok c ↔
      ∃ select ignore options,
        Lists entries "select" select ∧ Lists entries "ignore" ignore ∧
        (readOptions path entries).value = .ok options ∧
        c = ⟨select, ignore.getD [], options, some path⟩ := by
  simp only [← readIds_eq_ok_iff path]
  rw [ofEntries_value]
  cases (readIds path entries "select").value with
  | error f =>
      simp [Except.bind]
  | ok select =>
      cases (readIds path entries "ignore").value with
      | error f =>
          simp [Except.bind]
      | ok ignore =>
          cases (readOptions path entries).value <;> simp [Except.bind, Except.map, eq_comm]

/-- The settings are read one after the other, and the first fault ends the reading. -/
theorem ofEntries_eq_error_stages :
    (ofEntries path entries).value = .error f ↔
      (readIds path entries "select").value = .error f ∨
      (∃ select, (readIds path entries "select").value = .ok select) ∧
        ((readIds path entries "ignore").value = .error f ∨
        (∃ ignore, (readIds path entries "ignore").value = .ok ignore) ∧
          (readOptions path entries).value = .error f) := by
  rw [ofEntries_value]
  cases (readIds path entries "select").value with
  | error g =>
      simp [Except.bind]
  | ok select =>
      cases (readIds path entries "ignore").value with
      | error g =>
          simp [Except.bind]
      | ok ignore =>
          cases (readOptions path entries).value <;> simp [Except.bind, Except.map]

/-- The fault that entries lead to is the first thing to object to. -/
theorem ofEntries_eq_error_iff :
    (ofEntries path entries).value = .error f ↔ Objection path entries f := by
  rw [ofEntries_eq_error_stages, exists_readIds_iff, exists_readIds_iff, readIds_eq_error_iff,
    readIds_eq_error_iff, readOptions_eq_error_iff]
  constructor
  · rintro (⟨v, hv, rfl⟩ | ⟨hselect, ⟨v, hv, rfl⟩ | ⟨hignore, hrules⟩⟩)
    · exact .ids (.select hv)
    · exact .ids (.ignore hselect hv)
    · have hids := forall_not_complaint_iff.mpr ⟨hselect, hignore⟩
      rcases hrules with ⟨hkind, rfl⟩ | ⟨table, id, htable, hfirst, rfl⟩
      · exact .rules hids hkind
      · exact .rule hids htable hfirst
  · rintro (hids | ⟨hids, hkind⟩ | ⟨hids, htable, hfirst⟩)
    · cases hids with
      | select hv =>
          exact Or.inl ⟨_, hv, rfl⟩
      | ignore hselect hv =>
          exact Or.inr ⟨hselect, Or.inl ⟨_, hv, rfl⟩⟩
    · obtain ⟨hselect, hignore⟩ := forall_not_complaint_iff.mp hids
      exact Or.inr ⟨hselect, Or.inr ⟨hignore, Or.inl ⟨hkind, rfl⟩⟩⟩
    · obtain ⟨hselect, hignore⟩ := forall_not_complaint_iff.mp hids
      exact Or.inr ⟨hselect, Or.inr ⟨hignore, Or.inr ⟨_, _, htable, hfirst, rfl⟩⟩⟩

/-- The settings are of the right kinds, as far as they are there. -/
structure WellTyped (entries : Toml.Entries) : Prop where
  select : ∀ v, ¬ Misfit entries "select" v
  ignore : ∀ v, ¬ Misfit entries "ignore" v
  rules : ∃ table, rulesOf entries = .table table ∧ ∀ e ∈ table, ∃ t, e.2 = .table t

/-- Entries are accepted exactly if they are of the right kinds. -/
theorem exists_ofEntries_iff (path : Path) :
    (∃ c, (ofEntries path entries).value = .ok c) ↔ WellTyped entries := by
  constructor
  · rintro ⟨c, hc⟩
    obtain ⟨select, ignore, options, hselect, hignore, hoptions, _⟩ := ofEntries_eq_ok_iff.mp hc
    obtain ⟨table, htable, hcollect⟩ := readOptions_eq_ok_iff.mp hoptions
    exact
      { select := (exists_readIds_iff path).mp ⟨select, (readIds_eq_ok_iff path).mpr hselect⟩
        ignore := (exists_readIds_iff path).mp ⟨ignore, (readIds_eq_ok_iff path).mpr hignore⟩
        rules := ⟨table, htable, (exists_collectOptions_iff path).mp ⟨options, hcollect⟩⟩ }
  · rintro ⟨hselect, hignore, table, htable, htables⟩
    obtain ⟨select, hselect⟩ := (exists_readIds_iff path).mpr hselect
    obtain ⟨ignore, hignore⟩ := (exists_readIds_iff path).mpr hignore
    obtain ⟨options, hcollect⟩ := (exists_collectOptions_iff path).mpr htables
    rw [readIds_eq_ok_iff] at hselect hignore
    have hoptions := readOptions_eq_ok_iff.mpr ⟨table, htable, hcollect⟩
    exact ⟨_, ofEntries_eq_ok_iff.mpr ⟨select, ignore, options, hselect, hignore, hoptions, rfl⟩⟩

end Settings

end Config
end NuspecLint

import NuspecLint.Proofs.Config.Reading
import NuspecLint.Proofs.Config.Selection
import NuspecLint.Proofs.Data.Toml.Keys
import NuspecLint.Proofs.Data.Value
import NuspecLint.Proofs.Rule.Bounds

/-!
# The order of settings

What settings files that list the same in another order have in common.

**Condition.**  The identifiers of rules are compared in upper case, and of two tables for one rule
the last counts.  So the order matters if two keys become the same in upper case and their tables
differ in more than order.

**Strategy.**  A reordering of a file keeps which settings it has and of which kinds they are.  The
options of a rule come from one of its tables, and all of these are alike unless the order matters.
Conversely, every table of a rule can be moved to the end, where it counts.

**Results.**
* `Config.wellTyped_of_reordered` and `Config.complaint_of_reordered`: what is accepted in one order
  is accepted in every order, and otherwise the same setting is complained about.
* `Config.alike_of_reordered`: the settings in two orders.
* `Config.buildRules_of_alike`: settings that are alike choose the same rules.
* `Config.ofEntries_order_free_iff`: when the order does not matter, for all entries of a file.
-/

namespace NuspecLint

open Value (Reordered)

theorem toOption_eq_some_iff
    {ε α : Type} {x : Except ε α} {a : α} :
    x.toOption = some a ↔ x = .ok a := by
  cases x <;> simp [Except.toOption]

theorem toOption_map
    {ε α β : Type} (f : α → β) (x : Except ε α) :
    (x.map f).toOption = x.toOption.map f := by
  cases x <;> rfl

theorem toOption_bind_congr
    {ε α β : Type} {x y : Except ε α} {f g : α → Except ε β}
    (h : x.toOption = y.toOption)
    (hfg : ∀ a, (f a).toOption = (g a).toOption) :
    (x.bind f).toOption = (y.bind g).toOption := by
  cases x with
  | error e =>
      cases y with
      | error e' =>
          rfl
      | ok b =>
          cases h
  | ok a =>
      cases y with
      | error e' =>
          cases h
      | ok b =>
          cases h
          exact hfg a

namespace LengthBounds

variable {options options' : Options}

theorem lengthOption_of_reordered
    (hkeyed : (Value.table options).Keyed)
    (h : Reordered (.table options) (.table options'))
    (key : String)
    (current : Quantity) :
    (lengthOption options' key current).toOption = (lengthOption options key current).toOption := by
  ext n
  rw [toOption_eq_some_iff, toOption_eq_some_iff, lengthOption_eq_ok_iff, lengthOption_eq_ok_iff,
    (h.getD_lookup hkeyed key current.toValue).eq_integer_iff]

theorem configure_of_reordered
    (b : LengthBounds)
    (hkeyed : (Value.table options).Keyed)
    (h : Reordered (.table options) (.table options')) :
    (b.configure options').toOption = (b.configure options).toOption := by
  refine toOption_bind_congr (lengthOption_of_reordered hkeyed h _ _) fun shortest => ?_
  refine toOption_bind_congr (lengthOption_of_reordered hkeyed h _ _) fun longest => ?_
  rfl

end LengthBounds

namespace Rule

/-- What the rule makes of options does not depend on their order. -/
def IgnoresOrder (r : Rule) : Prop :=
  ∀ options options', (Value.table options).Keyed →
    Reordered (.table options) (.table options') →
    (r.configure options').toOption = (r.configure options).toOption

/-- So it is with every rule that does not take options in its own way. -/
theorem ignoresOrder
    {r : Rule}
    (h : ∀ id run configure, r ≠ .adjustable id run configure) :
    r.IgnoresOrder := by
  intro options options' hkeyed hrel
  cases r with
  | placeholder =>
      rfl
  | description b =>
      rw [configure, configure, toOption_map, toOption_map, b.configure_of_reordered hkeyed hrel]
  | custom =>
      rfl
  | adjustable id run configure =>
      exact absurd rfl (h id run configure)

end Rule

namespace Config

variable {path : Path} {entries entries' table table' : Toml.Entries} {key id : String}
  {v w : Value} {c c' : Config}

section Kinds

/-- A setting that is no list of strings is none in any order. -/
theorem misfit_of_reordered
    (hkeyed : (Value.table entries).Keyed)
    (h : Reordered (.table entries) (.table entries'))
    (hv : Misfit entries key v) :
    ∃ w, Misfit entries' key w ∧ Reordered v w := by
  obtain ⟨w, hfound, hvw⟩ := h.exists_lookup hkeyed hv.1
  refine ⟨w, ⟨hfound, ?_⟩, hvw⟩
  intro names hw
  exact hv.2 names ((hvw.symm.eq_of_strings hw).trans hw)

theorem not_misfit_of_reordered
    (hkeyed : (Value.table entries).Keyed)
    (h : Reordered (.table entries) (.table entries'))
    (hnone : ∀ v, ¬ Misfit entries key v) :
    ∀ v, ¬ Misfit entries' key v := by
  intro w hw
  obtain ⟨v, hv, _⟩ := misfit_of_reordered (h.keyed hkeyed) h.symm hw
  exact hnone v hv

/-- The setting that is complained about is the same in every order. -/
theorem complaint_of_reordered
    (hkeyed : (Value.table entries).Keyed)
    (h : Reordered (.table entries) (.table entries'))
    (hv : Complaint entries key v) :
    ∃ w, Complaint entries' key w ∧ Reordered v w := by
  cases hv with
  | select hv =>
      obtain ⟨w, hw, hvw⟩ := misfit_of_reordered hkeyed h hv
      exact ⟨w, .select hw, hvw⟩
  | ignore hselect hv =>
      obtain ⟨w, hw, hvw⟩ := misfit_of_reordered hkeyed h hv
      exact ⟨w, .ignore (not_misfit_of_reordered hkeyed h hselect) hw, hvw⟩

theorem lists_of_reordered
    {ids : Option (List String)}
    (hkeyed : (Value.table entries).Keyed)
    (h : Reordered (.table entries) (.table entries'))
    (hids : Lists entries key ids) :
    Lists entries' key ids := by
  cases ids with
  | none =>
      exact h.lookup_eq_none hkeyed hids
  | some ids =>
      obtain ⟨names, hlookup, rfl⟩ := hids
      obtain ⟨w, hfound, hvw⟩ := h.exists_lookup hkeyed hlookup
      rw [hvw.eq_of_strings rfl] at hfound
      exact ⟨names, hfound, rfl⟩

theorem reordered_rulesOf
    (hkeyed : (Value.table entries).Keyed)
    (h : Reordered (.table entries) (.table entries')) :
    Reordered (rulesOf entries) (rulesOf entries') :=
  h.getD_lookup hkeyed "rules" _

theorem keyed_rulesOf
    (hkeyed : (Value.table entries).Keyed)
    (hrules : rulesOf entries = .table table) :
    (Value.table table).Keyed := by
  unfold rulesOf at hrules
  cases hlookup : entries.lookup "rules" with
  | none =>
      rw [hlookup] at hrules
      cases hrules
      exact .table (by simp) (by simp)
  | some v =>
      rw [hlookup] at hrules
      cases hrules
      exact Toml.Entries.keyed_of_lookup hkeyed hlookup

/-- The tables of options are there in every order. -/
theorem exists_rulesOf_of_reordered
    (hkeyed : (Value.table entries).Keyed)
    (h : Reordered (.table entries) (.table entries'))
    (hrules : rulesOf entries = .table table) :
    ∃ table', rulesOf entries' = .table table' ∧ Reordered (.table table) (.table table') := by
  have hrel := reordered_rulesOf hkeyed h
  rw [hrules] at hrel
  obtain ⟨table', htable', _⟩ := hrel.exists_table (keyed_rulesOf hkeyed hrules) rfl
  rw [htable'] at hrel
  exact ⟨table', htable', hrel⟩

theorem tables_of_reordered
    (hkeyed : (Value.table table).Keyed)
    (h : Reordered (.table table) (.table table'))
    (htables : ∀ e ∈ table, ∃ t, e.2 = .table t) :
    ∀ e ∈ table', ∃ t, e.2 = .table t := by
  rintro ⟨key, w⟩ hw
  obtain ⟨v, hv, hwv⟩ := h.symm.exists_mem (h.keyed hkeyed) hw
  obtain ⟨t, rfl⟩ := htables (key, v) hv
  have hkeyed' := (Value.keyed_table_iff.mp hkeyed).2 _ hv
  obtain ⟨t', ht', _⟩ := hwv.symm.exists_table hkeyed' rfl
  exact ⟨t', ht'⟩

/-- What is accepted in one order is accepted in every order. -/
theorem wellTyped_of_reordered
    (hkeyed : (Value.table entries).Keyed)
    (h : Reordered (.table entries) (.table entries'))
    (htyped : WellTyped entries) :
    WellTyped entries' := by
  obtain ⟨hselect, hignore, table, hrules, htables⟩ := htyped
  obtain ⟨table', hrules', hrel⟩ := exists_rulesOf_of_reordered hkeyed h hrules
  exact
    { select := not_misfit_of_reordered hkeyed h hselect
      ignore := not_misfit_of_reordered hkeyed h hignore
      rules := ⟨table', hrules',
        tables_of_reordered (keyed_rulesOf hkeyed hrules) hrel htables⟩ }

end Kinds

section Options

/-- Two tables for one rule differ at most in the order of their entries. -/
def Unambiguous (table : Toml.Entries) : Prop :=
  ∀ a ∈ table, ∀ b ∈ table, upperId a.1 = upperId b.1 → Reordered a.2 b.2

theorem exists_lastFor_of_reordered
    {t : Options}
    (hkeyed : (Value.table table).Keyed)
    (h : Reordered (.table table) (.table table'))
    (hlast : lastFor table id = some t) :
    ∃ t', lastFor table' id = some t' := by
  obtain ⟨⟨key, v⟩, hmem, rfl, rfl⟩ := exists_mem_of_lastFor hlast
  obtain ⟨w, hw, hvw⟩ := h.exists_mem hkeyed hmem
  have hkeyed' := (Value.keyed_table_iff.mp hkeyed).2 _ hmem
  obtain ⟨t', rfl, _⟩ := hvw.exists_table hkeyed' rfl
  exact exists_lastFor_of_mem hw

/-- If there is no ambiguity, the options of a rule are the same in every order. -/
theorem lastFor_of_reordered
    (hkeyed : (Value.table table).Keyed)
    (h : Reordered (.table table) (.table table'))
    (hclear : Unambiguous table)
    (id : String) :
    Option.Rel (fun t t' => Reordered (.table t) (.table t'))
      (lastFor table id) (lastFor table' id) := by
  cases hlast : lastFor table id with
  | none =>
      cases hlast' : lastFor table' id with
      | none =>
          exact .none
      | some t' =>
          obtain ⟨t, ht⟩ := exists_lastFor_of_reordered (h.keyed hkeyed) h.symm hlast'
          rw [hlast] at ht
          cases ht
  | some t =>
      obtain ⟨t', hlast'⟩ := exists_lastFor_of_reordered hkeyed h hlast
      rw [hlast']
      refine .some ?_
      obtain ⟨a, ha, rfl, hat⟩ := exists_mem_of_lastFor hlast
      obtain ⟨⟨key, w⟩, hw, hid, hwt⟩ := exists_mem_of_lastFor hlast'
      -- The table that counts in the other order is one of the same rule in this order, too.
      obtain ⟨v, hv, hwv⟩ := h.symm.exists_mem (h.keyed hkeyed) hw
      have hav := hclear a ha (key, v) hv hid.symm
      rw [← hat, ← hwt]
      exact hav.trans hwv.symm

/-- Settings that differ at most in the order of the options of a rule. -/
structure Alike (c c' : Config) : Prop where
  select : c'.select = c.select
  ignore : c'.ignore = c.ignore
  ruleOptions :
    ∀ id, Option.Rel (fun t t' => Reordered (.table t) (.table t'))
      (c.ruleOptions.lookup id) (c'.ruleOptions.lookup id)

theorem lookup_ruleOptions
    (hc : (ofEntries path entries).value = .ok c)
    (hrules : rulesOf entries = .table table)
    (id : String) :
    c.ruleOptions.lookup id = lastFor table id := by
  obtain ⟨_, _, options, _, _, hoptions, rfl⟩ := ofEntries_eq_ok_iff.mp hc
  obtain ⟨table', hrules', hcollect⟩ := readOptions_eq_ok_iff.mp hoptions
  obtain rfl := Value.table.inj (hrules.symm.trans hrules')
  rw [lookup_collectOptions hcollect]
  simp

/-- The settings in two orders, if there is no ambiguity. -/
theorem alike_of_reordered
    (hkeyed : (Value.table entries).Keyed)
    (h : Reordered (.table entries) (.table entries'))
    (hclear : ∀ table, rulesOf entries = .table table → Unambiguous table)
    (hc : (ofEntries path entries).value = .ok c)
    (hc' : (ofEntries path entries').value = .ok c') :
    Alike c c' := by
  obtain ⟨select, ignore, _, hselect, hignore, hoptions, hcfields⟩ := ofEntries_eq_ok_iff.mp hc
  obtain ⟨select', ignore', _, hselect', hignore', _, hcfields'⟩ := ofEntries_eq_ok_iff.mp hc'
  obtain ⟨table, hrules, _⟩ := readOptions_eq_ok_iff.mp hoptions
  obtain ⟨table', hrules', hrel⟩ := exists_rulesOf_of_reordered hkeyed h hrules
  have hsame : select' = select := hselect'.unique (lists_of_reordered hkeyed h hselect)
  have hsame' : ignore' = ignore := hignore'.unique (lists_of_reordered hkeyed h hignore)
  refine ⟨by rw [hcfields, hcfields', hsame], by rw [hcfields, hcfields', hsame'], ?_⟩
  intro id
  rw [lookup_ruleOptions hc hrules, lookup_ruleOptions hc' hrules']
  exact lastFor_of_reordered (keyed_rulesOf hkeyed hrules) hrel (hclear table hrules) id

theorem keyed_ruleOptions
    {t : Options}
    (hkeyed : (Value.table entries).Keyed)
    (hc : (ofEntries path entries).value = .ok c)
    (ht : c.ruleOptions.lookup id = some t) :
    (Value.table t).Keyed := by
  obtain ⟨_, _, _, _, _, hoptions, _⟩ := ofEntries_eq_ok_iff.mp hc
  obtain ⟨table, hrules, _⟩ := readOptions_eq_ok_iff.mp hoptions
  rw [lookup_ruleOptions hc hrules] at ht
  obtain ⟨e, he, _, heq⟩ := exists_mem_of_lastFor ht
  rw [← heq]
  exact (Value.keyed_table_iff.mp (keyed_rulesOf hkeyed hrules)).2 e he

end Options

section Moves

/-- One setting can be reordered alone. -/
theorem exists_reordered_lookup
    (hv : entries.lookup key = some v)
    (h : Reordered v w) :
    ∃ entries', Reordered (.table entries) (.table entries') ∧ entries'.lookup key = some w := by
  obtain ⟨before, after, rfl, hbefore⟩ := List.lookup_eq_some_iff.mp hv
  refine ⟨before ++ (key, w) :: after, .inTable before key after h, ?_⟩
  exact List.lookup_eq_some_iff.mpr ⟨before, after, rfl, hbefore⟩

/-- Each table of options can be moved to the end, where it counts. -/
theorem exists_reordered_last
    {a : String × Value}
    (hrules : rulesOf entries = .table table)
    (ha : a ∈ table) :
    ∃ entries' others, Reordered (.table entries) (.table entries') ∧
      rulesOf entries' = .table (others ++ [a]) := by
  obtain ⟨before, after, rfl⟩ := List.append_of_mem ha
  have hperm : (before ++ a :: after).Perm (before ++ after ++ [a]) :=
    List.perm_middle.trans (List.perm_append_singleton a _).symm
  cases hlookup : entries.lookup "rules" with
  | none =>
      rw [rulesOf, hlookup] at hrules
      simp at hrules
  | some v =>
      rw [rulesOf, hlookup, Option.getD_some] at hrules
      subst hrules
      obtain ⟨entries', hrel, hlookup'⟩ := exists_reordered_lookup hlookup (.permute hperm)
      exact ⟨entries', before ++ after, hrel, by rw [rulesOf, hlookup', Option.getD_some]⟩

end Moves

section Rules

variable {available : List Rule} {r : Rule}

theorem applyOptions_of_alike
    (h : Alike c c')
    (hkeyed : ∀ t, c.ruleOptions.lookup r.id = some t → (Value.table t).Keyed)
    (hr : r.IgnoresOrder) :
    (c'.applyOptions r).toOption = (c.applyOptions r).toOption := by
  have hrel := h.ruleOptions r.id
  unfold applyOptions
  cases hfound : c.ruleOptions.lookup r.id with
  | none =>
      rw [hfound] at hrel
      generalize c'.ruleOptions.lookup r.id = found' at hrel
      cases hrel with
      | none =>
          rfl
  | some t =>
      have ht := hkeyed t hfound
      rw [hfound] at hrel
      generalize c'.ruleOptions.lookup r.id = found' at hrel
      cases hrel with
      | @some _ t' hrel =>
          cases t with
          | nil =>
              rw [hrel.eq_nil]
          | cons e t =>
              cases t' with
              | nil =>
                  cases hrel.symm.eq_nil
              | cons e' t' =>
                  dsimp only
                  split
                  · exact hr _ _ ht hrel
                  · rfl

theorem Alike.isEnabled
    (h : Alike c c')
    (id : String) :
    c'.isEnabled id = c.isEnabled id := by
  rw [Config.isEnabled, Config.isEnabled, h.select, h.ignore]

theorem toOption_buildRules_cons (c : Config) (r : Rule) (available : List Rule) :
    (c.buildRules (r :: available)).toOption =
      if c.isEnabled r.id then
        (c.applyOptions r).toOption.bind fun r' =>
          (c.buildRules available).toOption.map (r' :: ·)
      else (c.buildRules available).toOption := by
  rw [buildRules_cons]
  split
  · cases c.applyOptions r with
    | error f =>
        rfl
    | ok r' =>
        exact toOption_map _ _
  · rfl

/-- Settings that are alike choose the same rules. -/
theorem buildRules_of_alike
    (h : Alike c c')
    (hkeyed : ∀ id t, c.ruleOptions.lookup id = some t → (Value.table t).Keyed)
    (havailable : ∀ r ∈ available, r.IgnoresOrder) :
    (c'.buildRules available).toOption = (c.buildRules available).toOption := by
  induction available with
  | nil =>
      rfl
  | cons r available ih =>
      rw [List.forall_mem_cons] at havailable
      rw [toOption_buildRules_cons, toOption_buildRules_cons, h.isEnabled, ih havailable.2,
        applyOptions_of_alike h (hkeyed r.id) havailable.1]

end Rules

/-- Two outcomes of reading that agree: ordinary faults, or settings that are alike. -/
inductive Agree (host : Host) : Except ConfigFault Config → Except ConfigFault Config → Prop
  | faults
      {f f' : ConfigFault}
      (h : f.breakdown? host = none)
      (h' : f'.breakdown? host = none) :
      Agree host (.error f) (.error f')
  | settings
      {c c' : Config}
      (h : Alike c c') :
      Agree host (.ok c) (.ok c')

/-- Every order of the entries of a file leads to the same outcome. -/
def OrderFree (host : Host) (path : Path) (entries : Toml.Entries) : Prop :=
  ∀ entries', Reordered (.table entries) (.table entries') →
    Agree host (ofEntries path entries).value (ofEntries path entries').value

section Outcomes

variable {host : Host}

theorem breakdown_of_objection
    {f : ConfigFault}
    (hshallow : ∀ key v, Complaint entries key v → v.Shallow host.showing)
    (h : Objection path entries f) :
    f.breakdown? host = none := by
  cases h with
  | ids h =>
      have htext := hshallow _ _ h _ (.refl _)
      simp [ConfigFault.breakdown?, htext]
  | rules =>
      rfl
  | rule =>
      rfl

/-- If nothing is ambiguous and nothing nested too deeply, the order does not matter. -/
theorem agree_of_reordered
    (hkeyed : (Value.table entries).Keyed)
    (hclear : WellTyped entries → ∀ table, rulesOf entries = .table table → Unambiguous table)
    (hshallow : ∀ key v, Complaint entries key v → v.Shallow host.showing)
    (h : Reordered (.table entries) (.table entries')) :
    Agree host (ofEntries path entries).value (ofEntries path entries').value := by
  cases hread : (ofEntries path entries).value with
  | ok c =>
      have htyped := (exists_ofEntries_iff path).mp ⟨c, hread⟩
      obtain ⟨c', hread'⟩ :=
        (exists_ofEntries_iff path).mpr (wellTyped_of_reordered hkeyed h htyped)
      rw [hread']
      exact .settings (alike_of_reordered hkeyed h (hclear htyped) hread hread')
  | error f =>
      have hshallow' : ∀ key w, Complaint entries' key w → w.Shallow host.showing := by
        intro key w hw
        obtain ⟨v, hv, hwv⟩ := complaint_of_reordered (h.keyed hkeyed) h.symm hw
        exact fun u hu => hshallow key v hv u (hwv.symm.trans hu)
      cases hread' : (ofEntries path entries').value with
      | ok c' =>
          have htyped' := (exists_ofEntries_iff path).mp ⟨c', hread'⟩
          obtain ⟨c, hread''⟩ := (exists_ofEntries_iff path).mpr
            (wellTyped_of_reordered (h.keyed hkeyed) h.symm htyped')
          rw [hread] at hread''
          cases hread''
      | error f' =>
          exact .faults (breakdown_of_objection hshallow (ofEntries_eq_error_iff.mp hread))
            (breakdown_of_objection hshallow' (ofEntries_eq_error_iff.mp hread'))

/-- If the order does not matter, each table for a rule is the one that counts, up to order. -/
theorem OrderFree.exists_lookup
    {t : Options}
    (hfree : OrderFree host path entries)
    (hc : (ofEntries path entries).value = .ok c)
    (hrules : rulesOf entries = .table table)
    (hmem : (key, .table t) ∈ table) :
    ∃ t', c.ruleOptions.lookup (upperId key) = some t' ∧ Reordered (.table t) (.table t') := by
  obtain ⟨entries', others, hrel, hrules'⟩ := exists_reordered_last hrules hmem
  have hagree := hfree entries' hrel
  rw [hc] at hagree
  generalize hread : (ofEntries path entries').value = outcome at hagree
  cases hagree with
  | settings halike =>
      have hoptions := halike.ruleOptions (upperId key)
      rw [lookup_ruleOptions hread hrules', lastFor_concat] at hoptions
      generalize c.ruleOptions.lookup (upperId key) = found at hoptions ⊢
      cases hoptions with
      | some h =>
          exact ⟨_, rfl, h.symm⟩

/-- If the order does not matter, the tables for one rule are alike. -/
theorem OrderFree.unambiguous
    (hfree : OrderFree host path entries)
    (htyped : WellTyped entries)
    (hrules : rulesOf entries = .table table) :
    Unambiguous table := by
  obtain ⟨c, hc⟩ := (exists_ofEntries_iff path).mpr htyped
  obtain ⟨_, hrules', htables⟩ := htyped.rules
  obtain rfl := Value.table.inj (hrules.symm.trans hrules')
  rintro ⟨key, v⟩ hv ⟨key', v'⟩ hv' hid
  obtain ⟨t, rfl⟩ := htables _ hv
  obtain ⟨t', rfl⟩ := htables _ hv'
  obtain ⟨u, hu, htu⟩ := hfree.exists_lookup hc hrules hv
  obtain ⟨u', hu', htu'⟩ := hfree.exists_lookup hc hrules hv'
  obtain rfl : u = u' := Option.some.inj (hu.symm.trans (hid ▸ hu'))
  exact htu.trans htu'.symm

/-- If the order does not matter, nothing that is complained about is nested too deeply. -/
theorem OrderFree.shallow
    (hfree : OrderFree host path entries)
    (hkeyed : (Value.table entries).Keyed)
    (hv : Complaint entries key v) :
    v.Shallow host.showing := by
  intro w hvw
  obtain ⟨entries', hrel, hlookup⟩ := exists_reordered_lookup hv.lookup hvw
  obtain ⟨u, hu, _⟩ := complaint_of_reordered hkeyed hrel hv
  obtain rfl : u = w := Option.some.inj (hu.lookup.symm.trans hlookup)
  have hagree := hfree entries' hrel
  rw [ofEntries_eq_error_iff.mpr (.ids hu)] at hagree
  generalize (ofEntries path entries).value = outcome at hagree
  cases hagree with
  | faults _ h =>
      simpa [ConfigFault.breakdown?] using h

end Outcomes

/--
**When the order of settings does not matter.**  For all entries without repeated keys, every order
of them leads to the same outcome, that is to ordinary faults or to settings that are alike, exactly
if the settings, when they are accepted, have no two tables for one rule that differ in more than
order, and the setting that is complained about, if there is one, is in no order nested too deeply.
It is not if it can be shown in one order.  Settings that are alike choose the same rules.
-/
theorem ofEntries_order_free_iff
    {entries : Toml.Entries}
    (hkeyed : (Value.table entries).Keyed)
    (host : Host)
    (path : Path) :
    (OrderFree host path entries ↔
      (WellTyped entries → ∀ table, rulesOf entries = .table table → Unambiguous table) ∧
      ∀ key v, Complaint entries key v → v.Shallow host.showing) ∧
    (∀ key v shown, Complaint entries key v → v.text host.showing = .ok shown →
      v.Shallow host.showing) ∧
    ∀ c c', (ofEntries path entries).value = .ok c → Alike c c' →
      ∀ available, (∀ r ∈ available, r.IgnoresOrder) →
        (c'.buildRules available).toOption = (c.buildRules available).toOption := by
  refine ⟨⟨?_, ?_⟩, fun key v shown _ hshown => Value.shallow_of_text hshown, ?_⟩
  · intro hfree
    exact ⟨fun htyped table hrules => hfree.unambiguous htyped hrules,
      fun key v hv => hfree.shallow hkeyed hv⟩
  · rintro ⟨hclear, hshallow⟩ entries' h
    exact agree_of_reordered hkeyed hclear hshallow h
  · intro c c' hc halike available havailable
    exact buildRules_of_alike halike (fun id t => keyed_ruleOptions hkeyed hc) havailable

section Tables

variable {tables tables' : List (String × Options)}

/-- The entries of a file that holds nothing but tables of options. -/
def ruleTables (tables : List (String × Options)) : Toml.Entries :=
  [("rules", .table (tables.map fun e => (e.1, .table e.2)))]

theorem wellTyped_ruleTables (tables : List (String × Options)) :
    WellTyped (ruleTables tables) where
  select _ hv := by cases hv.1
  ignore _ hv := by cases hv.1
  rules := by
    refine ⟨_, rfl, ?_⟩
    intro e he
    obtain ⟨named, _, rfl⟩ := List.mem_map.mp he
    exact ⟨named.2, rfl⟩

theorem reordered_ruleTables
    (h : tables.Perm tables') :
    Reordered (.table (ruleTables tables)) (.table (ruleTables tables')) :=
  .inTable [] "rules" [] (.permute (h.map _))

theorem lookup_ruleTables_concat
    {t : Options}
    (hc : (ofEntries path (ruleTables (tables ++ [(key, t)]))).value = .ok c) :
    c.ruleOptions.lookup (upperId key) = some t := by
  rw [lookup_ruleOptions hc rfl, List.map_append, List.map_singleton, lastFor_concat]

end Tables

/-- A place for settings. -/
def settingsFile : Path :=
  .ofString "/nuspec-ls.toml"

/-- Tables of options for two rules. -/
def narrow : List (String × Options) :=
  [("nus001", []), ("nus002", [("min_length", .integer 5), ("max_length", .integer 9)])]

/-- The same tables with all their entries the other way round. -/
def narrowReversed : List (String × Options) :=
  [("nus002", [("max_length", .integer 9), ("min_length", .integer 5)]), ("nus001", [])]

theorem reordered_narrow :
    Reordered (.table (ruleTables narrow)) (.table (ruleTables narrowReversed)) :=
  (reordered_ruleTables (.swap _ _ [])).trans
    (.inTable [] "rules" [] (.inTable [] "nus002" _ (.permute (.swap _ _ []))))

theorem unambiguous_narrow :
    Unambiguous (narrow.map fun e => (e.1, .table e.2)) := by
  have hne : upperId "nus001" ≠ upperId "nus002" := by
    decide +kernel
  simp [narrow, Unambiguous, hne, hne.symm, Reordered.refl]

/-- Neither the order of tables nor that of options matters for settings with these tables. -/
theorem ofEntries_order_free_iff_narrow :
    ∃ c c',
      Toml.read Host.usual.reading
          "[rules.nus001]\n[rules.nus002]\nmin_length = 5\nmax_length = 9\n".toList =
        .ok (ruleTables narrow) ∧
      Toml.read Host.usual.reading
          "[rules.nus002]\nmax_length = 9\nmin_length = 5\n[rules.nus001]\n".toList =
        .ok (ruleTables narrowReversed) ∧
      (ofEntries settingsFile (ruleTables narrow)).value = .ok c ∧
      (ofEntries settingsFile (ruleTables narrowReversed)).value = .ok c' ∧
      Alike c c' ∧
      (c'.buildRules Rule.registered).toOption = (c.buildRules Rule.registered).toOption := by
  have hread :
      Toml.read Host.usual.reading
          "[rules.nus001]\n[rules.nus002]\nmin_length = 5\nmax_length = 9\n".toList =
        .ok (ruleTables narrow) := by
    decide +kernel
  have htyped := wellTyped_ruleTables narrow
  have hids := forall_not_complaint_iff.mpr ⟨htyped.select, htyped.ignore⟩
  obtain ⟨horder, _, hrules⟩ :=
    ofEntries_order_free_iff (Toml.keyed_of_read hread) .usual settingsFile
  have hagree := horder.mpr
    ⟨fun _ table htable => Value.table.inj htable ▸ unambiguous_narrow,
      fun key v hv => absurd hv (hids key v)⟩ _ reordered_narrow
  obtain ⟨c, hc⟩ := (exists_ofEntries_iff settingsFile).mpr htyped
  obtain ⟨c', hc'⟩ :=
    (exists_ofEntries_iff settingsFile).mpr (wellTyped_ruleTables narrowReversed)
  rw [hc, hc'] at hagree
  cases hagree with
  | settings halike =>
      refine ⟨c, c', hread, by decide +kernel, hc, hc', halike, hrules c c' hc halike _ ?_⟩
      simp [Rule.registered, Rule.ignoresOrder]

/-- Two tables of options for one rule. -/
def twofold : List (String × Options) :=
  [("nus002", [("min_length", .integer 1)])] ++ [("NUS002", [("min_length", .integer 2)])]

/-- The same two tables the other way round. -/
def twofoldReversed : List (String × Options) :=
  [("NUS002", [("min_length", .integer 2)])] ++ [("nus002", [("min_length", .integer 1)])]

/-- Of two tables for one rule the last counts, so their order matters. -/
theorem ofEntries_order_matters :
    ∃ c c',
      Toml.read Host.usual.reading
          "[rules.nus002]\nmin_length = 1\n[rules.NUS002]\nmin_length = 2\n".toList =
        .ok (ruleTables twofold) ∧
      Toml.read Host.usual.reading
          "[rules.NUS002]\nmin_length = 2\n[rules.nus002]\nmin_length = 1\n".toList =
        .ok (ruleTables twofoldReversed) ∧
      Reordered (.table (ruleTables twofold)) (.table (ruleTables twofoldReversed)) ∧
      (ofEntries settingsFile (ruleTables twofold)).value = .ok c ∧
      (ofEntries settingsFile (ruleTables twofoldReversed)).value = .ok c' ∧
      c.ruleOptions.lookup "NUS002" = some [("min_length", .integer 2)] ∧
      c'.ruleOptions.lookup "NUS002" = some [("min_length", .integer 1)] ∧
      ¬ Alike c c' := by
  have hread :
      Toml.read Host.usual.reading
          "[rules.nus002]\nmin_length = 1\n[rules.NUS002]\nmin_length = 2\n".toList =
        .ok (ruleTables twofold) := by
    decide +kernel
  have hupper : upperId "NUS002" = "NUS002" ∧ upperId "nus002" = "NUS002" := by
    decide +kernel
  obtain ⟨c, hc⟩ := (exists_ofEntries_iff settingsFile).mpr (wellTyped_ruleTables twofold)
  obtain ⟨c', hc'⟩ :=
    (exists_ofEntries_iff settingsFile).mpr (wellTyped_ruleTables twofoldReversed)
  have hlast := lookup_ruleTables_concat hc
  have hlast' := lookup_ruleTables_concat hc'
  rw [hupper.1] at hlast
  rw [hupper.2] at hlast'
  refine
    ⟨c, c', hread, by decide +kernel, reordered_ruleTables (.swap _ _ []), hc, hc', hlast, hlast',
      ?_⟩
  intro halike
  have hoptions := halike.ruleOptions "NUS002"
  rw [hlast, hlast'] at hoptions
  cases hoptions with
  | some h =>
      have hkeyed : (Value.table [("min_length", .integer 2)]).Keyed :=
        keyed_ruleOptions (Toml.keyed_of_read hread) hc hlast
      have hbound : List.lookup "min_length" [("min_length", Value.integer 2)] =
          some (.integer 2) := rfl
      obtain ⟨w, hw, hrel⟩ := h.exists_lookup hkeyed hbound
      cases hw
      cases hrel.eq_integer_iff.mpr rfl

end Config
end NuspecLint

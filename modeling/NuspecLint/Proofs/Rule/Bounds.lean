import Mathlib.Tactic
import NuspecLint.Rule.Basic

/-!
# Options for the length of descriptions

What the rule on descriptions makes of tables of options, one after the other.

**Condition.**  An option that a table leaves out counts as the current bound.  The table is
accepted if both values are integers, none of them negative, and the first is less than the second.

**Complaint.**  Otherwise the first value that is no length is complained about, or the order of the
two.  A complaint ends with the value, so one that is nested too deeply to be shown cannot be
complained about in the ordinary way.

**Results.**
* `LengthBounds.configure_eq_ok_iff`: which options are accepted, and what they lead to.
* `LengthBounds.exists_error_iff`, `LengthBounds.isTooDeep_of_error`: which are refused, and how.
* `LengthBounds.configure_overlay`: two tables in one.
* `Rule.configure_validated`: all of this for the rule, after any number of calls.
-/

namespace NuspecLint

theorem lookup_filter_key
    {α : Type} (keep : String → Bool) (entries : List (String × α)) (key : String) :
    (entries.filter fun e => keep e.1).lookup key =
      if keep key then entries.lookup key else none := by
  induction entries with
  | nil =>
      simp
  | cons e entries ih =>
      obtain ⟨name, v⟩ := e
      by_cases hkeep : keep name = true
      · rw [List.filter_cons_of_pos (by simpa using hkeep)]
        by_cases h : key = name
        · simp [h, hkeep]
        · simp [List.lookup_cons, beq_false_of_ne h, ih]
      · rw [List.filter_cons_of_neg (by simpa using hkeep), ih]
        by_cases h : key = name
        · simp [h, hkeep]
        · simp [List.lookup_cons, beq_false_of_ne h]

namespace Options

/--
One table laid over another: entries of the first keep their place, with the value that the second
has for them, if it has one, and new entries follow.
-/
def overlay (first second : Options) : Options :=
  (first.map fun e => (e.1, (second.lookup e.1).getD e.2)) ++
    second.filter fun e => (first.lookup e.1).isNone

theorem lookup_map_getD (first second : Options) (key : String) :
    (first.map fun e => (e.1, (second.lookup e.1).getD e.2)).lookup key =
      (first.lookup key).map fun v => (second.lookup key).getD v := by
  induction first with
  | nil =>
      rfl
  | cons e first ih =>
      obtain ⟨name, v⟩ := e
      by_cases h : key = name
      · simp [h]
      · simp [List.lookup_cons, beq_false_of_ne h, ih]

/-- The second table counts where it has a value, and the first elsewhere. -/
theorem lookup_overlay (first second : Options) (key : String) :
    (overlay first second).lookup key = (second.lookup key).or (first.lookup key) := by
  rw [overlay, List.lookup_append, lookup_map_getD,
    lookup_filter_key fun name => (first.lookup name).isNone]
  cases first.lookup key with
  | none =>
      simp
  | some v =>
      cases second.lookup key <;> simp

end Options

namespace LengthBounds

variable {b b' b'' : LengthBounds} {options : Options} {key : String} {current : Quantity}

section Length

/-- The value that counts for an option: that of the table, else the current bound. -/
def effective (options : Options) (key : String) (current : Quantity) : Value :=
  (options.lookup key).getD current.toValue

/-- The value is no length: it is negative, or no integer at all.  Truth values are no integers. -/
def Unfit : Value → Prop
  | .integer n => n < 0
  | _ => True

theorem not_unfit_iff
    {v : Value} :
    ¬ Unfit v ↔ ∃ n : Int, v = .integer n ∧ 0 ≤ n := by
  cases v <;> simp [Unfit]

theorem lengthOption_eq_ok_iff
    {n : Int} :
    lengthOption options key current = .ok n ↔
      (options.lookup key).getD current.toValue = .integer n ∧ 0 ≤ n := by
  unfold lengthOption
  split
  · next m hm =>
      rw [hm, Value.integer.injEq]
      split
      · simp
        omega
      · simp
        omega
  · next hkind =>
      exact iff_of_false (by simp) fun h => hkind n h.1

theorem isTooDeep_integer (allowance : Nat) (n : Int) :
    (Value.integer n).isTooDeep allowance = false := by
  rw [Value.isTooDeep, Value.text, Value.integerText]
  cases integerText? n <;> rfl

/-- What is no length is refused, and if it can be shown, in the ordinary way. -/
theorem lengthOption_of_unfit
    (h : Unfit (effective options key current)) :
    ∃ f,
      lengthOption options key current = .error f ∧
      ∀ allowance, f.isTooDeep allowance = (effective options key current).isTooDeep allowance := by
  unfold effective at h
  unfold lengthOption effective
  split
  · next n hn =>
      rw [hn] at h
      exact ⟨.negative key n, if_pos h, fun allowance => by rw [hn, isTooDeep_integer]; rfl⟩
  · exact ⟨.notInteger key _, rfl, fun _ => rfl⟩

end Length

section Bounds

/-- The value that counts for the lower bound when options are applied. -/
def lowValue (b : LengthBounds) (options : Options) : Value :=
  effective options "min_length" b.shortest

/-- The value that counts for the upper bound when options are applied. -/
def highValue (b : LengthBounds) (options : Options) : Value :=
  effective options "max_length" b.longest

/-- Two values are refused: one of them is no length, or the first is not less than the second. -/
def Refused (low high : Value) : Prop :=
  Unfit low ∨ Unfit high ∨
    ∃ shortest longest : Int,
      low = .integer shortest ∧ high = .integer longest ∧ longest ≤ shortest

/-- The value that is complained about: of two values, the first that is no length. -/
inductive Blamed (low high : Value) : Value → Prop
  | low
      (h : Unfit low) :
      Blamed low high low
  | high
      (hlow : ¬ Unfit low)
      (h : Unfit high) :
      Blamed low high high

/-- Two integers in order are bounds. -/
theorem exists_make_integer
    {shortest longest : Int}
    (h : shortest < longest) :
    ∃ bounds,
      make (.integer shortest) (.integer longest) = .ok bounds ∧
      bounds.shortest = .integer shortest ∧ bounds.longest = .integer longest := by
  have hbounds : (Quantity.integer longest).atMost (.integer shortest) = false := by
    simpa using h
  exact ⟨_, dif_pos hbounds, rfl, rfl⟩

theorem configure_of_blamed
    {v : Value}
    (h : Blamed (b.lowValue options) (b.highValue options) v) :
    ∃ f,
      b.configure options = .error f ∧
      ∀ allowance, f.isTooDeep allowance = v.isTooDeep allowance := by
  cases h with
  | low h =>
      obtain ⟨f, hf, hdeep⟩ := lengthOption_of_unfit h
      exact ⟨f, by rw [configure, hf]; rfl, hdeep⟩
  | high hlow h =>
      obtain ⟨shortest, hshortest⟩ := not_unfit_iff.mp hlow
      obtain ⟨f, hf, hdeep⟩ := lengthOption_of_unfit h
      exact ⟨f, by rw [configure, lengthOption_eq_ok_iff.mpr hshortest, hf]; rfl, hdeep⟩

theorem configure_of_lengths
    {shortest longest : Int}
    (hlow : b.lowValue options = .integer shortest)
    (hhigh : b.highValue options = .integer longest)
    (hshortest : 0 ≤ shortest)
    (hlongest : 0 ≤ longest) :
    b.configure options = make (.integer shortest) (.integer longest) := by
  rw [configure, lengthOption_eq_ok_iff.mpr ⟨hlow, hshortest⟩,
    lengthOption_eq_ok_iff.mpr ⟨hhigh, hlongest⟩]
  rfl

/-- Two values are either blamed, or two lengths. -/
theorem blamed_or_lengths (low high : Value) :
    (∃ v, Blamed low high v) ∨
    ∃ shortest longest : Int,
      low = .integer shortest ∧ high = .integer longest ∧ 0 ≤ shortest ∧ 0 ≤ longest := by
  by_cases hlow : Unfit low
  · exact Or.inl ⟨low, .low hlow⟩
  · by_cases hhigh : Unfit high
    · exact Or.inl ⟨high, .high hlow hhigh⟩
    · obtain ⟨shortest, hshortest, hlow⟩ := not_unfit_iff.mp hlow
      obtain ⟨longest, hlongest, hhigh⟩ := not_unfit_iff.mp hhigh
      exact Or.inr ⟨shortest, longest, hshortest, hlongest, hlow, hhigh⟩

/-- Which options are accepted, and what they lead to. -/
theorem configure_eq_ok_iff :
    b.configure options = .ok b' ↔
      ∃ shortest longest : Int,
        b.lowValue options = .integer shortest ∧ b.highValue options = .integer longest ∧
        0 ≤ shortest ∧ shortest < longest ∧
        b'.shortest = .integer shortest ∧ b'.longest = .integer longest := by
  constructor
  · intro h
    obtain ⟨v, hv⟩ | ⟨shortest, longest, hlow, hhigh, hshortest, hlongest⟩ :=
      blamed_or_lengths (b.lowValue options) (b.highValue options)
    · obtain ⟨f, hf, _⟩ := configure_of_blamed hv
      rw [h] at hf
      cases hf
    · rw [configure_of_lengths hlow hhigh hshortest hlongest, make] at h
      split at h
      · next hordered =>
          cases h
          exact ⟨shortest, longest, hlow, hhigh, hshortest, by simpa using hordered, rfl, rfl⟩
      · cases h
  · rintro ⟨shortest, longest, hlow, hhigh, hnonneg, hlt, hshortest, hlongest⟩
    rw [configure_of_lengths hlow hhigh hnonneg (by omega)]
    obtain ⟨bounds, hmake, hshortest', hlongest'⟩ := exists_make_integer hlt
    have hbounds : b' = bounds := by
      cases b'
      cases bounds
      rw [mk.injEq]
      exact ⟨hshortest.trans hshortest'.symm, hlongest.trans hlongest'.symm⟩
    rw [hbounds, hmake]

theorem not_refused_iff
    {low high : Value} :
    ¬ Refused low high ↔
      ∃ shortest longest : Int,
        low = .integer shortest ∧ high = .integer longest ∧
        0 ≤ shortest ∧ shortest < longest := by
  constructor
  · intro h
    rw [Refused, not_or, not_or, not_unfit_iff, not_unfit_iff] at h
    obtain ⟨⟨shortest, rfl, hshortest⟩, ⟨longest, rfl, _⟩, hordered⟩ := h
    refine ⟨shortest, longest, rfl, rfl, hshortest, ?_⟩
    by_contra hle
    exact hordered ⟨shortest, longest, rfl, rfl, by omega⟩
  · rintro ⟨shortest, longest, rfl, rfl, hshortest, hlt⟩ h
    simp only [Refused, Unfit, Value.integer.injEq] at h
    omega

/-- Which options are refused. -/
theorem exists_error_iff :
    (∃ f, b.configure options = .error f) ↔
      Refused (b.lowValue options) (b.highValue options) := by
  rw [← not_iff_not, not_refused_iff]
  cases hresult : b.configure options with
  | ok b' =>
      obtain ⟨shortest, longest, hlow, hhigh, hshortest, hlt, _⟩ := configure_eq_ok_iff.mp hresult
      exact iff_of_true (by simp) ⟨shortest, longest, hlow, hhigh, hshortest, hlt⟩
  | error f =>
      refine iff_of_false (by simp) ?_
      rintro ⟨shortest, longest, hlow, hhigh, hnonneg, hlt⟩
      obtain ⟨bounds, _, hshortest, hlongest⟩ := exists_make_integer hlt
      have hok : b.configure options = .ok bounds :=
        configure_eq_ok_iff.mpr
          ⟨shortest, longest, hlow, hhigh, hnonneg, hlt, hshortest, hlongest⟩
      rw [hresult] at hok
      cases hok

theorem Blamed.unique
    {low high v w : Value}
    (h : Blamed low high v)
    (h' : Blamed low high w) :
    v = w := by
  cases h with
  | low h =>
      cases h' with
      | low _ =>
          rfl
      | high hlow _ =>
          exact absurd h hlow
  | high hlow _ =>
      cases h' with
      | low h' =>
          exact absurd h' hlow
      | high _ _ =>
          rfl

/-- A complaint is an ordinary one unless the value that it is about is nested too deeply. -/
theorem isTooDeep_of_error
    {f : OptionFault}
    (h : b.configure options = .error f)
    (allowance : Nat) :
    f.isTooDeep allowance = false ↔
      ∀ v, Blamed (b.lowValue options) (b.highValue options) v →
        v.isTooDeep allowance = false := by
  obtain ⟨v, hv⟩ | ⟨shortest, longest, hlow, hhigh, hshortest, hlongest⟩ :=
    blamed_or_lengths (b.lowValue options) (b.highValue options)
  · obtain ⟨f', hf', hdeep⟩ := configure_of_blamed hv
    obtain rfl : f = f' := by
      rw [h] at hf'
      cases hf'
      rfl
    rw [hdeep]
    exact ⟨fun hshown w hw => hv.unique hw ▸ hshown, fun hall => hall v hv⟩
  · rw [configure_of_lengths hlow hhigh hshortest hlongest, make] at h
    split at h
    · cases h
    · cases h
      refine iff_of_true rfl ?_
      intro v hv
      cases hv with
      | low _ =>
          rw [hlow, isTooDeep_integer]
      | high _ _ =>
          rw [hhigh, isTooDeep_integer]

end Bounds

section Update

/-- Both bounds are lengths, and they are in order. -/
def InOrder (b : LengthBounds) : Prop :=
  ∃ shortest longest : Int,
    b.shortest = .integer shortest ∧ b.longest = .integer longest ∧
    0 ≤ shortest ∧ shortest < longest

/-- A bound before and after options are applied that name it, or do not. -/
def Updated (named : Option Value) (before after : Quantity) : Prop :=
  match named with
  | some v => after.toValue = v
  | none => after = before

theorem inOrder_of_configure
    (h : b.configure options = .ok b') :
    b'.InOrder := by
  obtain ⟨shortest, longest, _, _, hnonneg, hlt, hshortest, hlongest⟩ := configure_eq_ok_iff.mp h
  exact ⟨shortest, longest, hshortest, hlongest, hnonneg, hlt⟩

theorem toValue_of_configure
    (h : b.configure options = .ok b') :
    b'.shortest.toValue = b.lowValue options ∧ b'.longest.toValue = b.highValue options := by
  obtain ⟨shortest, longest, hlow, hhigh, _, _, hshortest, hlongest⟩ := configure_eq_ok_iff.mp h
  rw [hlow, hhigh, hshortest, hlongest]
  exact ⟨rfl, rfl⟩

theorem updated_of_toValue
    {before after : Quantity}
    (h : after.toValue = effective options key before) :
    Updated (options.lookup key) before after := by
  unfold Updated
  unfold effective at h
  split
  · next v hv =>
      rw [h, hv, Option.getD_some]
  · next hnone =>
      rw [hnone, Option.getD_none] at h
      have hquantity := congrArg Quantity.ofValue? h
      simpa using hquantity

theorem effective_overlay
    {first second : Options} {after : Quantity}
    (h : after.toValue = effective first key current) :
    effective (first.overlay second) key current = effective second key after := by
  rw [effective, effective, Options.lookup_overlay, h, effective]
  cases second.lookup key <;> rfl

/-- If one table is accepted and then another, the second laid over the first is accepted too. -/
theorem configure_overlay
    {first second : Options}
    (h : b.configure first = .ok b')
    (h' : b'.configure second = .ok b'') :
    b.configure (first.overlay second) = .ok b'' := by
  obtain ⟨hlow, hhigh⟩ := toValue_of_configure h
  rw [configure_eq_ok_iff] at h' ⊢
  rwa [lowValue, highValue, effective_overlay hlow, effective_overlay hhigh]

end Update

end LengthBounds

namespace Value

/-- Tables, one inside the other. -/
def nested : Nat → Value
  | 0 => .integer 1
  | depth + 1 => .table [("a", nested depth)]

theorem text_nested
    {allowance depth : Nat}
    (h : allowance < depth) :
    (nested depth).text allowance = .error .tooDeep := by
  induction depth generalizing allowance with
  | zero =>
      exact absurd h (Nat.not_lt_zero allowance)
  | succ depth ih =>
      rw [nested, text, entryTexts]
      split
      · rfl
      · rw [ih (by omega)]
        rfl

end Value

namespace Rule

open LengthBounds

variable {b : LengthBounds} {options : Options} {r : Rule}

/-- The rule after options are applied; if they are refused, it stays as it is. -/
def reconfigure (r : Rule) (options : Options) : Rule :=
  match r.configure options with
  | .ok r' => r'
  | .error _ => r

theorem configure_description_eq_error_iff
    {f : OptionFault} :
    (description b).configure options = .error f ↔ b.configure options = .error f := by
  rw [configure]
  cases b.configure options <;> simp [Except.map]

theorem configure_description_eq_ok_iff :
    (description b).configure options = .ok r ↔
      ∃ b', b.configure options = .ok b' ∧ r = description b' := by
  rw [configure]
  cases b.configure options <;> simp [Except.map, eq_comm]

/-- One call keeps the bounds in order. -/
theorem inOrder_reconfigure
    (h : b.InOrder)
    (options : Options) :
    ∃ b', (description b).reconfigure options = description b' ∧ b'.InOrder := by
  unfold reconfigure
  split
  · next r hr =>
      obtain ⟨b', hb', rfl⟩ := configure_description_eq_ok_iff.mp hr
      exact ⟨b', rfl, inOrder_of_configure hb'⟩
  · exact ⟨b, rfl, h⟩

/-- So do any number of calls. -/
theorem inOrder_foldl_reconfigure
    (h : b.InOrder)
    (calls : List Options) :
    ∃ b', calls.foldl reconfigure (description b) = description b' ∧ b'.InOrder := by
  induction calls generalizing b with
  | nil =>
      exact ⟨b, rfl, h⟩
  | cons options calls ih =>
      obtain ⟨b', hb', hordered⟩ := inOrder_reconfigure h options
      rw [List.foldl_cons, hb']
      exact ih hordered

/--
**Options are validated, and they add up.**  Whatever tables the rule on descriptions is given, one
after the other, its bounds stay two lengths in order.  A table is refused exactly if the value that
counts for one of the bounds is no length, or the first is not less than the second; the refusal is
an ordinary one unless the value to complain about is nested too deeply to be shown, whatever that
comes to.  A table that is accepted changes the bounds that it names and no others, and two that are
accepted one after the other do the same as the second laid over the first.
-/
theorem configure_validated
    (allowance : Nat) (calls : List Options) (b : LengthBounds) (options : Options) :
    (∃ reached, calls.foldl reconfigure (description .standard) = description reached ∧
      reached.InOrder) ∧
    ((∃ f, (description b).configure options = .error f) ↔
      Refused (b.lowValue options) (b.highValue options)) ∧
    ((∃ f, (description b).configure options = .error f ∧ f.isTooDeep allowance = false) ↔
      Refused (b.lowValue options) (b.highValue options) ∧
      ∀ v, Blamed (b.lowValue options) (b.highValue options) v →
        v.isTooDeep allowance = false) ∧
    ∀ r, (description b).configure options = .ok r →
      (∃ b', r = description b' ∧
        Updated (options.lookup "min_length") b.shortest b'.shortest ∧
        Updated (options.lookup "max_length") b.longest b'.longest) ∧
      ∀ options' r', r.configure options' = .ok r' →
        (description b).configure (options.overlay options') = .ok r' := by
  have hstandard : LengthBounds.standard.InOrder :=
    ⟨30, 4000, rfl, rfl, by decide, by decide⟩
  simp only [configure_description_eq_error_iff]
  refine ⟨inOrder_foldl_reconfigure hstandard calls, exists_error_iff, ?_, ?_⟩
  · rw [← exists_error_iff]
    constructor
    · rintro ⟨f, hf, hdeep⟩
      exact ⟨⟨f, hf⟩, (isTooDeep_of_error hf allowance).mp hdeep⟩
    · rintro ⟨⟨f, hf⟩, hshown⟩
      exact ⟨f, hf, (isTooDeep_of_error hf allowance).mpr hshown⟩
  · intro r hr
    obtain ⟨b', hb', rfl⟩ := configure_description_eq_ok_iff.mp hr
    obtain ⟨hlow, hhigh⟩ := toValue_of_configure hb'
    refine ⟨⟨b', rfl, updated_of_toValue hlow, updated_of_toValue hhigh⟩, ?_⟩
    intro options' r' hr'
    obtain ⟨b'', hb'', rfl⟩ := configure_description_eq_ok_iff.mp hr'
    exact configure_description_eq_ok_iff.mpr ⟨b'', configure_overlay hb' hb'', rfl⟩

/--
A lower bound, then both bounds in the other order: the table that is made up of the two does the
same.  After the first, an upper bound that is no greater is refused, and so is a truth value.
-/
theorem configure_validated_twice :
    ∃ b r,
      (description .standard).configure [("min_length", .integer 50)] = .ok (description b) ∧
      (description b).configure [("max_length", .integer 60), ("min_length", .integer 20)] = .ok r ∧
      (description .standard).configure [("min_length", .integer 20), ("max_length", .integer 60)] =
        .ok r ∧
      (∃ f, (description b).configure [("max_length", .integer 50)] = .error f ∧
        f.isTooDeep Host.usual.showing = false) ∧
      (∃ f, (description b).configure [("min_length", .boolean true)] = .error f ∧
        f.isTooDeep Host.usual.showing = false) := by
  refine ⟨⟨.integer 50, .integer 4000, by simp⟩, description ⟨.integer 20, .integer 60, by simp⟩,
    rfl, rfl, ?_, ?_, ?_⟩
  · obtain ⟨_, _, _, hok⟩ := configure_validated Host.usual.showing [] .standard
      [("min_length", .integer 50)]
    exact (hok _ rfl).2 [("max_length", .integer 60), ("min_length", .integer 20)] _ rfl
  · obtain ⟨_, _, hordinary, _⟩ := configure_validated Host.usual.showing []
      ⟨.integer 50, .integer 4000, by simp⟩ [("max_length", .integer 50)]
    refine hordinary.mpr ⟨Or.inr (Or.inr ⟨50, 50, rfl, rfl, le_rfl⟩), ?_⟩
    rintro v (_ | _)
    · exact isTooDeep_integer _ 50
    · exact isTooDeep_integer _ 50
  · obtain ⟨_, _, hordinary, _⟩ := configure_validated Host.usual.showing []
      ⟨.integer 50, .integer 4000, by simp⟩ [("min_length", .boolean true)]
    refine hordinary.mpr ⟨Or.inl trivial, ?_⟩
    rintro v (_ | ⟨hlow, _⟩)
    · rfl
    · exact absurd trivial hlow

/-- A table nested too deeply is no length, yet it is not complained about in the ordinary way. -/
theorem configure_breaks_down :
    Refused (LengthBounds.standard.lowValue [("min_length", .nested 1600)])
      (LengthBounds.standard.highValue [("min_length", .nested 1600)]) ∧
    ¬ ∃ f, (description .standard).configure [("min_length", .nested 1600)] = .error f ∧
      f.isTooDeep Host.usual.showing = false := by
  have hunfit : Unfit (LengthBounds.standard.lowValue [("min_length", .nested 1600)]) := trivial
  refine ⟨Or.inl hunfit, ?_⟩
  rintro ⟨f, hf, hdeep⟩
  have hshown := (isTooDeep_of_error (configure_description_eq_error_iff.mp hf) _).mp hdeep _
    (.low hunfit)
  have htext : (Value.nested 1600).text Host.usual.showing = .error .tooDeep :=
    Value.text_nested (by decide)
  have hvalue : LengthBounds.standard.lowValue [("min_length", .nested 1600)] = .nested 1600 := rfl
  rw [hvalue, Value.isTooDeep, htext] at hshown
  cases hshown

end Rule

end NuspecLint

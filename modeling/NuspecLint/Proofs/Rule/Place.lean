import NuspecLint.Proofs.Config.Choice

/-!
# Where reports point to

**Results.**
* `within_of_mem_analyze`: what the rules of the program report has its place inside the text, since
  the ends of every span are clamped to it.
-/

namespace NuspecLint

open Markup

/-- The range lies between two offsets of a text. -/
def Range.Within (text : List Char) (r : Range) : Prop :=
  ∃ first last : Nat,
    first ≤ last ∧ last ≤ text.length ∧
    r = ⟨(LineTable.ofText text).positionAt first, (LineTable.ofText text).positionAt last⟩

theorem LineTable.rangeOf_within (text : List Char) (start stop : Int) :
    ((ofText text).rangeOf start stop).Within text := by
  have hclamp : ∀ offset, (ofText text).clamp offset ≤ text.length :=
    fun offset => Nat.min_le_right _ _
  exact ⟨_, _, Nat.le_max_left _ _, Nat.max_le.mpr ⟨hclamp start, hclamp stop⟩, rfl⟩

/-- A report that can be made has the message for its finding, and the place of the span. -/
theorem Description.eq_of_report
    {b : LengthBounds} {lines : LineTable} {span : Nat × Nat} {f : Finding} {d : Diagnostic}
    (h : report b lines span f = .ok d) :
    d.ruleId = id ∧ f.message b = .ok d.message ∧ d.range = lines.rangeOf span.1 span.2 := by
  unfold report at h
  cases hmessage : f.message b with
  | error g =>
      rw [hmessage] at h
      cases h
  | ok message =>
      rw [hmessage] at h
      cases h
      exact ⟨rfl, rfl, rfl⟩

theorem Description.exists_report_of_mem_runRule
    {b : LengthBounds} {tree : Node} {lines : LineTable} {d : Diagnostic}
    (hd : d ∈ (runRule tree lines (.description b)).value) :
    ∃ span f, report b lines span f = .ok d := by
  rw [runRule_value, Option.mem_toList, Option.bind_eq_some_iff] at hd
  obtain ⟨found, _, hreport⟩ := hd
  refine ⟨found.2, found.1, ?_⟩
  cases h : report b lines found.2 found.1 with
  | error g =>
      rw [h] at hreport
      cases hreport
  | ok d' =>
      rw [h] at hreport
      cases hreport
      rfl

/-- What a rule of the program reports has its place inside the text. -/
theorem within_of_mem_runRule
    {r : Rule} {tree : Node} {text : List Char} {d : Diagnostic}
    (hr : r.IsBuiltIn)
    (hd : d ∈ (runRule tree (.ofText text) r).value) :
    d.range.Within text := by
  rcases hr with rfl | ⟨b, rfl⟩
  · obtain ⟨n, _, rfl⟩ := List.mem_map.mp hd
    exact LineTable.rangeOf_within text _ _
  · obtain ⟨span, f, hreport⟩ := Description.exists_report_of_mem_runRule hd
    obtain ⟨_, _, hrange⟩ := Description.eq_of_report hreport
    rw [hrange]
    exact LineTable.rangeOf_within text _ _

/-- What the rules of the program report about a text has its place inside the text. -/
theorem within_of_mem_analyze
    {rules : List Rule} {text : List Char} {d : Diagnostic}
    (hrules : ∀ r ∈ rules, r.IsBuiltIn)
    (hd : d ∈ (analyze rules text).value) :
    d.range.Within text := by
  unfold analyze at hd
  split at hd
  · cases hd
  · rw [runRules_value] at hd
    obtain ⟨r, hr, hd⟩ := List.mem_flatMap.mp hd
    exact within_of_mem_runRule (hrules r hr) hd

end NuspecLint

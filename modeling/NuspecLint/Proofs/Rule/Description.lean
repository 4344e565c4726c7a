import NuspecLint.Proofs.Markup.Content
import NuspecLint.Proofs.Rule.Bounds
import NuspecLint.Proofs.Rule.LineEnds

/-!
# How the description is judged

The rule walks through the tree to the first description, gathers the texts below it and measures
them.  Here its reports are said by the offsets of the manifest alone.

**Length.**  The characters that count are those of all texts inside the span of the description, in
the order of their offsets, without the white space at the two ends.

**Bounds.**  Truth values may stand for zero and one.  The message about a description that is too
long shows the upper bound as it was given.  An integer with too many digits cannot be shown; the
rule then fails where it would have to be.

**Results.**
* `Value.integerText_eq`: which integers can be shown.
* `Description.judge_whole_iff`: which length leads to which finding, for any two whole numbers in
  order.
* `Description.find?_eq_some_of_first`: the description that is looked at is the one that starts
  first.
* `Description.check_decided_by_length`: what is reported about a parsed text, and where.
-/

namespace NuspecLint

open Text Markup

/-- An integer is shown if it has no more digits than the limit. -/
theorem Value.integerText_eq (n : Int) :
    integerText n =
      if n.natAbs < 10 ^ digitLimit then .ok (toString n) else .error .longInteger := by
  have hdigits : (toString n.natAbs).length ≤ digitLimit ↔ n.natAbs < 10 ^ digitLimit := by
    rw [Nat.toString_eq_repr, ← String.length_toList, Nat.toList_repr,
      Nat.length_toDigits_le_iff (by decide) (by decide)]
  rw [integerText, integerText?]
  by_cases h : n.natAbs < 10 ^ digitLimit
  · rw [if_pos (hdigits.mpr h), if_pos h]
  · rw [if_neg (fun hshort => h (hdigits.mp hshort)), if_neg h]

namespace Quantity

variable {p q : Quantity} {m n : Int}

/-- The whole number that a quantity is, if it is one. -/
def whole? : Quantity → Option Int
  | integer n => some n
  | number _ => none
  | truth b => some (if b then 1 else 0)

theorem extent?_of_whole
    (h : q.whole? = some n) :
    q.extent? = (integer n).extent? := by
  cases q with
  | integer _ | truth _ =>
      cases h
      rfl
  | number _ =>
      cases h

/-- Whole numbers are ordered as such, however they are given. -/
theorem atMost_of_whole
    (hp : p.whole? = some m)
    (hq : q.whole? = some n) :
    p.atMost q = decide (m ≤ n) := by
  rw [← atMost_integer, atMost, atMost, extent?_of_whole hp, extent?_of_whole hq]

theorem below_of_whole
    (hp : p.whole? = some m)
    (hq : q.whole? = some n) :
    p.below q = decide (m < n) := by
  rw [← below_integer, below, below, extent?_of_whole hp, extent?_of_whole hq]

end Quantity

/-- Two whole numbers in order are bounds. -/
theorem LengthBounds.exists_make_whole
    {low high : Quantity} {shortest longest : Int}
    (hlow : low.whole? = some shortest)
    (hhigh : high.whole? = some longest)
    (hlt : shortest < longest) :
    ∃ bounds, make low high = .ok bounds ∧ bounds.shortest = low ∧ bounds.longest = high := by
  have hbounds : high.atMost low = false := by
    rw [Quantity.atMost_of_whole hhigh hlow]
    exact decide_eq_false (not_le.mpr hlt)
  exact ⟨_, dif_pos hbounds, rfl, rfl⟩

namespace Description

section Judgement

variable {bounds : LengthBounds} {shortest longest : Int}

/-- Which length leads to which finding, if the bounds are whole numbers. -/
theorem judge_whole_iff
    (length : Nat)
    (hshortest : bounds.shortest.whole? = some shortest)
    (hlongest : bounds.longest.whole? = some longest) :
    (judge bounds length = some .missing ↔ length = 0) ∧
    (judge bounds length = some .tooShort ↔ 1 ≤ length ∧ (length : Int) ≤ shortest) ∧
    (judge bounds length = some .tooLong ↔ 1 ≤ length ∧ longest < (length : Int)) ∧
    (judge bounds length = none ↔
      1 ≤ length ∧ shortest < (length : Int) ∧ (length : Int) ≤ longest) := by
  have hordered : shortest < longest := by
    have hbounds := bounds.longest_not_atMost_shortest
    rwa [Quantity.atMost_of_whole hlongest hshortest, decide_eq_false_iff_not, not_le] at hbounds
  have hlength : (Quantity.integer length).whole? = some (length : Int) := rfl
  simp only [judge, Quantity.atMost_of_whole hlength hshortest,
    Quantity.below_of_whole hlongest hlength, decide_eq_true_eq]
  split
  · simp; omega
  · split
    · simp; omega
    · split
      · simp; omega
      · simp; omega

end Judgement

section Place

variable {source : List Char} {tree e : Node}

theorem isElement_of_isDescription
    (h : isDescription e = true) :
    e.isElement = true := by
  simp only [isDescription, Bool.and_eq_true] at h
  exact h.1

/-- Without a description none is found. -/
theorem find?_eq_none
    (hnone : ∀ n ∈ tree.nodes, isDescription n = false) :
    find? tree = none := by
  rw [find?, Node.descendants_false, List.head?_eq_none_iff, List.filter_eq_nil_iff]
  intro n hn
  rw [← Node.beneath_eq_preorderAll] at hn
  simp [hnone n (by simp [Node.nodes_eq_cons, hn])]

/-- The description that is looked at is the one that starts first. -/
theorem find?_eq_some_of_first
    (h : parse source = .ok tree)
    (he : e ∈ tree.nodes)
    (hdescription : isDescription e = true)
    (hfirst : ∀ n ∈ tree.nodes, isDescription n = true → e.start ≤ n.start) :
    find? tree = some e := by
  obtain ⟨nodes, rfl, hnodes, hplaced, hordered⟩ := Node.forest_of_parse h
  rw [find?, Node.descendants_false]
  apply Node.head?_filter_of_first (Node.pairwise_start_lt hplaced hordered)
  · exact Node.mem_preorderAll_of_mem_nodes he (Or.inl (isElement_of_isDescription hdescription))
  · exact hdescription
  · intro n hn hkeep
    exact hfirst n (by rw [hnodes]; exact List.mem_cons_of_mem _ hn) hkeep

end Place

section Reports

variable {bounds : LengthBounds} {tree e : Node} {lines : LineTable} {f : Finding}

/-- The report about a finding, if that can be put into words. -/
theorem report_of_message
    {message : String} {span : Nat × Nat}
    (h : f.message bounds = .ok message) :
    report bounds lines span f =
      .ok ⟨id, message, lines.rangeOf span.1 span.2, f.severity⟩ := by
  rw [report, h]
  rfl

/-- What checking a description comes to, by the finding about it. -/
theorem check_cases
    (bounds : LengthBounds) (lines : LineTable)
    (hfind : find? tree = some e) :
    (judge bounds (trim e.contentValue).length = none ∧ check bounds tree lines = .ok []) ∨
    (∃ f message,
      judge bounds (trim e.contentValue).length = some f ∧ f.message bounds = .ok message ∧
      check bounds tree lines =
        .ok [⟨id, message, lines.rangeOf e.contentSpan.1 e.contentSpan.2, f.severity⟩]) ∨
    ∃ f fault,
      judge bounds (trim e.contentValue).length = some f ∧ f.message bounds = .error fault ∧
      check bounds tree lines = .error fault := by
  have hfinding : finding? bounds tree =
      (judge bounds (trim e.contentValue).length).map fun f => (f, e.contentSpan) := by
    rw [finding?, hfind]
  unfold check
  rw [hfinding]
  cases judge bounds (trim e.contentValue).length with
  | none =>
      exact Or.inl ⟨rfl, rfl⟩
  | some f =>
      simp only [Option.map_some]
      cases hmessage : f.message bounds with
      | ok message =>
          refine Or.inr (Or.inl ⟨f, message, rfl, hmessage, ?_⟩)
          rw [report_of_message hmessage]
          rfl
      | error fault =>
          refine Or.inr (Or.inr ⟨f, fault, rfl, hmessage, ?_⟩)
          rw [report, hmessage]
          rfl

/-- There is one report, with this message and this severity, wherever it points to. -/
def Says
    (message : String) (severity : Severity) (result : Except Unshown (List Diagnostic)) : Prop :=
  ∃ range, result = .ok [⟨id, message, range, severity⟩]

/-- A finding that can be put into words is told from the report about it. -/
theorem says_iff
    {message : String}
    (hfind : find? tree = some e)
    (hmessage : f.message bounds = .ok message) :
    Says message f.severity (check bounds tree lines) ↔
      judge bounds (trim e.contentValue).length = some f := by
  rcases check_cases bounds lines hfind with
    ⟨hjudge, hcheck⟩ | ⟨g, message', hjudge, hmessage', hcheck⟩ | ⟨g, fault, hjudge, hfault, hcheck⟩
  · rw [hjudge, hcheck]
    exact iff_of_false (by simp [Says]) (by simp)
  · rw [hjudge, hcheck]
    constructor
    · rintro ⟨range, hsays⟩
      simp only [Except.ok.injEq, List.cons.injEq, Diagnostic.mk.injEq, and_true] at hsays
      obtain ⟨_, rfl, _⟩ := hsays
      rw [eq_of_message hmessage' hmessage]
    · intro hg
      obtain rfl := Option.some.inj hg
      rw [hmessage] at hmessage'
      cases hmessage'
      exact ⟨_, rfl⟩
  · rw [hjudge, hcheck]
    refine iff_of_false (by simp [Says]) ?_
    intro hg
    obtain rfl := Option.some.inj hg
    rw [hmessage] at hfault
    cases hfault

end Reports

/--
What comes of checking a description `e` whose text has `length` characters that count, with an
upper bound that is given as `high`: which finding it is depends on the length alone, a finding that
would have to show more digits than can be shown makes the rule fail, and every report points to
exactly the content of `e`.
-/
structure DecidedBy
    (source : List Char) (high : Quantity) (shortest longest : Int) (e : Node) (length : Nat)
    (result : Except Unshown (List Diagnostic)) : Prop where
  required :
    Says ("Description is required. See " ++ guidelines ++ "/DescriptionNotEmpty") .error result ↔
      length = 0
  tooShort :
    Says ("Description should be sufficient to explain the software. See " ++ guidelines ++
        "/DescriptionCharacterCountMinimum") .warning result ↔
      1 ≤ length ∧ (length : Int) ≤ shortest
  tooLong : ∀ shown, high.text = .ok shown →
    (Says ("Description should not exceed " ++ shown ++ " characters. See " ++
        guidelines ++ "/DescriptionCharacterCountMaximum") .error result ↔
      1 ≤ length ∧ longest < (length : Int))
  fails : ∀ fault,
    result = .error fault ↔
      high.text = .error fault ∧ 1 ≤ length ∧ longest < (length : Int)
  silent :
    result = .ok [] ↔ 1 ≤ length ∧ shortest < (length : Int) ∧ (length : Int) ≤ longest
  span_ordered : e.contentSpan.1 ≤ e.contentSpan.2
  span_inside : e.contentSpan.2 ≤ source.length
  placed : ∀ found, result = .ok found → ∀ d ∈ found,
    (LineTable.ofText source).offsetAt d.range.start = e.contentSpan.1 ∧
    (LineTable.ofText source).offsetAt d.range.stop = e.contentSpan.2

/-- Only the message that shows the upper bound can be missing, and only with that bound. -/
theorem message_eq_error_iff
    {bounds : LengthBounds} {f : Finding} {fault : Unshown} :
    f.message bounds = .error fault ↔ f = .tooLong ∧ bounds.longest.text = .error fault := by
  cases f with
  | missing | tooShort =>
      simp [Finding.message]
  | tooLong =>
      rw [Finding.message]
      cases bounds.longest.text <;> simp [Except.map]

/-- The reports about a description that is found are decided by its length. -/
theorem decidedBy_of_find?
    {source : List Char} {tree e : Node} {bounds : LengthBounds} {shortest longest : Int}
    (hshortest : bounds.shortest.whole? = some shortest)
    (hlongest : bounds.longest.whole? = some longest)
    (hfind : find? tree = some e)
    (hplaced : e.Placed source) :
    DecidedBy source bounds.longest shortest longest e (trim e.contentValue).length
      (check bounds tree (.ofText source)) := by
  obtain ⟨hmissing, hshort, hlong, hnone⟩ :=
    judge_whole_iff (trim e.contentValue).length hshortest hlongest
  have hspan := hplaced.contentSpan_within
  have hcases := check_cases bounds (.ofText source) hfind
  constructor
  · exact (says_iff hfind (f := .missing) rfl).trans hmissing
  · exact (says_iff hfind (f := .tooShort) rfl).trans hshort
  · intro shown hshown
    have hmessage : Finding.tooLong.message bounds =
        .ok ("Description should not exceed " ++ shown ++ " characters. See " ++
          guidelines ++ "/DescriptionCharacterCountMaximum") := by
      rw [Finding.message, hshown]
      rfl
    exact (says_iff hfind hmessage).trans hlong
  · intro fault
    rw [← hlong]
    rcases hcases with ⟨hjudge, hcheck⟩ | ⟨f, message, hjudge, hmessage, hcheck⟩ |
      ⟨f, fault', hjudge, hfault, hcheck⟩
    · rw [hcheck, hjudge]
      simp
    · rw [hcheck, hjudge]
      refine iff_of_false (by simp) ?_
      rintro ⟨hfault, hf⟩
      rw [message_eq_error_iff.mpr ⟨Option.some.inj hf, hfault⟩] at hmessage
      cases hmessage
    · rw [hcheck, hjudge]
      obtain ⟨rfl, htext⟩ := message_eq_error_iff.mp hfault
      rw [htext]
      simp
  · rw [← hnone]
    rcases hcases with ⟨hjudge, hcheck⟩ | ⟨f, message, hjudge, hmessage, hcheck⟩ |
      ⟨f, fault', hjudge, hfault, hcheck⟩
    · rw [hcheck, hjudge]
      simp
    · rw [hcheck, hjudge]
      simp
    · rw [hcheck, hjudge]
      simp
  · exact hspan.1
  · exact hspan.2
  · intro found hfound d hd
    rcases hcases with ⟨_, hcheck⟩ | ⟨f, message, _, _, hcheck⟩ | ⟨_, _, _, _, hcheck⟩
    · rw [hcheck] at hfound
      cases hfound
      cases hd
    · rw [hcheck] at hfound
      cases hfound
      obtain rfl := List.mem_singleton.mp hd
      exact LineTable.offsetAt_rangeOf hspan.1 hspan.2
    · rw [hcheck] at hfound
      cases hfound

/-- The rule reports one thing at most. -/
theorem length_check_le
    {bounds : LengthBounds} {tree : Node} {lines : LineTable} {found : List Diagnostic}
    (h : check bounds tree lines = .ok found) :
    found.length ≤ 1 := by
  unfold check at h
  split at h
  · cases h
    exact Nat.zero_le 1
  · next f span _ =>
      cases hreport : report bounds lines span f with
      | error fault =>
          rw [hreport] at h
          cases h
      | ok d =>
          rw [hreport] at h
          cases h
          exact le_rfl

/--
**The description is judged by its length.**  For any two whole numbers in order, given as integers
or as truth values, a parsed text gets at most one report.  Without a description it is one over the
whole text.  Otherwise the first description counts: the number of characters in the texts inside
its span, without white space at the two ends, decides what is reported, and the report points to
exactly its content.  Instead of saying that the description is too long the rule fails, if the
upper bound has too many digits to be shown.
-/
theorem check_decided_by_length
    {source : List Char} {tree : Node} {low high : Quantity} {shortest longest : Int}
    (h : parse source = .ok tree)
    (hlow : low.whole? = some shortest)
    (hhigh : high.whole? = some longest)
    (hlt : shortest < longest) :
    ∃ bounds,
      LengthBounds.make low high = .ok bounds ∧
      (∀ n, high = .integer n →
        high.text =
          if n.natAbs < 10 ^ digitLimit then .ok (toString n) else .error .longInteger) ∧
      (∀ found, check bounds tree (.ofText source) = .ok found → found.length ≤ 1) ∧
      ((∀ n ∈ tree.nodes, isDescription n = false) →
        check bounds tree (.ofText source) =
          .ok [⟨id, "Description is required. See " ++ guidelines ++ "/DescriptionNotEmpty",
            ⟨(LineTable.ofText source).positionAt 0,
              (LineTable.ofText source).positionAt source.length⟩, .error⟩]) ∧
      ∀ e ∈ tree.nodes, isDescription e = true →
        (∀ n ∈ tree.nodes, isDescription n = true → e.start ≤ n.start) →
        DecidedBy source high shortest longest e
          (trim (Node.slices source (tree.textsWithin e))).length
          (check bounds tree (.ofText source)) := by
  obtain ⟨bounds, hmake, rfl, rfl⟩ := LengthBounds.exists_make_whole hlow hhigh hlt
  refine ⟨bounds, hmake, ?_, fun found => length_check_le, ?_, ?_⟩
  · intro n hn
    rw [hn, Quantity.text, Value.integerText_eq]
  · intro hnone
    obtain ⟨nodes, rfl, _⟩ := Node.forest_of_parse h
    have hrange := LineTable.rangeOf_whole source
    rw [check, finding?, find?_eq_none hnone]
    simp only [report_of_message (f := .missing) rfl, Node.stop, Nat.cast_zero, hrange]
    rfl
  · intro e he hdescription hfirst
    have helement := isElement_of_isDescription hdescription
    rw [← Node.contentValue_eq_slices h he helement]
    apply decidedBy_of_find? hlow hhigh (find?_eq_some_of_first h he hdescription hfirst)
    obtain ⟨nodes, rfl, _, hplaced, _⟩ := Node.forest_of_parse h
    exact hplaced e (Node.mem_preorderAll_of_mem_nodes he (Or.inl helement))

/--
A description that is never closed, with a text of its own, one in an element and a CDATA section.
A later description and a text before it do not count.
-/
theorem check_decided_by_length_never_closed :
    ∃ source tree e bounds,
      source = "<p>u<Description> a<q>b<![CDATA[<c]]></p><description/>".toList ∧
      parse source = .ok tree ∧
      (-3 : Int) < 3 ∧
      LengthBounds.make (.integer (-3)) (.integer 3) = .ok bounds ∧
      e ∈ tree.nodes ∧ e.contentSpan = (17, 37) ∧
      DecidedBy source (.integer 3) (-3) 3 e "ab<c".length
        (check bounds tree (.ofText source)) := by
  obtain ⟨tree, e, hparse, hmem, hdescription, hfirst, hvalue, hspan⟩ :
      ∃ tree e,
        parse "<p>u<Description> a<q>b<![CDATA[<c]]></p><description/>".toList = .ok tree ∧
        e ∈ tree.nodes ∧ isDescription e = true ∧
        (∀ n ∈ tree.nodes, isDescription n = true → e.start ≤ n.start) ∧
        e.contentValue = " ab<c".toList ∧ e.contentSpan = (17, 37) := by
    refine ⟨.document 55
        [.element ⟨['p'], [], 0, 3, some 37, 41, false⟩
          [.text 3 4 ['u'],
            .element ⟨"Description".toList, [], 4, 17, none, 37, false⟩
              [.text 17 19 " a".toList,
                .element ⟨['q'], [], 19, 22, none, 37, false⟩
                  [.text 22 23 ['b'], .text 32 34 "<c".toList]]],
          .element ⟨"description".toList, [], 41, 55, none, 55, true⟩ []],
      .element ⟨"Description".toList, [], 4, 17, none, 37, false⟩
        [.text 17 19 " a".toList,
          .element ⟨['q'], [], 19, 22, none, 37, false⟩
            [.text 22 23 ['b'], .text 32 34 "<c".toList]], ?_⟩
    refine ⟨by with_unfolding_all rfl, ?_, ?_⟩
    · simp [Node.nodes_eq_cons, Node.beneath_eq_preorderAll, Node.children]
    · decide +kernel
  have hlow : (Quantity.integer (-3)).whole? = some (-3) := rfl
  have hhigh : (Quantity.integer 3).whole? = some 3 := rfl
  obtain ⟨bounds, hmake, _, _, _, hdecided⟩ :=
    check_decided_by_length hparse hlow hhigh (by decide)
  have hfound := hdecided e hmem hdescription hfirst
  rw [← Node.contentValue_eq_slices hparse hmem (isElement_of_isDescription hdescription),
    hvalue] at hfound
  exact ⟨_, tree, e, bounds, rfl, hparse, by decide, hmake, hmem, hspan, hfound⟩

/-- What checking a description that is too long comes to. -/
theorem check_of_tooLong
    {tree e : Node} {bounds : LengthBounds} {lines : LineTable} {shortest longest : Int}
    (hfind : find? tree = some e)
    (hshortest : bounds.shortest.whole? = some shortest)
    (hlongest : bounds.longest.whole? = some longest)
    (hlong : 1 ≤ (trim e.contentValue).length ∧ longest < ((trim e.contentValue).length : Int)) :
    check bounds tree lines =
      bounds.longest.text.map fun shown =>
        [⟨id, "Description should not exceed " ++ shown ++ " characters. See " ++ guidelines ++
            "/DescriptionCharacterCountMaximum",
          lines.rangeOf e.contentSpan.1 e.contentSpan.2, .error⟩] := by
  have hjudge := (judge_whole_iff _ hshortest hlongest).2.2.1.mpr hlong
  rw [check, finding?, hfind]
  simp only [hjudge, Option.map_some, report, Finding.message]
  cases bounds.longest.text <;> rfl

/-- The rule fails if an upper bound that is exceeded has too many digits. -/
theorem check_of_digits
    {tree e : Node} {bounds : LengthBounds} {lines : LineTable} {shortest longest : Int}
    (hfind : find? tree = some e)
    (hshortest : bounds.shortest = .integer shortest)
    (hlongest : bounds.longest = .integer longest)
    (hlong : 1 ≤ (trim e.contentValue).length ∧ longest < ((trim e.contentValue).length : Int))
    (hdigits : 10 ^ digitLimit ≤ longest.natAbs) :
    check bounds tree lines = .error .longInteger := by
  have htext : bounds.longest.text = .error .longInteger := by
    rw [hlongest, Quantity.text, Value.integerText_eq, if_neg (not_lt.mpr hdigits)]
  have hlow : bounds.shortest.whole? = some shortest := by
    rw [hshortest, Quantity.whole?]
  have hhigh : bounds.longest.whole? = some longest := by
    rw [hlongest, Quantity.whole?]
  rw [check_of_tooLong hfind hlow hhigh hlong, htext]
  rfl

/-- A description with a text and without attributes, at the start of a manifest. -/
def descriptionOf (value : List Char) : Node :=
  .element ⟨"description".toList, [], 0, 13, some (value.length + 13), value.length + 27, false⟩
    [.text 13 (value.length + 13) value]

/-- The tree of a manifest that is nothing else. -/
def onlyDescription (value : List Char) : Node :=
  .document (value.length + 27) [descriptionOf value]

theorem find?_onlyDescription (value : List Char) :
    find? (onlyDescription value) = some (descriptionOf value) := by
  with_unfolding_all rfl

/--
A bound far below zero is exceeded by every description, but it has too many digits to be shown:
the rule fails.  A bound that is a truth value is shown as one.
-/
theorem check_shows_no_number :
    (∃ tree bounds,
      parse "<description>x</description>".toList = .ok tree ∧
      LengthBounds.make (.integer (-10 ^ (digitLimit + 1))) (.integer (-10 ^ digitLimit)) =
        .ok bounds ∧
      check bounds tree (.ofText "<description>x</description>".toList) = .error .longInteger) ∧
    ∃ tree bounds range,
      parse "<description>ab</description>".toList = .ok tree ∧
      LengthBounds.make (.truth false) (.truth true) = .ok bounds ∧
      check bounds tree (.ofText "<description>ab</description>".toList) =
        .ok [⟨id, "Description should not exceed True characters. See " ++ guidelines ++
          "/DescriptionCharacterCountMaximum", range, .error⟩] := by
  constructor
  · have hparse : parse "<description>x</description>".toList = .ok (onlyDescription ['x']) := by
      with_unfolding_all rfl
    have hlt : (-10 ^ (digitLimit + 1) : Int) < -10 ^ digitLimit :=
      neg_lt_neg (pow_lt_pow_right₀ (by decide) (Nat.lt_succ_self digitLimit))
    have hsize : (-10 ^ digitLimit : Int).natAbs = 10 ^ digitLimit := by
      simp [Int.natAbs_pow]
    have hbelow : (-10 ^ digitLimit : Int) < ((1 : Nat) : Int) :=
      (neg_neg_of_pos (pow_pos (by decide) digitLimit)).trans (by decide)
    have hlength : (trim (descriptionOf ['x']).contentValue).length = 1 := by
      decide +kernel
    obtain ⟨bounds, hmake, hshortest, hlongest⟩ := LengthBounds.exists_make_integer hlt
    refine ⟨_, bounds, hparse, hmake, ?_⟩
    apply check_of_digits (find?_onlyDescription ['x']) hshortest hlongest
    · rw [hlength]
      exact ⟨le_rfl, hbelow⟩
    · exact hsize.ge
  · have hparse : parse "<description>ab</description>".toList =
        .ok (onlyDescription ['a', 'b']) := by
      with_unfolding_all rfl
    exact ⟨_, ⟨.truth false, .truth true, by decide⟩, _, hparse, rfl,
      check_of_tooLong (find?_onlyDescription ['a', 'b']) rfl rfl (by decide +kernel)⟩

end Description
end NuspecLint

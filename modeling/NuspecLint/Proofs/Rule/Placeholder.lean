import NuspecLint.Proofs.Markup.Content
import NuspecLint.Proofs.Markup.Unterminated
import NuspecLint.Proofs.Position
import NuspecLint.Proofs.Text.Lowering
import NuspecLint.Rule.Placeholder

/-!
# Which placeholders are reported

The rule lowers every text of a manifest and looks for placeholders in what it gets.  Here its
reports are said by the characters of the manifest alone.

**Results.**
* `Placeholder.isLeftOver_extract_iff`: a text is found to hold a placeholder exactly if one stands
  in its span, letters compared up to their case in ASCII.
* `Placeholder.check_reports_left_over`: exactly the texts with a placeholder in their span are
  reported, each once, in order, and on exactly that span.
-/

namespace NuspecLint
namespace Text

theorem occursIn_eq_true_iff
    {t s : List Char} :
    occursIn t s = true ↔ t <:+: s := by
  rw [occursIn, Option.isSome_iff_ne_none, ne_eq, splitAt?_eq_none_iff, not_not]

/-- What occurs in a slice of a text is itself a slice, inside the other. -/
theorem infix_extract_iff
    {source window : List Char} {start stop : Nat}
    (hle : start ≤ stop)
    (hlength : stop ≤ source.length) :
    window <:+: source.extract start stop ↔
      ∃ i, start ≤ i ∧ i + window.length ≤ stop ∧
        source.extract i (i + window.length) = window := by
  have hslice : (source.extract start stop).length = stop - start := by
    rw [List.extract_eq_take_drop, List.length_take, List.length_drop]
    omega
  constructor
  · rintro ⟨u, v, hwindow⟩
    have hdrop : source.drop start = u ++ (window ++ (v ++ source.drop stop)) := by
      have hsplit := (List.take_append_drop (stop - start) (source.drop start)).symm
      rw [← List.extract_eq_take_drop, List.drop_drop, Nat.add_sub_cancel' hle] at hsplit
      rw [hsplit, ← hwindow]
      simp
    have hsum := congrArg List.length hwindow
    rw [hslice, List.length_append, List.length_append] at hsum
    exact ⟨start + u.length, by omega, by omega, Markup.extract_eq_of_drop_eq u window hdrop⟩
  · rintro ⟨i, hi, hstop, heq⟩
    refine ⟨source.extract start i, source.extract (i + window.length) stop, ?_⟩
    nth_rewrite 1 [← heq]
    rw [Markup.extract_append_extract source hi (by omega),
      Markup.extract_append_extract source (by omega) hstop]

end Text

open Text Markup

namespace Placeholder

/--
A placeholder stands in the span `[start, stop)` of `source`, letters compared up to their case in
ASCII.
-/
def StandsIn (source : List Char) (start stop : Nat) : Prop :=
  ∃ t ∈ placeholders, ∃ i,
    start ≤ i ∧ i + t.length ≤ stop ∧
    (source.extract i (i + t.length)).map Char.toLower = t

/-- The placeholders hold none of the letters that characters beyond ASCII are lowered to. -/
theorem fromAscii_of_mem_placeholders
    {t : List Char}
    (ht : t ∈ placeholders) :
    t ≠ [] ∧ ∀ d ∈ t, FromAscii d := by
  have htable : placeholders.all (fun t =>
      !t.isEmpty && t.all fun d => d.toNat < 0x80 && d != 'i' && d != 'k') = true := by
    decide
  simp only [List.all_eq_true, Bool.and_eq_true, Bool.not_eq_true', List.isEmpty_eq_false_iff,
    decide_eq_true_eq, bne_iff_ne] at htable
  obtain ⟨hne, hchars⟩ := htable t ht
  exact ⟨hne, fun d hd => ⟨(hchars d hd).1.1, (hchars d hd).1.2, (hchars d hd).2⟩⟩

/-- A slice of a text is found to hold a placeholder exactly if one stands in it. -/
theorem isLeftOver_extract_iff
    {source : List Char} {start stop : Nat}
    (hle : start ≤ stop)
    (hlength : stop ≤ source.length) :
    isLeftOver (source.extract start stop) = true ↔ StandsIn source start stop := by
  simp only [isLeftOver, List.any_eq_true, StandsIn]
  refine exists_congr fun t => and_congr_right fun ht => ?_
  obtain ⟨hne, hchars⟩ := fromAscii_of_mem_placeholders ht
  rw [occursIn_eq_true_iff, infix_lower_iff hne hchars]
  constructor
  · rintro ⟨window, hwindow, rfl⟩
    obtain ⟨i, hi, hstop, heq⟩ := (infix_extract_iff hle hlength).mp hwindow
    rw [List.length_map]
    exact ⟨i, hi, hstop, by rw [heq]⟩
  · rintro ⟨i, hi, hstop, heq⟩
    have hwindow : (source.extract i (i + t.length)).length = t.length := by
      rw [← List.length_map (f := Char.toLower), heq]
    refine ⟨source.extract i (i + t.length), ?_, heq⟩
    refine (infix_extract_iff hle hlength).mpr ⟨i, hi, ?_, ?_⟩
    · rw [hwindow]
      exact hstop
    · rw [hwindow]

/-- The diagnostic is the report about the text: an error on exactly its span. -/
structure Reports (source : List Char) (n : Node) (d : Diagnostic) : Prop where
  ruleId : d.ruleId = id
  message : d.message = "Templated value which should be removed"
  severity : d.severity = .error
  start : (LineTable.ofText source).offsetAt d.range.start = n.start
  stop : (LineTable.ofText source).offsetAt d.range.stop = n.stop

theorem reports_report
    {source : List Char} {n : Node}
    (hn : n.Placed source) :
    Reports source n (report (.ofText source) n) := by
  obtain ⟨hstart, hstop⟩ :=
    LineTable.offsetAt_rangeOf (t := .ofText source) hn.start_le_stop hn.stop_le_length
  exact ⟨rfl, rfl, rfl, hstart, hstop⟩

/--
**Placeholders are reported where they stand.**  The texts with a placeholder in their span, letters
compared up to their case in ASCII, are reported in order, each by one diagnostic on exactly its
span, and nothing else is reported.
-/
theorem check_reports_left_over
    {source : List Char} {tree : Node}
    (h : parse source = .ok tree) :
    ∃ flagged : List Node,
      (∀ n, n ∈ flagged ↔
        n ∈ tree.nodes ∧ n.isText = true ∧ StandsIn source n.start n.stop) ∧
      flagged.Pairwise (fun m n => m.start < n.start ∧ m.stop ≤ n.start) ∧
      List.Forall₂ (Reports source) flagged (check tree (.ofText source)) := by
  have hapart := Node.texts_apart_of_parse h
  obtain ⟨nodes, rfl, _, hplaced, _⟩ := Node.forest_of_parse h
  have htext : ∀ n ∈ (Node.document source.length nodes).nodes, n.isText = true →
      n.Placed source ∧ (isLeftOver n.textValue = true ↔ StandsIn source n.start n.stop) := by
    intro n hn hkind
    have hplacedNode := hplaced n (Node.mem_preorderAll_of_mem_nodes hn (Or.inr hkind))
    refine ⟨hplacedNode, ?_⟩
    cases n with
    | document | element =>
        cases hkind
    | text start stop value =>
        obtain ⟨hle, hlength, rfl⟩ := hplacedNode
        exact isLeftOver_extract_iff hle hlength
  refine ⟨_, ?_, hapart.filter fun n => isLeftOver n.textValue, ?_⟩
  · intro n
    rw [List.mem_filter, List.mem_filter, and_assoc]
    exact and_congr_right fun hn => and_congr_right fun hkind => (htext n hn hkind).2
  · rw [check, Node.descendants_true, List.forall₂_map_right_iff, List.forall₂_same]
    intro n hn
    obtain ⟨hn, hkind⟩ := List.mem_filter.mp (List.mem_of_mem_filter hn)
    exact reports_report (htext n hn hkind).1

/--
Capital letters and a CDATA section count; an attribute, and a letter beyond ASCII whose upper-case
form is an `S`, do not.
-/
theorem check_reports_left_over_mixture :
    ∃ source tree,
      source = "<a>__RePlace<![CDATA[TAG1]]><b c='tag1'>\u017Fpace_separated</b></a>".toList ∧
      parse source = .ok tree ∧
      (check tree (.ofText source)).map Diagnostic.range =
        [⟨⟨0, 3⟩, ⟨0, 12⟩⟩, ⟨⟨0, 21⟩, ⟨0, 25⟩⟩] ∧
      ∃ flagged : List Node,
        (∀ n, n ∈ flagged ↔
          n ∈ tree.nodes ∧ n.isText = true ∧ StandsIn source n.start n.stop) ∧
        flagged.Pairwise (fun m n => m.start < n.start ∧ m.stop ≤ n.start) ∧
        List.Forall₂ (Reports source) flagged (check tree (.ofText source)) := by
  have hparse :
      parse "<a>__RePlace<![CDATA[TAG1]]><b c='tag1'>\u017Fpace_separated</b></a>".toList =
        .ok (.document 63
          [.element ⟨['a'], [], 0, 3, some 59, 63, false⟩
            [.text 3 12 "__RePlace".toList, .text 21 25 "TAG1".toList,
              .element ⟨['b'], [⟨['c'], "tag1".toList, 31, 39⟩], 28, 40, some 55, 59, false⟩
                [.text 40 55 "\u017Fpace_separated".toList]]]) := by
    with_unfolding_all rfl
  exact ⟨_, _, rfl, hparse, by decide +kernel, check_reports_left_over hparse⟩

end Placeholder

end NuspecLint

import NuspecLint.Proofs.Markup.NewlineStyle
import NuspecLint.Proofs.Text.Case
import NuspecLint.Analysis

/-!
# Rules and line ends

What the rules report about trees that differ in line ends.

**View.**  A report is compared by what is printed of it: the rule, the message and the place at
which it starts.

**Results.**
* `Placeholder.check_alike`: left-over placeholders are reported alike.
* `Description.check_alike_iff`: the description is reported alike exactly if its length is judged
  alike, since a line end of two characters counts as two.
-/

namespace NuspecLint
namespace Text

theorem occursIn_normalizeNewlines
    {t : List Char}
    (ht : OneLine t)
    (hne : t ≠ [])
    (s : List Char) :
    occursIn t (normalizeNewlines s) = occursIn t s := by
  rw [occursIn, occursIn, splitAt?_normalizeNewlines ht hne, Option.isSome_map]

end Text

namespace Markup
namespace Node

open Text

variable {same : Nat → Nat → Prop} {m n : Node} {xs ys : List Node}

theorem Alike.isDescription
    (h : m.Alike same n) :
    Description.isDescription n = Description.isDescription m := by
  rcases h.inversion with
    ⟨_, _, _, _, rfl, rfl, _⟩ | ⟨_, _, _, _, rfl, rfl, helement, _⟩ |
    ⟨_, _, _, _, _, rfl, rfl, _⟩
  · rfl
  · simp [Description.isDescription, isElement, name, helement.name]
  · rfl

end Node
end Markup

open Text Markup

/-- What is printed of a diagnostic. -/
def Diagnostic.shown (d : Diagnostic) : String × String × Position :=
  (d.ruleId, d.message, d.range.start)

section Rules

variable {source source' : List Char} {tree tree' : Node}

theorem Placeholder.isLeftOver_normalizeNewlines (s : List Char) :
    isLeftOver (normalizeNewlines s) = isLeftOver s := by
  have hline : ∀ t ∈ placeholders, OneLine t ∧ t ≠ [] := by
    simp [placeholders, OneLine]
  unfold isLeftOver
  simp only [lower_normalizeNewlines]
  rw [Bool.eq_iff_iff, List.any_eq_true, List.any_eq_true]
  refine exists_congr fun t => and_congr_right fun ht => ?_
  rw [occursIn_normalizeNewlines (hline t ht).1 (hline t ht).2]

/-- Left-over placeholders are reported alike. -/
theorem Placeholder.check_alike
    (h : tree.Alike (SamePosition source source') tree') :
    (check tree' (.ofText source')).map Diagnostic.shown =
      (check tree (.ofText source)).map Diagnostic.shown := by
  have hleft := List.rel_filter
    (p := fun n => isLeftOver n.textValue) (q := fun n => isLeftOver n.textValue)
    (fun m n hmn => by simp only [hmn.textValue, isLeftOver_normalizeNewlines])
    (h.descendants Node.Alike.isText true)
  unfold check
  rw [List.map_map, List.map_map]
  apply Node.map_eq_of_forall₂ hleft
  intro m n hmn
  simp only [Function.comp, Diagnostic.shown, report, LineTable.rangeOf_start, Prod.mk.injEq,
    true_and]
  exact hmn.start.symm

theorem toList_inj
    {α : Type} {x y : Option α} :
    x.toList = y.toList ↔ x = y := by
  cases x <;> cases y <;> simp

/-- At most one thing is reported about a description. -/
theorem Description.runRule_value
    (b : LengthBounds) (tree : Node) (lines : LineTable) :
    (runRule tree lines (.description b)).value =
      ((finding? b tree).bind fun found => (report b lines found.2 found.1).toOption).toList := by
  simp only [runRule, Rule.check, check]
  cases finding? b tree with
  | none =>
      rfl
  | some found =>
      simp only [Option.bind_some]
      cases report b lines found.2 found.1 <;> rfl

/-- The twentieth character of its message, by which a finding is told from the others. -/
def Description.Finding.mark : Finding → Char
  | missing => 'i'
  | tooShort => 'b'
  | tooLong => 'n'

theorem Description.mark_append
    {s t : String} {c : Char}
    (h : s.toList[19]? = some c) :
    (s ++ t).toList[19]? = some c := by
  obtain ⟨hlt, _⟩ := List.getElem?_eq_some_iff.mp h
  rw [String.toList_append, List.getElem?_append_left hlt, h]

theorem Description.Finding.message_mark
    {b : LengthBounds} {f : Finding} {message : String}
    (h : f.message b = .ok message) :
    message.toList[19]? = some f.mark := by
  cases f with
  | missing | tooShort =>
      cases h
      exact mark_append (mark_append rfl)
  | tooLong =>
      rw [Finding.message] at h
      cases hshown : b.longest.text with
      | error f =>
          rw [hshown] at h
          cases h
      | ok shown =>
          rw [hshown] at h
          cases h
          exact mark_append (mark_append (mark_append (mark_append rfl)))

/-- Different findings have different messages. -/
theorem Description.eq_of_message
    {b : LengthBounds} {f g : Finding} {message : String}
    (hf : f.message b = .ok message)
    (hg : g.message b = .ok message) :
    f = g := by
  have hmark := (Finding.message_mark hf).symm.trans (Finding.message_mark hg)
  rw [Option.some.injEq] at hmark
  cases f <;> cases g <;> first | rfl | exact absurd hmark (by decide)

/-- The finding can be put into words: it shows no bound, or one that can be shown. -/
def Description.Finding.Sayable (b : LengthBounds) (f : Finding) : Prop :=
  ∃ message, f.message b = .ok message

/-- Two findings, if any, are the same, apart from any that cannot be put into words. -/
def Description.SameSayable (b : LengthBounds) (x y : Option Finding) : Prop :=
  ∀ f : Finding, f.Sayable b → (x = some f ↔ y = some f)

/-- Unifying line ends does not change what can be said about the length of the description. -/
def Description.JudgedAlike (b : LengthBounds) (tree : Node) : Prop :=
  ∀ e, find? tree = some e →
    SameSayable b (judge b (trim e.unifiedContent).length) (judge b (trim e.contentValue).length)

theorem Description.find?_alike
    {same : Nat → Nat → Prop}
    (h : tree.Alike same tree') :
    Option.Rel (Node.Alike same) (find? tree) (find? tree') := by
  have hfound := h.descendants Node.Alike.isDescription false
  unfold find?
  generalize tree.descendants isDescription false = found at hfound ⊢
  generalize tree'.descendants isDescription false = found' at hfound ⊢
  cases hfound with
  | nil =>
      exact Option.Rel.none
  | cons hmn _ =>
      exact Option.Rel.some hmn

/-- What is printed of the report about a finding, if it can be made. -/
def Description.shownFinding?
    (b : LengthBounds) (place : Position) (f : Finding) : Option (String × String × Position) :=
  (f.message b).toOption.map fun message => (id, message, place)

theorem Description.shownFinding?_eq_some_iff
    {b : LengthBounds} {place : Position} {f : Finding} {shown : String × String × Position} :
    shownFinding? b place f = some shown ↔
      ∃ message, f.message b = .ok message ∧ (id, message, place) = shown := by
  rw [shownFinding?]
  cases f.message b <;> simp [Except.toOption]

theorem Description.map_shown_runRule
    (b : LengthBounds) (tree : Node) (lines : LineTable) :
    (runRule tree lines (.description b)).value.map Diagnostic.shown =
      ((finding? b tree).bind fun found =>
        shownFinding? b (lines.positionAt found.2.1) found.1).toList := by
  rw [runRule_value]
  cases finding? b tree with
  | none =>
      rfl
  | some found =>
      simp only [Option.bind_some, report, shownFinding?]
      cases found.1.message b with
      | error f =>
          rfl
      | ok message =>
          simp [Except.map, Except.toOption, Diagnostic.shown, LineTable.rangeOf_start]

/-- What is printed of the reports is the same if what can be said is. -/
theorem Description.bind_shownFinding_eq_iff
    {b : LengthBounds} {place : Position} {x y : Option Finding} :
    x.bind (shownFinding? b place) = y.bind (shownFinding? b place) ↔ SameSayable b x y := by
  constructor
  · intro h f hf
    obtain ⟨message, hmessage⟩ := hf
    have hspoken : ∀ {z : Option Finding},
        z = some f ↔ z.bind (shownFinding? b place) = some (id, message, place) := by
      intro z
      rw [Option.bind_eq_some_iff]
      constructor
      · rintro rfl
        exact ⟨f, rfl, shownFinding?_eq_some_iff.mpr ⟨message, hmessage, rfl⟩⟩
      · rintro ⟨g, rfl, hg⟩
        obtain ⟨message', hmessage', heq⟩ := shownFinding?_eq_some_iff.mp hg
        simp only [Prod.mk.injEq, true_and, and_true] at heq
        subst heq
        rw [eq_of_message hmessage' hmessage]
    rw [hspoken, hspoken, h]
  · intro h
    ext shown
    simp only [Option.bind_eq_some_iff, shownFinding?_eq_some_iff]
    refine exists_congr fun f => ?_
    constructor
    · rintro ⟨hx, message, hmessage, heq⟩
      exact ⟨(h f ⟨message, hmessage⟩).mp hx, message, hmessage, heq⟩
    · rintro ⟨hy, message, hmessage, heq⟩
      exact ⟨(h f ⟨message, hmessage⟩).mpr hy, message, hmessage, heq⟩

/-- The description is reported alike exactly if its length is judged alike. -/
theorem Description.check_alike_iff
    (b : LengthBounds)
    (h : tree.Alike (SamePosition source source') tree') :
    (runRule tree' (.ofText source') (.description b)).value.map Diagnostic.shown =
        (runRule tree (.ofText source) (.description b)).value.map Diagnostic.shown ↔
      JudgedAlike b tree := by
  rw [map_shown_runRule, map_shown_runRule, toList_inj]
  have hfound := find?_alike h
  unfold finding? JudgedAlike
  generalize find? tree = found at hfound ⊢
  generalize find? tree' = found' at hfound ⊢
  cases hfound with
  | none =>
      have hzero : ∀ s, (LineTable.ofText s).positionAt 0 = ⟨0, 0⟩ :=
        fun s => LineTable.positionAt_append (v := s) cleanCut_nil
      simp [hzero]
  | @some e e' halike =>
      have hspot : SamePosition source source' e.contentSpan.1 e'.contentSpan.1 :=
        halike.contentStart
      simp only [Option.some.injEq, forall_eq', halike.contentValue, Option.bind_map,
        Function.comp_def]
      rw [← hspot]
      exact bind_shownFinding_eq_iff

end Rules

section Pairs

variable {s : List Char}

/-- Where no line end has two characters, unifying them changes characters only. -/
theorem Text.normalizeNewlines_eq_map
    (h : ¬ ['\r', '\n'] <:+: s) :
    normalizeNewlines s = s.map lineFeed := by
  induction s using newline_induction with
  | nil =>
      rfl
  | crlf s _ =>
      exact absurd ⟨[], s, rfl⟩ h
  | cons c s hclean ih =>
      rw [normalizeNewlines_cons hclean, ih (fun hs => h (hs.trans (List.suffix_cons c s).isInfix)),
        List.map_cons]

theorem Text.length_trim_map_lineFeed (s : List Char) :
    (trim (s.map lineFeed)).length = (trim s).length := by
  have hblank : isBlank ∘ lineFeed = isBlank :=
    funext fun _ => apply_lineFeed (by decide)
  unfold trim
  rw [List.dropWhile_map, hblank, ← List.map_reverse, List.dropWhile_map, hblank]
  simp

/-- A description in a text without line ends of two characters keeps its length. -/
theorem Description.judgedAlike_of_not_infix
    {source : List Char} {tree : Node} (b : LengthBounds)
    (h : parse source = .ok tree)
    (hpairs : ¬ ['\r', '\n'] <:+: source) :
    JudgedAlike b tree := by
  intro e he
  obtain ⟨newest, rfl, hlevel⟩ := level_of_parse h
  have hmem : e ∈ Node.preorderAll newest.reverse := by
    have hfound := List.mem_of_head? he
    rw [Node.descendants, Node.walk_eq_preorderAll] at hfound
    exact List.mem_of_mem_filter hfound
  have hplaced := hlevel.placed_reverse.beneath hmem
  have htexts : ∀ t ∈ e.descendants Node.isText false,
      normalizeNewlines t.textValue = t.textValue.map lineFeed := by
    intro t ht
    rw [Node.descendants, Node.walk_eq_preorderAll] at ht
    have htext := hplaced t (List.mem_of_mem_filter ht)
    apply normalizeNewlines_eq_map
    cases t with
    | document | element =>
        simp [Node.textValue]
    | text start stop value =>
        obtain ⟨_, _, rfl⟩ := htext
        rw [Node.textValue, List.extract_eq_take_drop]
        intro hwithin
        exact hpairs (hwithin.trans
          ((List.take_prefix _ _).isInfix.trans (List.drop_suffix _ _).isInfix))
  have hcontent : e.unifiedContent = e.contentValue.map lineFeed := by
    rw [Node.unifiedContent, Node.contentValue, List.map_flatMap, List.flatMap_def,
      List.flatMap_def, List.map_congr_left htexts]
  rw [hcontent, length_trim_map_lineFeed]
  exact fun _ _ => Iff.rfl

end Pairs

end NuspecLint

import NuspecLint.Proofs.Markup.Placement
import NuspecLint.Proofs.Markup.Scan

/-!
# Spans of a parsed text

The spans of a document tree form a family that is nested as the tree is.

**Invariant.**  While a text is scanned, the finished nodes directly inside an open element
follow one another from the end of its start tag up to the next open element or, in the
innermost one, up to the place the scan has come to.  The ends of open elements are not known
yet; whenever one is fixed, the element is the newest node of its level.

**Results.**
* `Spine.FitsAt.step`: reading a piece keeps the invariant.
* `parse_spans_laminar`: the spans of a parsed text, and that they decide which node is below
  which element.
-/

namespace NuspecLint
namespace Markup

open Node

/-- The finished nodes directly inside one element, newest first, fill `[lo, hi)` in order. -/
structure Level (source : List Char) (lo hi : Nat) (newest : List Node) : Prop where
  placed : PlacedAll source newest
  inside : ∀ n ∈ newest, n.Inside lo hi
  ordered : newest.Pairwise (fun d c => Before c d)
  lo_le_hi : lo ≤ hi
  hi_le : hi ≤ source.length

namespace Level

variable {source : List Char} {lo mid hi : Nat} {newest : List Node}

theorem empty
    (hle : lo ≤ hi)
    (hlen : hi ≤ source.length) :
    Level source lo hi [] := by
  constructor
  · simp
  · simp
  · simp
  · exact hle
  · exact hlen

theorem mono
    (h : Level source lo mid newest)
    (hle : mid ≤ hi)
    (hlen : hi ≤ source.length) :
    Level source lo hi newest := by
  refine ⟨h.placed, ?_, h.ordered, Nat.le_trans h.lo_le_hi hle, hlen⟩
  intro n hn
  have hin := h.inside n hn
  have h₁ := hin.start_lt
  have h₂ := hin.stop_le
  exact ⟨hin.lo_le, by omega, by omega⟩

theorem row
    (h : Level source lo hi newest) :
    Row lo hi newest.reverse := by
  constructor
  · intro n hn
    exact h.inside n (List.mem_reverse.mp hn)
  · exact List.pairwise_reverse.mpr h.ordered

theorem placed_reverse
    (h : Level source lo hi newest) :
    PlacedAll source newest.reverse := by
  intro n hn
  exact h.placed n (mem_preorderAll_reverse.mp hn)

/-- A level grows by a node that starts where it has come to, or later. -/
theorem add
    {n : Node}
    (h : Level source lo mid newest)
    (hplaced : PlacedAll source [n])
    (hstart : mid ≤ n.start)
    (hstop : mid < n.stop)
    (hlt : n.start < hi)
    (hle : n.stop ≤ hi)
    (hlen : hi ≤ source.length)
    (htext : n.isText = true → ∀ c ∈ newest, c.isText = true → c.stop < n.start) :
    Level source lo hi (n :: newest) := by
  have hmid := h.lo_le_hi
  have hgrown := h.mono (by omega) hlen
  constructor
  · simp only [placedAll_cons, placedAll_nil, and_true] at hplaced ⊢
    exact ⟨hplaced.1, hplaced.2, h.placed⟩
  · intro c hc
    rcases List.mem_cons.mp hc with rfl | hc
    · exact ⟨by omega, hlt, hle⟩
    · exact hgrown.inside c hc
  · refine List.pairwise_cons.mpr ⟨?_, h.ordered⟩
    intro c hc
    have hin := h.inside c hc
    have h₁ := hin.start_lt
    have h₂ := hin.stop_le
    exact ⟨by omega, by omega, by omega, fun hct hnt => htext hnt c hc hct⟩
  · omega
  · exact hlen

end Level

/-- The levels of a tree under construction, each up to the next open element. -/
inductive Fits (source : List Char) : Nat → List OpenElement → List Node → Prop
  | outermost
      {limit : Nat} {newest : List Node}
      (hlevel : Level source 0 limit newest) :
      Fits source limit [] newest
  | inner
      {limit : Nat} {e : OpenElement} {outer : List OpenElement} {newest : List Node}
      (hstart : e.start < e.startTagEnd)
      (hlevel : Level source e.startTagEnd limit e.newest)
      (houter : Fits source e.start outer newest) :
      Fits source limit (e :: outer) newest

namespace Spine

/-- The tree under construction accounts for the text up to `limit`. -/
def FitsAt (source : List Char) (limit : Nat) (s : Spine) : Prop :=
  Fits source limit s.opened s.newest

variable {source : List Char} {s : Spine}

theorem fitsAt_empty (source : List Char) :
    empty.FitsAt source 0 :=
  Fits.outermost (Level.empty (Nat.le_refl 0) (Nat.zero_le _))

/-- A change of the innermost level only. -/
theorem FitsAt.modifyNewest
    {f : List Node → List Node} {mid hi : Nat}
    (h : s.FitsAt source mid)
    (hf : ∀ lo newest, Level source lo mid newest → Level source lo hi (f newest)) :
    (s.modifyNewest f).FitsAt source hi := by
  obtain ⟨opened, newest⟩ := s
  cases h with
  | outermost hlevel =>
      exact Fits.outermost (hf _ _ hlevel)
  | inner hstart hlevel houter =>
      exact Fits.inner hstart (hf _ _ hlevel) houter

theorem FitsAt.mono
    {mid hi : Nat}
    (h : s.FitsAt source mid)
    (hle : mid ≤ hi)
    (hlen : hi ≤ source.length) :
    s.FitsAt source hi := by
  obtain ⟨opened, newest⟩ := s
  cases h with
  | outermost hlevel =>
      exact Fits.outermost (hlevel.mono hle hlen)
  | inner hstart hlevel houter =>
      exact Fits.inner hstart (hlevel.mono hle hlen) houter

/-- The finished nodes outside all open elements are a level of their own. -/
theorem FitsAt.level_newest
    {limit : Nat}
    (h : s.FitsAt source limit) :
    Level source 0 limit s.newest := by
  obtain ⟨opened, newest⟩ := s
  unfold FitsAt at h
  simp only at h ⊢
  induction h with
  | outermost hlevel =>
      exact hlevel
  | inner hstart hlevel _ ih =>
      have hle := hlevel.lo_le_hi
      exact ih.mono (by omega) hlevel.hi_le

theorem FitsAt.limit_le
    {limit : Nat}
    (h : s.FitsAt source limit) :
    limit ≤ source.length :=
  h.level_newest.hi_le

end Spine

/-- An open element that is closed is placed with all it holds. -/
theorem placedAll_close
    {source : List Char} {e : OpenElement} {endTagStart : Option Nat} {limit stop : Nat}
    (hstart : e.start < e.startTagEnd)
    (hlevel : Level source e.startTagEnd limit e.newest)
    (hcontent : endTagStart.getD stop = limit)
    (htag : ∀ q, endTagStart = some q → q < stop)
    (hle : limit ≤ stop)
    (hlen : stop ≤ source.length) :
    PlacedAll source [e.close endTagStart stop] := by
  simp only [placedAll_cons, placedAll_nil, and_true]
  refine ⟨⟨hlen, ?_⟩, hlevel.placed_reverse⟩
  constructor
  · exact hstart
  · change e.startTagEnd ≤ endTagStart.getD stop
    rw [hcontent]
    exact hlevel.lo_le_hi
  · change endTagStart.getD stop ≤ stop
    omega
  · exact htag
  · simp
  · change Row e.startTagEnd (endTagStart.getD stop) e.newest.reverse
    rw [hcontent]
    exact hlevel.row

namespace Spine

variable {source : List Char}

/-- Closing the innermost open element makes it the newest node of the level around it. -/
theorem FitsAt.close
    {e : OpenElement} {outer : List OpenElement} {newest : List Node}
    {endTagStart : Option Nat} {limit stop : Nat}
    (h : FitsAt source limit ⟨e :: outer, newest⟩)
    (hcontent : endTagStart.getD stop = limit)
    (htag : ∀ q, endTagStart = some q → q < stop)
    (hle : limit ≤ stop)
    (hlen : stop ≤ source.length) :
    (add (e.close endTagStart stop) ⟨outer, newest⟩).FitsAt source stop := by
  cases h with
  | inner hstart hlevel houter =>
      have hplaced := placedAll_close hstart hlevel hcontent htag hle hlen
      have hlimit := hlevel.lo_le_hi
      have hspine : FitsAt source e.start ⟨outer, newest⟩ := houter
      apply hspine.modifyNewest
      intro lo nodes hnodes
      apply hnodes.add hplaced
      · exact Nat.le_refl e.start
      · change e.start < stop
        omega
      · change e.start < stop
        omega
      · exact Nat.le_refl stop
      · exact hlen
      · simp [OpenElement.close, isText]

theorem FitsAt.abandon
    {limit : Nat} (count : Nat) {s : Spine}
    (h : s.FitsAt source limit) :
    (s.abandon limit count).FitsAt source limit := by
  induction count generalizing s with
  | zero =>
      exact h
  | succ count ih =>
      obtain ⟨opened, newest⟩ := s
      cases opened with
      | nil =>
          exact h
      | cons e outer =>
          exact ih (h.close rfl (by simp) (Nat.le_refl limit) h.limit_le)

theorem FitsAt.closeInnermost
    {start stop : Nat} {s : Spine}
    (h : s.FitsAt source start)
    (hlt : start < stop)
    (hlen : stop ≤ source.length) :
    (s.closeInnermost start stop).FitsAt source stop := by
  obtain ⟨opened, newest⟩ := s
  cases opened with
  | nil =>
      exact h.mono (Nat.le_of_lt hlt) hlen
  | cons e outer =>
      apply h.close
      · rfl
      · rintro q hq
        cases hq
        exact hlt
      · exact Nat.le_of_lt hlt
      · exact hlen

/-- What putting a run of text behind finished nodes can do. -/
theorem appendRun_cases (start : Nat) (run : List Char) (newest : List Node) :
    (∃ first value rest,
      newest = .text first start value :: rest ∧
      appendRun start run newest =
        .text first (start + run.length) (value ++ run) :: rest) ∨
    ((∀ n ∈ newest.head?, n.isText = true → n.stop ≠ start) ∧
      appendRun start run newest = .text start (start + run.length) run :: newest) := by
  cases newest with
  | nil =>
      exact Or.inr ⟨by simp, rfl⟩
  | cons n rest =>
      cases n with
      | document length nodes =>
          exact Or.inr ⟨by simp [isText], rfl⟩
      | element e nodes =>
          exact Or.inr ⟨by simp [isText], rfl⟩
      | text first stop value =>
          by_cases hstop : stop = start
          · subst hstop
            exact Or.inl ⟨first, value, rest, rfl, by simp [appendRun]⟩
          · exact Or.inr ⟨by simpa [isText, Node.stop] using hstop, by simp [appendRun, hstop]⟩

end Spine

/-- Characters known to stand in a text are a slice of it. -/
theorem extract_eq_of_drop_eq
    {source after : List Char} {pos : Nat}
    (before middle : List Char)
    (h : source.drop pos = before ++ (middle ++ after)) :
    source.extract (pos + before.length) (pos + before.length + middle.length) = middle := by
  rw [List.extract_eq_take_drop, ← List.drop_drop, h]
  simp

/-- Two slices that touch make one. -/
theorem extract_append_extract
    (source : List Char) {a b c : Nat}
    (hab : a ≤ b)
    (hbc : b ≤ c) :
    source.extract a b ++ source.extract b c = source.extract a c := by
  obtain ⟨k, rfl⟩ := Nat.exists_eq_add_of_le hab
  obtain ⟨l, rfl⟩ := Nat.exists_eq_add_of_le hbc
  simp only [List.extract_eq_take_drop]
  rw [show a + k - a = k by omega, show a + k + l - (a + k) = l by omega,
    show a + k + l - a = k + l by omega, List.take_add, List.drop_drop]

namespace Level

variable {source : List Char} {lo pos : Nat} {newest : List Node}

/-- Only the newest node of a level can end where the level has come to. -/
theorem text_stop_lt
    (h : Level source lo pos newest)
    (hhead : ∀ n ∈ newest.head?, n.isText = true → n.stop ≠ pos)
    {c : Node}
    (hc : c ∈ newest)
    (htext : c.isText = true) :
    c.stop < pos := by
  cases newest with
  | nil =>
      simp at hc
  | cons n rest =>
      have hn := (h.inside n (by simp)).stop_le
      rcases List.mem_cons.mp hc with rfl | hc
      · have hne := hhead c (by simp) htext
        omega
      · have hlt := ((List.pairwise_cons.mp h.ordered).1 c hc).stop_lt_stop
        omega

/-- A level grows by a run of text that stands where it has come to. -/
theorem appendRun
    {run after : List Char}
    (h : Level source lo pos newest)
    (hrun : run ≠ [])
    (hdrop : source.drop pos = run ++ after)
    (hlen : pos + run.length ≤ source.length) :
    Level source lo (pos + run.length) (Spine.appendRun pos run newest) := by
  have hpos := List.length_pos_iff.mpr hrun
  have hslice : source.extract pos (pos + run.length) = run :=
    extract_eq_of_drop_eq [] run hdrop
  rcases Spine.appendRun_cases pos run newest with
    ⟨first, value, rest, hnewest, heq⟩ | ⟨hhead, heq⟩
  · rw [heq]
    subst hnewest
    obtain ⟨⟨hle, _, hvalue⟩, _, hrest⟩ := placedAll_cons.mp h.placed
    obtain ⟨hbefore, hordered⟩ := List.pairwise_cons.mp h.ordered
    have hfirst := h.inside _ List.mem_cons_self
    have hgrown := h.mono (Nat.le_add_right pos run.length) hlen
    constructor
    · refine placedAll_cons.mpr ⟨⟨by omega, hlen, ?_⟩, by simp [children], hrest⟩
      have htouch := extract_append_extract source hle (Nat.le_add_right pos run.length)
      rwa [hslice, ← hvalue] at htouch
    · intro n hn
      rcases List.mem_cons.mp hn with rfl | hn
      · have hlt := hfirst.start_lt
        exact ⟨hfirst.lo_le, Nat.lt_of_lt_of_le hlt (Nat.le_add_right pos run.length),
          Nat.le_refl _⟩
      · exact hgrown.inside n (List.mem_cons_of_mem _ hn)
    · refine List.pairwise_cons.mpr ⟨?_, hordered⟩
      intro c hc
      have hb := hbefore c hc
      have hlt : c.stop < pos := hb.stop_lt_stop
      exact ⟨hb.stop_le_start, hb.start_lt_start,
        Nat.lt_of_lt_of_le hlt (Nat.le_add_right pos run.length),
        fun hct _ => hb.stop_lt_start hct rfl⟩
    · exact hgrown.lo_le_hi
    · exact hlen
  · rw [heq]
    apply h.add
    · refine placedAll_cons.mpr ⟨⟨by omega, hlen, hslice.symm⟩, by simp [children], by simp⟩
    · exact Nat.le_refl pos
    · change pos < pos + run.length
      omega
    · change pos < pos + run.length
      omega
    · exact Nat.le_refl _
    · exact hlen
    · intro _ c hc hct
      exact h.text_stop_lt hhead hc hct

/-- A level grows by a text that starts after the place the level has come to. -/
theorem addText
    {start stop hi : Nat} {value : List Char}
    (h : Level source lo pos newest)
    (hstart : pos < start)
    (hle : start ≤ stop)
    (hlt : stop < hi)
    (hlen : hi ≤ source.length)
    (hvalue : value = source.extract start stop) :
    Level source lo hi (.text start stop value :: newest) := by
  apply h.add
  · exact placedAll_cons.mpr
      ⟨⟨hle, by omega, hvalue⟩, by simp [children], by simp⟩
  · exact Nat.le_of_lt hstart
  · change pos < stop
    omega
  · change start < hi
    omega
  · change stop ≤ hi
    omega
  · exact hlen
  · intro _ c hc _
    have hstop := (h.inside c hc).stop_le
    change c.stop < start
    omega

/-- A level grows by an element that closes itself. -/
theorem addSelfClosing
    {name : List Char} {attributes : List Attribute} {stop : Nat}
    (h : Level source lo pos newest)
    (hlt : pos < stop)
    (hlen : stop ≤ source.length) :
    Level source lo stop
      (.element ⟨name, attributes, pos, stop, none, stop, true⟩ [] :: newest) := by
  apply h.add
  · refine placedAll_cons.mpr ⟨⟨hlen, ?_⟩, by simp [children], by simp⟩
    exact ⟨hlt, Nat.le_refl stop, Nat.le_refl stop, by simp, by simp, ⟨by simp, by simp⟩⟩
  · exact Nat.le_refl pos
  · exact hlt
  · exact hlt
  · exact Nat.le_refl stop
  · exact hlen
  · simp [isText]

end Level

namespace Spine

variable {source : List Char} {s : Spine}

/-- Reading a piece keeps the invariant. -/
theorem FitsAt.step
    {pos : Nat} {p : Piece} {rest : List Char}
    (h : s.FitsAt source pos)
    (hdrop : source.drop pos = p.raw ++ rest)
    (hne : p.raw ≠ [])
    (hlen : pos + p.raw.length ≤ source.length) :
    (s.step pos p).FitsAt source (pos + p.raw.length) := by
  have hpos := List.length_pos_iff.mpr hne
  have hlt : pos < pos + p.raw.length := by omega
  cases p with
  | skipped kind body =>
      exact h.mono (Nat.le_of_lt hlt) hlen
  | cdata content =>
      have hraw : (Piece.cdata content).raw =
          Enclosure.cdata.opening ++ (content ++ Enclosure.cdata.terminator) := rfl
      have hslice :=
        extract_eq_of_drop_eq Enclosure.cdata.opening content
          (show source.drop pos = _ ++ (content ++ (Enclosure.cdata.terminator ++ rest)) by
            rw [hdrop, hraw]
            simp)
      have hlength : (Piece.cdata content).raw.length = 9 + (content.length + 3) := by
        rw [hraw]
        simp [Enclosure.opening, Enclosure.terminator]
        omega
      apply h.modifyNewest
      intro lo newest hlevel
      apply hlevel.addText
      · change pos < pos + 9
        omega
      · omega
      · change pos + 9 + content.length < _
        omega
      · exact hlen
      · exact hslice.symm
  | endTag tag =>
      simp only [Spine.step]
      split
      · exact h.mono (Nat.le_of_lt hlt) hlen
      · next depth _ =>
          exact (h.abandon depth).closeInnermost hlt hlen
  | startTag tag =>
      simp only [Spine.step]
      split
      · apply h.modifyNewest
        intro lo newest hlevel
        exact hlevel.addSelfClosing hlt hlen
      · exact Fits.inner hlt (Level.empty (Nat.le_refl _) hlen) h
  | text run =>
      apply h.modifyNewest
      intro lo newest hlevel
      exact hlevel.appendRun hne hdrop hlen

end Spine

theorem Scan.Step.fitsAt
    {source : List Char} {a b : Scan} {p : Piece}
    (h : Scan.Step a p b)
    (ha : a.Of source)
    (hfits : a.spine.FitsAt source a.pos) :
    b.spine.FitsAt source b.pos := by
  have hb := (h.of ha).pos_le
  rw [h.pos_eq] at hb
  rw [h.spine_eq, h.pos_eq]
  apply hfits.step
  · rw [ha.drop_eq, h.rest_eq]
  · exact h.raw_ne_nil
  · exact hb

/-- At every place the scan comes to, the tree under construction accounts for the text before. -/
theorem Scan.Run.fitsAt
    {source : List Char} {a : Scan} {ps : List Piece}
    (h : Scan.Run (Scan.initial source) ps a) :
    a.spine.FitsAt source a.pos := by
  have hinv :=
    h.invariant (fun a => a.Of source ∧ a.spine.FitsAt source a.pos)
      (fun hstep ha => ⟨hstep.of ha.1, hstep.fitsAt ha.1 ha.2⟩)
      ⟨Scan.of_initial source, Spine.fitsAt_empty source⟩
  exact hinv.2

theorem Scan.Of.pos_eq_length
    {source : List Char} {a : Scan}
    (h : a.Of source)
    (hrest : a.rest = []) :
    a.pos = source.length := by
  have hlen := congrArg List.length h.drop_eq
  rw [hrest, List.length_drop, List.length_nil] at hlen
  have hle := h.pos_le
  omega

/-- The children of a parsed document stand in order in the whole text. -/
theorem level_of_parse
    {source : List Char} {tree : Node}
    (h : parse source = .ok tree) :
    ∃ newest,
      tree = .document source.length newest.reverse ∧
      Level source 0 source.length newest := by
  obtain ⟨ps, last, hrun, hrest, rfl⟩ := parse_eq_ok_iff.mp h
  have hpos := hrun.of.pos_eq_length hrest
  have hfits := hrun.fitsAt
  rw [hpos] at hfits
  exact ⟨_, rfl, (hfits.abandon _).level_newest⟩

/-- What the spans of a node say about it and about the nodes directly below it. -/
structure Node.SpansFit (source : List Char) (n : Node) : Prop where
  start_le_stop : n.start ≤ n.stop
  stop_le_length : n.stop ≤ source.length
  text_value : ∀ start stop value,
    n = .text start stop value → value = source.extract start stop
  tags_ordered : ∀ e nodes, n = .element e nodes →
    e.start < e.startTagEnd ∧ e.startTagEnd ≤ e.stop ∧
    ∀ q, e.endTagStart = some q → e.startTagEnd ≤ q ∧ q < e.stop
  self_closing : ∀ e nodes, n = .element e nodes → e.selfClosing = true →
    nodes = [] ∧ e.endTagStart = none ∧ e.stop = e.startTagEnd
  children_inside : ∀ c ∈ n.children,
    n.contentSpan.1 ≤ c.start ∧ c.stop ≤ n.contentSpan.2
  children_ordered : n.children.IsChain (fun c d => c.stop ≤ d.start)

theorem Node.spansFit_element
    {source : List Char} {e : Element} {nodes : List Node}
    (h : (Node.element e nodes).Placed source) :
    (Node.element e nodes).SpansFit source := by
  have hlen := h.1
  have hbounds := h.start_le_stop
  obtain ⟨_, he⟩ := h
  have h₁ := he.startTagEnd_le
  have h₂ := he.contentEnd_le
  constructor
  · exact hbounds
  · exact hlen
  · intro start stop value heq
    cases heq
  · intro e' nodes' heq
    cases heq
    refine ⟨he.start_lt, Nat.le_trans h₁ h₂, ?_⟩
    intro q hq
    have hcontent : e.contentEnd = q := by
      simp [Element.contentEnd, hq]
    rw [hcontent] at h₁
    exact ⟨h₁, he.contentEnd_lt q hq⟩
  · intro e' nodes' heq hself
    cases heq
    exact he.selfClosing hself
  · intro c hc
    by_cases hself : e.selfClosing = true
    · obtain ⟨rfl, _⟩ := he.selfClosing hself
      simp [children] at hc
    · have hin := he.row.inside c hc
      simp only [contentSpan, hself, Bool.false_eq_true, if_false]
      exact ⟨hin.lo_le, hin.stop_le⟩
  · exact (he.row.ordered.imp Before.stop_le_start).isChain

theorem Node.spansFit_text
    {source : List Char} {start stop : Nat} {value : List Char}
    (h : (Node.text start stop value).Placed source) :
    (Node.text start stop value).SpansFit source := by
  obtain ⟨hle, hlen, hvalue⟩ := h
  constructor
  · exact hle
  · exact hlen
  · intro start' stop' value' heq
    cases heq
    exact hvalue
  · intro e nodes heq
    cases heq
  · intro e nodes heq
    cases heq
  · simp [children]
  · simp [children]

theorem Node.spansFit_document
    {source : List Char} {newest : List Node}
    (h : Level source 0 source.length newest) :
    (Node.document source.length newest.reverse).SpansFit source := by
  constructor
  · exact Nat.zero_le _
  · exact Nat.le_refl _
  · intro start stop value heq
    cases heq
  · intro e nodes heq
    cases heq
  · intro e nodes heq
    cases heq
  · intro c hc
    have hin := h.row.inside c hc
    exact ⟨hin.lo_le, hin.stop_le⟩
  · exact (h.row.ordered.imp Before.stop_le_start).isChain

/--
**Spans of a parsed text.**  The document covers the text, every node and its children stand in
order, no node occurs twice, and the nodes below an element are those whose span lies in the
element's and starts after it.
-/
theorem parse_spans_laminar
    {source : List Char} {tree : Node}
    (h : parse source = .ok tree) :
    (∃ nodes, tree = .document source.length nodes) ∧
    (∀ n ∈ tree.nodes, n.SpansFit source) ∧
    tree.nodes.Nodup ∧
    (∀ m ∈ tree.nodes, m.isElement = true → ∀ n ∈ tree.nodes,
      n ∈ m.beneath ↔ m.start < n.start ∧ n.stop ≤ m.stop) := by
  obtain ⟨newest, rfl, hlevel⟩ := level_of_parse h
  have hplaced := hlevel.placed_reverse
  have hordered := hlevel.row.ordered
  have hnodes : (Node.document source.length newest.reverse).nodes =
      .document source.length newest.reverse :: preorderAll newest.reverse := by
    rw [nodes_eq_cons, beneath_eq_preorderAll]
    rfl
  rw [hnodes]
  refine ⟨⟨_, rfl⟩, ?_, ?_, ?_⟩
  · intro n hn
    rcases List.mem_cons.mp hn with rfl | hn
    · exact spansFit_document hlevel
    · have hplacedNode := hplaced n hn
      cases n with
      | document length nodes =>
          exact False.elim hplacedNode
      | element e nodes =>
          exact spansFit_element hplacedNode
      | text start stop value =>
          exact spansFit_text hplacedNode
  · refine List.nodup_cons.mpr ⟨?_, ?_⟩
    · intro hmem
      exact hplaced _ hmem
    · refine (pairwise_start_lt hplaced hordered).imp ?_
      rintro m n hlt rfl
      omega
  · intro m hm helement n hn
    rcases List.mem_cons.mp hm with rfl | hm
    · simp [isElement] at helement
    · rw [beneath_eq_preorderAll]
      rcases List.mem_cons.mp hn with rfl | hn
      · -- The document starts first and is below nothing.
        constructor
        · intro hmem
          exact False.elim (hplaced _ (mem_preorderAll_of_beneath hm hmem))
        · rintro ⟨hlt, _⟩
          exact absurd hlt (Nat.not_lt_zero _)
      · exact mem_beneath_iff hplaced hordered hm hn

/-- An unclosed element around an empty section, both ended by the end tag of another. -/
theorem parse_spans_laminar_unclosed :
    ∃ tree,
      parse "<a><b>x<![CDATA[]]></a>y".toList = .ok tree ∧
      (∀ n ∈ tree.nodes, n.SpansFit "<a><b>x<![CDATA[]]></a>y".toList) ∧
      tree.nodes.Nodup ∧
      (∀ m ∈ tree.nodes, m.isElement = true → ∀ n ∈ tree.nodes,
        n ∈ m.beneath ↔ m.start < n.start ∧ n.stop ≤ m.stop) :=
  ⟨.document 24
    [.element ⟨['a'], [], 0, 3, some 19, 23, false⟩
      [.element ⟨['b'], [], 3, 6, none, 19, false⟩
        [.text 6 7 ['x'], .text 16 16 []]],
      .text 23 24 ['y']],
    by with_unfolding_all rfl,
    (parse_spans_laminar (by with_unfolding_all rfl)).2⟩

end Markup
end NuspecLint

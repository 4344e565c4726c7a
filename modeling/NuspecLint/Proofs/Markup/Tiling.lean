import NuspecLint.Proofs.Markup.Pattern
import NuspecLint.Proofs.Markup.Recovery

/-!
# Tilings of a parsed text

Every character of a parsed text belongs to exactly one part of the tree, or to a piece that
leaves nothing in it.

**View.**  The marks of a tree are its start tags, its texts and its end tags, from left to
right.  A tiling cuts the text into stretches, of which some stand for the marks of the tree and
the others are complete pieces that are skipped.

**Results.**
* `Scan.Step.tiled`: reading a piece extends a tiling of the text before it.
* `parse_lossless`: a parsed text is tiled by the marks of its tree and the skipped pieces.
-/

namespace NuspecLint
namespace Markup

open Text Node

/-- A part of a tree that stands in the text. -/
inductive Mark where
  | startTag (heading : Heading)
  | endTag (start stop : Nat)
  | text (start stop : Nat)

namespace Node

mutual

/-- The marks of a tree, from left to right. -/
def marks : Node → List Mark
  | document _ nodes => marksAll nodes
  | element e nodes =>
      .startTag e.heading ::
        (marksAll nodes ++ (e.endTagStart.map fun start => .endTag start e.stop).toList)
  | text start stop _ => [.text start stop]

/-- The marks of a list of trees. -/
def marksAll : List Node → List Mark
  | [] => []
  | n :: nodes => marks n ++ marksAll nodes

end

@[simp] theorem marksAll_append (xs ys : List Node) :
    marksAll (xs ++ ys) = marksAll xs ++ marksAll ys := by
  induction xs with
  | nil =>
      simp [marksAll]
  | cons n xs ih =>
      simp [marksAll, ih]

@[simp] theorem marksAll_singleton (n : Node) :
    marksAll [n] = n.marks := by
  simp [marksAll]

end Node

namespace Spine

/-- The marks of a tree under construction, from left to right. -/
def marksWith : List OpenElement → List Node → List Mark
  | [], newest => marksAll newest.reverse
  | e :: outer, newest =>
      marksWith outer newest ++ .startTag e.heading :: marksAll e.newest.reverse

def marks (s : Spine) : List Mark :=
  marksWith s.opened s.newest

theorem marks_add (n : Node) (s : Spine) :
    (s.add n).marks = s.marks ++ n.marks := by
  obtain ⟨opened, newest⟩ := s
  cases opened with
  | nil =>
      simp [marks, add, modifyNewest, marksWith]
  | cons e outer =>
      simp [marks, add, modifyNewest, marksWith, OpenElement.heading]

theorem marks_close
    (e : OpenElement) (outer : List OpenElement) (newest : List Node)
    (endTagStart : Option Nat) (stop : Nat) :
    (add (e.close endTagStart stop) ⟨outer, newest⟩).marks =
      marks ⟨e :: outer, newest⟩ ++
        (endTagStart.map fun start => .endTag start stop).toList := by
  rw [marks_add]
  simp [marks, marksWith, OpenElement.close, Node.marks, Element.heading, OpenElement.heading]

theorem marks_abandon (stop count : Nat) (s : Spine) :
    (s.abandon stop count).marks = s.marks := by
  induction count generalizing s with
  | zero =>
      rfl
  | succ count ih =>
      obtain ⟨opened, newest⟩ := s
      cases opened with
      | nil =>
          rfl
      | cons e outer =>
          simp only [abandon]
          rw [ih, marks_close]
          simp

theorem marks_finish (length : Nat) (s : Spine) :
    (s.finish length).marks = s.marks := by
  have hmarks := marks_abandon length s.opened.length s
  rw [marks, opened_abandon_length] at hmarks
  rw [← hmarks]
  rfl

/-- An end tag that closes an element adds its mark. -/
theorem marks_step_endTag
    {s : Spine} {tag : EndTag} {depth : Nat}
    (pos : Nat)
    (hdepth : depthOf? tag.name s.opened = some depth) :
    (s.step pos (.endTag tag)).marks =
      s.marks ++ [.endTag pos (pos + tag.raw.length)] := by
  have hstep : s.step pos (.endTag tag) =
      (s.abandon pos depth).closeInnermost pos (pos + tag.raw.length) := by
    simp [step, hdepth, Piece.raw]
  obtain ⟨inner, target, outer, hheadings, hlength, _⟩ := closes_of_depthOf? hdepth
  have hne : (s.abandon pos depth).headings ≠ [] := by
    rw [headings_abandon, headings, hheadings, ← hlength, List.drop_left]
    simp
  rw [hstep, ← marks_abandon pos depth s]
  generalize s.abandon pos depth = mid at hne
  obtain ⟨opened, newest⟩ := mid
  cases opened with
  | nil =>
      exact absurd rfl hne
  | cons e outer =>
      simp only [closeInnermost]
      rw [marks_close]
      rfl

/-- A start tag adds its mark. -/
theorem marks_step_startTag (pos : Nat) (tag : StartTag) (s : Spine) :
    (s.step pos (.startTag tag)).marks =
      s.marks ++ [.startTag ⟨tag.name,
        attributesAt (pos + 1 + tag.name.length) tag.attributePart, pos,
        pos + tag.raw.length⟩] := by
  cases hself : tag.selfClosing with
  | true =>
      simp only [step, hself, if_true]
      rw [marks_add]
      simp [Node.marks, marksAll, Element.heading, Piece.raw]
  | false =>
      simp [step, hself, marks, marksWith, marksAll, OpenElement.heading, Piece.raw]

/-- A run of text is a mark of its own, or makes the mark it touches longer. -/
theorem marks_appendRun
    (start : Nat) (run : List Char) (s : Spine) :
    (s.modifyNewest (appendRun start run)).marks =
      s.marks ++ [.text start (start + run.length)] ∨
    ∃ front first,
      s.marks = front ++ [.text first start] ∧
      (s.modifyNewest (appendRun start run)).marks =
        front ++ [.text first (start + run.length)] := by
  obtain ⟨opened, newest⟩ := s
  cases opened with
  | nil =>
      rcases appendRun_cases start run newest with
        ⟨first, value, rest, rfl, heq⟩ | ⟨_, heq⟩
      · right
        refine ⟨marksAll rest.reverse, first, ?_, ?_⟩
        · simp [marks, marksWith, Node.marks]
        · simp [marks, marksWith, modifyNewest, heq, Node.marks]
      · left
        simp [marks, marksWith, modifyNewest, heq, Node.marks]
  | cons e outer =>
      rcases appendRun_cases start run e.newest with
        ⟨first, value, rest, hnewest, heq⟩ | ⟨_, heq⟩
      · right
        refine ⟨marksWith outer newest ++ .startTag e.heading :: marksAll rest.reverse,
          first, ?_, ?_⟩
        · simp [marks, marksWith, hnewest, Node.marks]
        · simp [marks, marksWith, modifyNewest, heq, Node.marks, OpenElement.heading]
      · left
        simp [marks, marksWith, modifyNewest, heq, Node.marks, OpenElement.heading]

end Spine

/-- A stretch of text. -/
inductive Tile where
  | startTag (heading : Heading)
  | endTag (start stop : Nat)
  /-- A text of the tree that is not from a CDATA section. -/
  | run (start stop : Nat)
  /-- A CDATA section with its delimiters. -/
  | cdata (start stop : Nat)
  /-- A comment, an instruction or a declaration. -/
  | skipped (kind : Enclosure) (start stop : Nat)
  /-- An end tag that closes nothing. -/
  | stray (name : List Char) (start stop : Nat)

namespace Tile

def start : Tile → Nat
  | startTag heading => heading.start
  | endTag start _ => start
  | run start _ => start
  | cdata start _ => start
  | skipped _ start _ => start
  | stray _ start _ => start

def stop : Tile → Nat
  | startTag heading => heading.startTagEnd
  | endTag _ stop => stop
  | run _ stop => stop
  | cdata _ stop => stop
  | skipped _ _ stop => stop
  | stray _ _ stop => stop

/-- The part of the tree that the stretch stands for; a CDATA section stands for its content. -/
def mark? : Tile → Option Mark
  | startTag heading => some (.startTag heading)
  | endTag start stop => some (.endTag start stop)
  | run start stop => some (.text start stop)
  | cdata start stop =>
      some (.text (start + Enclosure.cdata.opening.length)
        (stop - Enclosure.cdata.terminator.length))
  | skipped .. => none
  | stray .. => none

/-- The characters of the stretch are what it is said to be. -/
def Valid (source : List Char) (tree : Node) : Tile → Prop
  | startTag heading =>
      StartTag.Spelled heading.name (source.extract heading.start heading.startTagEnd)
  | endTag start stop =>
      ∃ name, EndTag.Spelled name (source.extract start stop)
  | run start stop =>
      ∀ i, start ≤ i → i < stop → ¬ BeginsMarkup (source.drop i)
  | cdata start stop =>
      ∃ content, source.extract start stop =
        Enclosure.cdata.opening ++ (content ++ Enclosure.cdata.terminator)
  | skipped kind start stop =>
      kind ≠ .cdata ∧ kind.Complete (source.extract start stop)
  | stray name start stop =>
      EndTag.Spelled name (source.extract start stop) ∧
      ∀ e ∈ tree.openAt start, lower e.name ≠ lower name

end Tile

/-- The stretches follow one another, without gap or overlap, from `lo` to `hi`. -/
def Covers : Nat → List Tile → Nat → Prop
  | lo, [], hi => lo = hi
  | lo, t :: tiles, hi => t.start = lo ∧ lo < t.stop ∧ Covers t.stop tiles hi

theorem covers_append
    {lo hi : Nat} {xs ys : List Tile} :
    Covers lo (xs ++ ys) hi ↔
      ∃ mid, Covers lo xs mid ∧ Covers mid ys hi := by
  induction xs generalizing lo with
  | nil =>
      simp [Covers]
  | cons t xs ih =>
      simp only [List.cons_append, Covers, ih]
      constructor
      · rintro ⟨hstart, hlt, mid, hxs, hys⟩
        exact ⟨mid, ⟨hstart, hlt, hxs⟩, hys⟩
      · rintro ⟨mid, ⟨hstart, hlt, hxs⟩, hys⟩
        exact ⟨hstart, hlt, mid, hxs, hys⟩

theorem Covers.le
    {lo hi : Nat} {tiles : List Tile}
    (h : Covers lo tiles hi) :
    lo ≤ hi := by
  induction tiles generalizing lo with
  | nil =>
      exact Nat.le_of_eq h
  | cons t tiles ih =>
      obtain ⟨_, hlt, htail⟩ := h
      have hle := ih htail
      omega

/-- The text up to `pos` is tiled by the marks of a tree under construction. -/
def Tiled (source : List Char) (tree : Node) (pos : Nat) (marks : List Mark) : Prop :=
  ∃ tiles,
    Covers 0 tiles pos ∧ tiles.filterMap Tile.mark? = marks ∧
    ∀ t ∈ tiles, t.Valid source tree

namespace Tiled

variable {source : List Char} {tree : Node} {pos : Nat} {marks : List Mark}

/-- A tiling grows by a stretch that starts where it ends. -/
theorem concat
    {t : Tile}
    (h : Tiled source tree pos marks)
    (hstart : t.start = pos)
    (hlt : pos < t.stop)
    (hvalid : t.Valid source tree) :
    Tiled source tree t.stop (marks ++ t.mark?.toList) := by
  obtain ⟨tiles, hcovers, hmarks, hall⟩ := h
  refine ⟨tiles ++ [t], ?_, ?_, ?_⟩
  · exact covers_append.mpr ⟨pos, hcovers, hstart, hlt, rfl⟩
  · rw [List.filterMap_append, hmarks]
    cases hmark : t.mark? <;> simp [hmark]
  · intro u hu
    rcases List.mem_append.mp hu with hu | hu
    · exact hall u hu
    · rw [List.mem_singleton.mp hu]
      exact hvalid

/-- A text that ends where a tiling ends is its last stretch, and not a CDATA section. -/
theorem exists_run
    {first : Nat}
    (h : Tiled source tree pos (marks ++ [.text first pos])) :
    first < pos ∧ Tiled source tree first marks ∧ (Tile.run first pos).Valid source tree := by
  obtain ⟨tiles, hcovers, hmarks, hall⟩ := h
  obtain ⟨xs, ys, rfl, hxs, hys⟩ := List.filterMap_eq_append_iff.mp hmarks
  obtain ⟨skipped, t, rest, rfl, hskipped, ht, hrest⟩ := List.filterMap_eq_cons_iff.mp hys
  obtain ⟨lo, hcoversXs, hcoversYs⟩ := covers_append.mp hcovers
  obtain ⟨mid, hcoversSkipped, hstart, hlt, hcoversRest⟩ := covers_append.mp hcoversYs
  have hvalid := hall t (by simp)
  have hle := hcoversRest.le
  cases t with
  | startTag heading =>
      simp [Tile.mark?] at ht
  | endTag start stop =>
      simp [Tile.mark?] at ht
  | skipped kind start stop =>
      simp [Tile.mark?] at ht
  | stray name start stop =>
      simp [Tile.mark?] at ht
  | cdata start stop =>
      simp only [Tile.mark?, Option.some.injEq, Mark.text.injEq] at ht
      simp only [Tile.stop] at hle hlt
      have hlen : Enclosure.cdata.terminator.length = 3 := rfl
      omega
  | run start stop =>
      simp only [Tile.mark?, Option.some.injEq, Mark.text.injEq] at ht
      obtain ⟨rfl, rfl⟩ := ht
      simp only [Tile.start] at hstart
      subst hstart
      refine ⟨hlt, ⟨xs ++ skipped, ?_, ?_, ?_⟩, hvalid⟩
      · exact covers_append.mpr ⟨lo, hcoversXs, hcoversSkipped⟩
      · rw [List.filterMap_append, hxs, List.filterMap_eq_nil_iff.mpr hskipped, List.append_nil]
      · intro u hu
        apply hall u
        rcases List.mem_append.mp hu with hu | hu
        · simp [hu]
        · simp [hu]

end Tiled

namespace Scan

theorem Step.reading
    {a b : Scan} {p : Piece}
    (h : Step a p b) :
    Piece.Reading a.rest p b.rest := by
  cases h with
  | read hnext =>
      exact Piece.reading_of_next hnext

/-- A piece is the slice of the text that the step takes in. -/
theorem Step.extract_eq
    {source : List Char} {a b : Scan} {p : Piece}
    (h : Step a p b)
    (ha : a.Of source) :
    source.extract a.pos b.pos = p.raw := by
  have hdrop : source.drop a.pos = [] ++ (p.raw ++ b.rest) := by
    rw [ha.drop_eq, h.rest_eq, List.nil_append]
  rw [h.pos_eq]
  exact extract_eq_of_drop_eq [] p.raw hdrop

section Tiled

variable {source : List Char} {tree : Node} {a b : Scan} {before : List Piece}

theorem Step.tiled_skipped
    {kind : Enclosure} {body : List Char}
    (h : Step a (.skipped kind body) b)
    (ha : a.Of source)
    (htiled : Tiled source tree a.pos a.spine.marks) :
    Tiled source tree b.pos b.spine.marks := by
  have hkind : kind ≠ .cdata := by
    cases h.reading with
    | skipped _ hkind _ =>
        exact hkind
  have hgrown :=
    htiled.concat (t := .skipped kind a.pos b.pos) rfl h.pos_lt
      ⟨hkind, by rw [h.extract_eq ha]; exact h.reading.complete⟩
  rw [h.spine_eq]
  simpa [Tile.mark?, Tile.stop, Spine.step] using hgrown

theorem Step.tiled_cdata
    {content : List Char}
    (h : Step a (.cdata content) b)
    (ha : a.Of source)
    (htiled : Tiled source tree a.pos a.spine.marks) :
    Tiled source tree b.pos b.spine.marks := by
  have hgrown :=
    htiled.concat (t := .cdata a.pos b.pos) rfl h.pos_lt
      ⟨content, by rw [h.extract_eq ha]; rfl⟩
  have hstop : b.pos - Enclosure.cdata.terminator.length =
      a.pos + Enclosure.cdata.opening.length + content.length := by
    rw [h.pos_eq]
    simp [Piece.raw]
    omega
  have hmarks : b.spine.marks = a.spine.marks ++
      [.text (a.pos + Enclosure.cdata.opening.length)
        (b.pos - Enclosure.cdata.terminator.length)] := by
    rw [h.spine_eq, hstop]
    exact Spine.marks_add _ _
  rw [hmarks]
  exact hgrown

theorem Step.tiled_startTag
    {tag : StartTag}
    (h : Step a (.startTag tag) b)
    (ha : a.Of source)
    (htiled : Tiled source tree a.pos a.spine.marks) :
    Tiled source tree b.pos b.spine.marks := by
  have hspelled : StartTag.Spelled tag.name (source.extract a.pos b.pos) := by
    rw [h.extract_eq ha]
    cases h.reading with
    | startTag hs hread =>
        rw [hs] at hread
        exact StartTag.spelled_of_read? hread
  have hgrown :=
    htiled.concat (t := .startTag ⟨tag.name,
      attributesAt (a.pos + 1 + tag.name.length) tag.attributePart, a.pos, b.pos⟩)
      rfl h.pos_lt hspelled
  have hmarks : b.spine.marks = a.spine.marks ++
      [.startTag ⟨tag.name,
        attributesAt (a.pos + 1 + tag.name.length) tag.attributePart, a.pos, b.pos⟩] := by
    rw [h.spine_eq, h.pos_eq]
    exact Spine.marks_step_startTag a.pos tag a.spine
  rw [hmarks]
  exact hgrown

theorem Step.tiled_endTag
    {tag : EndTag}
    (h : Step a (.endTag tag) b)
    (ha : a.Of source)
    (hopen : ∀ e ∈ tree.openAt a.pos, e.heading ∈ a.spine.headings)
    (htiled : Tiled source tree a.pos a.spine.marks) :
    Tiled source tree b.pos b.spine.marks := by
  have hspelled : EndTag.Spelled tag.name (source.extract a.pos b.pos) := by
    rw [h.extract_eq ha]
    cases h.reading with
    | endTag hs hread =>
        rw [hs] at hread
        exact EndTag.spelled_of_read? hread
  cases hdepth : Spine.depthOf? tag.name a.spine.opened with
  | none =>
      have hgrown :=
        htiled.concat (t := .stray tag.name a.pos b.pos) rfl h.pos_lt
          ⟨hspelled, fun e he => Spine.lower_ne_of_depthOf? hdepth _ (hopen e he)⟩
      rw [h.spine_eq]
      simpa [Tile.mark?, Tile.stop, Spine.step, hdepth] using hgrown
  | some depth =>
      have hgrown :=
        htiled.concat (t := .endTag a.pos b.pos) rfl h.pos_lt ⟨tag.name, hspelled⟩
      have hmarks : b.spine.marks = a.spine.marks ++ [.endTag a.pos b.pos] := by
        rw [h.spine_eq, h.pos_eq]
        exact Spine.marks_step_endTag a.pos hdepth
      rw [hmarks]
      exact hgrown

theorem Step.tiled_text
    {run : List Char}
    (h : Step a (.text run) b)
    (ha : a.Of source)
    (htiled : Tiled source tree a.pos a.spine.marks) :
    Tiled source tree b.pos b.spine.marks := by
  have hpos : b.pos = a.pos + run.length := h.pos_eq
  have hmarkup : ∀ i, a.pos ≤ i → i < b.pos → ¬ BeginsMarkup (source.drop i) := by
    intro i hle hlt
    have hread := h.reading.not_markup (i := i - a.pos) (by omega)
    rw [← ha.drop_eq, List.drop_drop, show a.pos + (i - a.pos) = i by omega] at hread
    exact hread
  rw [h.spine_eq, hpos]
  rcases Spine.marks_appendRun a.pos run a.spine with hmarks | ⟨front, first, hfront, hmarks⟩
  · have hgrown :=
      htiled.concat (t := .run a.pos b.pos) rfl h.pos_lt hmarkup
    rw [hpos] at hgrown
    exact hmarks ▸ hgrown
  · -- The run goes on where a text ends, so that the last stretch is replaced by a longer one.
    rw [hfront] at htiled
    obtain ⟨hfirst, hrest, hvalid⟩ := htiled.exists_run
    have hlt := h.pos_lt
    have hgrown :=
      hrest.concat (t := .run first b.pos) rfl (show first < b.pos by omega) (by
        intro i hle hi
        by_cases hcase : i < a.pos
        · exact hvalid i hle hcase
        · exact hmarkup i (by omega) hi)
    rw [hpos] at hgrown
    exact hmarks ▸ hgrown

/-- Reading a piece extends a tiling of the text before it. -/
theorem Step.tiled
    {p : Piece}
    (h : Step a p b)
    (ha : a.Of source)
    (hopen : ∀ e ∈ tree.openAt a.pos, e.heading ∈ a.spine.headings)
    (htiled : Tiled source tree a.pos a.spine.marks) :
    Tiled source tree b.pos b.spine.marks := by
  cases p with
  | skipped kind body =>
      exact h.tiled_skipped ha htiled
  | cdata content =>
      exact h.tiled_cdata ha htiled
  | endTag tag =>
      exact h.tiled_endTag ha hopen htiled
  | startTag tag =>
      exact h.tiled_startTag ha htiled
  | text run =>
      exact h.tiled_text ha htiled

/-- At every place the scan comes to, the text before is tiled. -/
theorem Run.tiled
    (hparse : parse source = .ok tree)
    (hrun : Run (initial source) before a)
    (hleads : a.Leads source tree) :
    Tiled source tree a.pos a.spine.marks := by
  have hinv :=
    hrun.invariant
      (fun a => (∃ before, Run (initial source) before a) ∧
        (a.Leads source tree → Tiled source tree a.pos a.spine.marks))
      (by
        rintro a b p hstep ⟨⟨before, hrun⟩, htiled⟩
        refine ⟨⟨_, hrun.concat hstep⟩, ?_⟩
        intro hleads
        have haLeads : a.Leads source tree := Leads.step hstep hleads
        apply hstep.tiled hrun.of _ (htiled haLeads)
        intro e he
        exact ((haLeads.mem_openAt_iff hparse hrun).mp he).2.2)
      ⟨⟨[], Run.refl _⟩, fun _ => ⟨[], rfl, rfl, by simp⟩⟩
  exact hinv.2 hleads

end Tiled

end Scan

/-- Consecutive texts of a parsed document do not touch. -/
theorem texts_apart
    {source : List Char} {tree n : Node}
    (h : parse source = .ok tree)
    (hn : n ∈ tree.nodes) :
    n.children.IsChain (fun c d => c.isText = true → d.isText = true → c.stop < d.start) := by
  obtain ⟨newest, rfl, hlevel⟩ := level_of_parse h
  have hordered : n.children.Pairwise Before := by
    rw [nodes_eq_cons, beneath_eq_preorderAll] at hn
    rcases List.mem_cons.mp hn with rfl | hn
    · exact hlevel.row.ordered
    · exact (hlevel.placed_reverse n hn).children_ordered
  exact (hordered.imp Before.stop_lt_start).isChain

/--
**Nothing is lost.**  A parsed text is cut without gap or overlap into the start tags, end tags
and texts of its tree and into complete pieces that are skipped; the texts that are not CDATA
sections hold no markup, and no two texts that follow one another touch.
-/
theorem parse_lossless
    {source : List Char} {tree : Node}
    (h : parse source = .ok tree) :
    (∃ tiles,
      Covers 0 tiles source.length ∧
      tiles.filterMap Tile.mark? = tree.marks ∧
      ∀ t ∈ tiles, t.Valid source tree) ∧
    ∀ n ∈ tree.nodes,
      n.children.IsChain (fun c d => c.isText = true → d.isText = true → c.stop < d.start) := by
  constructor
  · obtain ⟨ps, last, hrun, hrest, htree⟩ := parse_eq_ok_iff.mp h
    have htiled := hrun.tiled h (Scan.Leads.done hrest htree)
    rw [hrun.of.pos_eq_length hrest, ← Spine.marks_finish source.length, ← htree] at htiled
    exact htiled
  · intro n hn
    exact texts_apart h hn

/-- A `<` that begins no tag joins the text around it, and stray tags and comments are skipped. -/
theorem parse_lossless_mixture :
    ∃ source tree,
      source = "<a>1<2</b><!---->3<![CDATA[<]]></a>".toList ∧
      parse source = .ok tree ∧
      (∃ tiles,
        Covers 0 tiles source.length ∧
        tiles.filterMap Tile.mark? = tree.marks ∧
        ∀ t ∈ tiles, t.Valid source tree) ∧
      ∀ n ∈ tree.nodes,
        n.children.IsChain
          (fun c d => c.isText = true → d.isText = true → c.stop < d.start) := by
  have hparse : parse "<a>1<2</b><!---->3<![CDATA[<]]></a>".toList =
      .ok (.document 35
        [.element ⟨['a'], [], 0, 3, some 31, 35, false⟩
          [.text 3 6 ['1', '<', '2'], .text 17 18 ['3'], .text 27 28 ['<']]]) := by
    with_unfolding_all rfl
  exact ⟨_, _, rfl, hparse, parse_lossless hparse⟩

end Markup
end NuspecLint

import NuspecLint.Proofs.Markup.Effect

/-!
# Recovery from bad nesting

Which element an end tag ends, told from the finished tree alone.

**Argument.**  The scan decides from the elements that are open when it meets an end tag.  A
heading that is open at some place belongs to exactly one element of the finished tree, and the
elements of the tree that are open at that place are exactly these: an element finished before
has its content before the place, and one that is opened later starts after it.

**Results.**
* `Scan.Leads.mem_openAt_iff`: the elements of the tree that are open at a place of the scan.
* `parse_recovery`: the rule by which end tags end elements.
-/

namespace NuspecLint
namespace Markup

open Text Node

/-- The element is open at `p`: its content has started and has not ended before `p`. -/
def Element.OpenAt (p : Nat) (e : Element) : Prop :=
  e.selfClosing = false ∧ e.startTagEnd ≤ p ∧ p ≤ e.contentEnd

instance (p : Nat) (e : Element) : Decidable (e.OpenAt p) :=
  inferInstanceAs (Decidable (_ ∧ _ ∧ _))

/-- The elements of a tree that are open at `p`. -/
def Node.openAt (tree : Node) (p : Nat) : List Element :=
  tree.elements.filter fun e => decide (e.OpenAt p)

theorem Node.mem_openAt
    {tree : Node} {p : Nat} {e : Element} :
    e ∈ tree.openAt p ↔ e ∈ tree.elements ∧ e.OpenAt p := by
  simp [openAt]

/-- The scan of `source` reads the end tag `tag` at `p`. -/
def ReadsEndTag (source : List Char) (p : Nat) (tag : EndTag) : Prop :=
  ∃ before after,
    pieces source = .ok (before ++ .endTag tag :: after) ∧ p = (rawAll before).length

/-- Of some elements, `t` is the last to start of those that satisfy `P`. -/
def Innermost (opened : List Element) (P : Element → Prop) (t : Element) : Prop :=
  t ∈ opened ∧ P t ∧ ∀ e ∈ opened, P e → e.start ≤ t.start

/-- Of some open elements, `t` is the one that an end tag called `name` ends. -/
def Ends (opened : List Element) (name : List Char) (t : Element) : Prop :=
  Innermost opened (fun e => e.name = name) t ∨
  ((∀ e ∈ opened, e.name ≠ name) ∧
    Innermost opened (fun e => lower e.name = lower name) t)

/-- The element is ended by the end tag called `name` at `p`, or inside one that is. -/
def Node.EndedAt (tree : Node) (p : Nat) (name : List Char) (e : Element) : Prop :=
  ∃ t, Ends (tree.openAt p) name t ∧
    (e = t ∨ (e ∈ tree.openAt p ∧ t.start < e.start))

namespace Spine

variable {source : List Char} {s : Spine} {limit : Nat}

/-- Open elements have their start tags behind them. -/
theorem FitsAt.heading_bounds
    (h : s.FitsAt source limit) :
    ∀ k ∈ s.headings, k.start < k.startTagEnd ∧ k.startTagEnd ≤ limit := by
  obtain ⟨opened, newest⟩ := s
  unfold FitsAt at h
  simp only [headings] at h ⊢
  induction h with
  | outermost hlevel =>
      simp
  | @inner limit e outer newest hstart hlevel _ ih =>
      have hle := hlevel.lo_le_hi
      intro k hk
      rcases List.mem_cons.mp hk with rfl | hk
      · exact ⟨hstart, hle⟩
      · have hk := ih k hk
        exact ⟨hk.1, by omega⟩

/-- An open element starts after those around it. -/
theorem FitsAt.headings_ordered
    (h : s.FitsAt source limit) :
    s.headings.Pairwise (fun inner outer => outer.start < inner.start) := by
  obtain ⟨opened, newest⟩ := s
  unfold FitsAt at h
  simp only [headings] at h ⊢
  induction h with
  | outermost hlevel =>
      simp
  | @inner limit e outer newest _ _ houter ih =>
      refine List.pairwise_cons.mpr ⟨?_, ih⟩
      intro k hk
      have hspine : FitsAt source e.start ⟨outer, newest⟩ := houter
      have hbounds := hspine.heading_bounds k hk
      change k.start < e.start
      omega

end Spine

/-- Two elements of a parsed text that start at the same offset are one. -/
theorem element_eq_of_start_eq
    {source : List Char} {tree : Node} {d e : Element}
    (h : parse source = .ok tree)
    (hd : d ∈ tree.elements)
    (he : e ∈ tree.elements)
    (hstart : d.start = e.start) :
    d = e := by
  obtain ⟨newest, rfl, hlevel⟩ := level_of_parse h
  rw [elements_document] at hd he
  obtain ⟨m, hm, hmd⟩ := List.mem_filterMap.mp hd
  obtain ⟨n, hn, hne⟩ := List.mem_filterMap.mp he
  have hmn : m.start = n.start → m = n :=
    eq_of_start_eq hlevel.placed_reverse hlevel.row.ordered hm hn
  cases m with
  | document length nodes =>
      cases hmd
  | text start stop value =>
      cases hmd
  | element d' nodes =>
      cases n with
      | document length nodes =>
          cases hne
      | text start stop value =>
          cases hne
      | element e' nodes' =>
          cases hmd
          cases hne
          cases hmn hstart
          rfl

theorem element_start_lt
    {source : List Char} {tree : Node} {e : Element}
    (h : parse source = .ok tree)
    (he : e ∈ tree.elements) :
    e.start < e.startTagEnd := by
  obtain ⟨newest, rfl, hlevel⟩ := level_of_parse h
  rw [elements_document] at he
  obtain ⟨n, hn, hne⟩ := List.mem_filterMap.mp he
  have hplaced := hlevel.placed_reverse n hn
  cases n with
  | document length nodes =>
      cases hne
  | text start stop value =>
      cases hne
  | element e' nodes =>
      cases hne
      exact hplaced.2.start_lt

namespace Scan

/-- From the state `a` the scan goes on to the end of `source` and leaves `tree`. -/
inductive Leads (source : List Char) (tree : Node) : Scan → Prop
  | done
      {a : Scan}
      (hrest : a.rest = [])
      (htree : tree = a.spine.finish source.length) :
      Leads source tree a
  | step
      {a b : Scan} {p : Piece}
      (hstep : Step a p b)
      (hleads : Leads source tree b) :
      Leads source tree a

theorem Run.leads
    {source : List Char} {tree : Node} {a last : Scan} {ps : List Piece}
    (h : Run a ps last)
    (hlast : last.Leads source tree) :
    a.Leads source tree := by
  induction h with
  | refl a =>
      exact hlast
  | head hstep _ ih =>
      exact Leads.step hstep (ih hlast)

theorem Step.effect
    {a b : Scan} {p : Piece}
    (h : Step a p b) :
    Spine.Effect a.spine a.pos p b.spine := by
  rw [h.spine_eq]
  exact Spine.effect_step a.spine a.pos p

/-- Finished elements stay. -/
theorem Step.mem_elements
    {a b : Scan} {p : Piece} {e : Element}
    (h : Step a p b)
    (he : e ∈ a.spine.elements) :
    e ∈ b.spine.elements := by
  cases h.effect with
  | keeps _ hold _ _ =>
      exact hold e he
  | opens _ _ _ helements _ =>
      exact (helements e).mpr he
  | closes _ _ _ _ _ _ _ _ helements =>
      exact (helements e).mpr (Or.inl he)

section Leads

variable {source : List Char} {tree : Node} {a : Scan}

theorem Leads.mem_elements
    {e : Element}
    (h : a.Leads source tree)
    (he : e ∈ a.spine.elements) :
    e ∈ tree.elements := by
  induction h with
  | done _ htree =>
      rw [htree, Spine.mem_elements_finish]
      exact Or.inl he
  | step hstep _ ih =>
      exact ih (hstep.mem_elements he)

/-- An open element becomes an element of the tree, whose content goes at least so far. -/
theorem Leads.exists_of_heading
    {k : Heading}
    (h : a.Leads source tree)
    (ha : a.Of source)
    (hk : k ∈ a.spine.headings) :
    ∃ e ∈ tree.elements,
      e.heading = k ∧ e.selfClosing = false ∧ a.pos ≤ e.contentEnd := by
  induction h with
  | done _ htree =>
      refine ⟨k.ended none source.length, ?_, rfl, rfl, ha.pos_le⟩
      rw [htree, Spine.mem_elements_finish]
      exact Or.inr ⟨k, hk, rfl⟩
  | @step a b p hstep hleads ih =>
      have hlt := hstep.pos_lt
      have hlater : k ∈ b.spine.headings →
          ∃ e ∈ tree.elements,
            e.heading = k ∧ e.selfClosing = false ∧ a.pos ≤ e.contentEnd := by
        intro hkb
        obtain ⟨e, he, hheading, hself, hend⟩ := ih (hstep.of ha) hkb
        exact ⟨e, he, hheading, hself, by omega⟩
      cases hstep.effect with
      | keeps hheadings _ _ _ =>
          exact hlater (hheadings ▸ hk)
      | opens _ _ hheadings _ _ =>
          exact hlater (hheadings ▸ List.mem_cons_of_mem _ hk)
      | closes tag inner outer target _ hheadings _ houter helements =>
          rw [hheadings] at hk
          rcases List.mem_append.mp hk with hk | hk
          · refine ⟨k.ended none a.pos, ?_, rfl, rfl, Nat.le_refl _⟩
            exact hleads.mem_elements
              ((helements _).mpr (Or.inr (Or.inl ⟨k, hk, rfl⟩)))
          · rcases List.mem_cons.mp hk with rfl | hk
            · refine ⟨k.ended (some a.pos) (a.pos + tag.raw.length), ?_, rfl, rfl,
                Nat.le_refl _⟩
              exact hleads.mem_elements ((helements _).mpr (Or.inr (Or.inr rfl)))
            · exact hlater (houter ▸ hk)

/-- Where the elements of the tree come from. -/
theorem Leads.origin
    {e : Element}
    (h : a.Leads source tree)
    (ha : a.Of source)
    (he : e ∈ tree.elements)
    (hself : e.selfClosing = false) :
    e ∈ a.spine.elements ∨ e.heading ∈ a.spine.headings ∨ a.pos ≤ e.start := by
  induction h with
  | done _ htree =>
      rw [htree, Spine.mem_elements_finish] at he
      rcases he with he | ⟨k, hk, rfl⟩
      · exact Or.inl he
      · exact Or.inr (Or.inl hk)
  | @step a b p hstep _ ih =>
      have hlt := hstep.pos_lt
      have horigin := ih (hstep.of ha)
      cases hstep.effect with
      | keeps hheadings _ hnew _ =>
          rcases horigin with he | hk | hle
          · exact Or.inl (hnew e he hself)
          · exact Or.inr (Or.inl (hheadings ▸ hk))
          · exact Or.inr (Or.inr (by omega))
      | opens k hstart hheadings helements _ =>
          rcases horigin with he | hk | hle
          · exact Or.inl ((helements e).mp he)
          · rw [hheadings] at hk
            rcases List.mem_cons.mp hk with hk | hk
            · have hestart : e.start = k.start := congrArg Heading.start hk
              exact Or.inr (Or.inr (by omega))
            · exact Or.inr (Or.inl hk)
          · exact Or.inr (Or.inr (by omega))
      | closes tag inner outer target _ hheadings _ houter helements =>
          rw [hheadings]
          rcases horigin with he | hk | hle
          · rcases (helements e).mp he with he | ⟨k, hk, rfl⟩ | rfl
            · exact Or.inl he
            · exact Or.inr (Or.inl (by simp [hk]))
            · exact Or.inr (Or.inl (by simp))
          · rw [houter] at hk
            exact Or.inr (Or.inl (by simp [hk]))
          · exact Or.inr (Or.inr (by omega))

end Leads

/-- A finished element has its content behind the place the scan has come to. -/
theorem Run.contentEnd_lt
    {source : List Char} {a : Scan} {ps : List Piece} {e : Element}
    (h : Run (initial source) ps a)
    (he : e ∈ a.spine.elements)
    (hself : e.selfClosing = false) :
    e.contentEnd < a.pos := by
  have hinv :=
    h.invariant
      (fun a => ∀ e ∈ a.spine.elements, e.selfClosing = false → e.contentEnd < a.pos)
      (by
        intro a b p hstep ha e he hself
        have hlt := hstep.pos_lt
        cases hstep.effect with
        | keeps _ _ hnew _ =>
            have hold := ha e (hnew e he hself) hself
            omega
        | opens _ _ _ helements _ =>
            have hold := ha e ((helements e).mp he) hself
            omega
        | closes _ _ _ _ _ _ _ _ helements =>
            rcases (helements e).mp he with he | ⟨k, _, rfl⟩ | rfl
            · have hold := ha e he hself
              omega
            · exact hlt
            · exact hlt)
      (by simp [initial, Spine.empty, Spine.elements])
  exact hinv e he hself

/-- The elements of the tree that are open at a place of the scan are those open there. -/
theorem Leads.mem_openAt_iff
    {source : List Char} {tree : Node} {a : Scan} {ps : List Piece} {e : Element}
    (hparse : parse source = .ok tree)
    (hrun : Run (initial source) ps a)
    (h : a.Leads source tree) :
    e ∈ tree.openAt a.pos ↔
      e ∈ tree.elements ∧ e.selfClosing = false ∧ e.heading ∈ a.spine.headings := by
  rw [mem_openAt]
  constructor
  · rintro ⟨he, hself, hstart, hend⟩
    refine ⟨he, hself, ?_⟩
    rcases h.origin hrun.of he hself with hfinished | hk | hle
    · have hlt := hrun.contentEnd_lt hfinished hself
      omega
    · exact hk
    · have hlt := element_start_lt hparse he
      omega
  · rintro ⟨he, hself, hk⟩
    obtain ⟨d, hd, hheading, _, hend⟩ := h.exists_of_heading hrun.of hk
    have hde : d = e :=
      element_eq_of_start_eq hparse hd he (congrArg Heading.start hheading)
    subst hde
    exact ⟨he, hself, (hrun.fitsAt.heading_bounds _ hk).2, hend⟩

end Scan

section Ordered

variable {inner outer : List Heading} {target k : Heading}
  (hordered : (inner ++ target :: outer).Pairwise (fun k l => l.start < k.start))

include hordered

theorem start_lt_of_mem_inner
    (hk : k ∈ inner) :
    target.start < k.start :=
  (List.pairwise_append.mp hordered).2.2 k hk target (by simp)

theorem start_lt_of_mem_outer
    (hk : k ∈ outer) :
    k.start < target.start :=
  (List.pairwise_cons.mp (List.pairwise_append.mp hordered).2.1).1 k hk

theorem mem_inner_of_start_lt
    (hk : k ∈ inner ++ target :: outer)
    (hlt : target.start < k.start) :
    k ∈ inner := by
  rcases List.mem_append.mp hk with hk | hk
  · exact hk
  · rcases List.mem_cons.mp hk with rfl | hk
    · omega
    · have houter := start_lt_of_mem_outer hordered hk
      omega

theorem mem_outer_of_start_lt
    (hk : k ∈ inner ++ target :: outer)
    (hlt : k.start < target.start) :
    k ∈ outer := by
  rcases List.mem_append.mp hk with hk | hk
  · have hinner := start_lt_of_mem_inner hordered hk
    omega
  · rcases List.mem_cons.mp hk with rfl | hk
    · omega
    · exact hk

end Ordered

/-- In a row of headings, innermost first, the first that has a property is the last to start. -/
theorem innermost_iff
    {opened : List Element} {inner outer : List Heading} {target : Heading}
    {Q : List Char → Prop} {t : Element}
    (hheading : ∀ e ∈ opened, e.heading ∈ inner ++ target :: outer)
    (hexists : ∃ d ∈ opened, d.heading = target)
    (hordered : (inner ++ target :: outer).Pairwise (fun k l => l.start < k.start))
    (htarget : Q target.name)
    (hinner : ∀ k ∈ inner, ¬ Q k.name) :
    Innermost opened (fun e => Q e.name) t ↔
      t ∈ opened ∧ t.heading = target := by
  have hcases : ∀ e ∈ opened, Q e.name → e.heading = target ∨ e.start < target.start := by
    intro e he hQ
    rcases List.mem_append.mp (hheading e he) with hk | hk
    · exact absurd hQ (hinner _ hk)
    · rcases List.mem_cons.mp hk with hk | hk
      · exact Or.inl hk
      · exact Or.inr (start_lt_of_mem_outer hordered hk)
  constructor
  · rintro ⟨ht, hQ, hmax⟩
    refine ⟨ht, ?_⟩
    obtain ⟨d, hd, hdt⟩ := hexists
    have hdQ : Q d.name := by
      rw [← hdt] at htarget
      exact htarget
    have hle := hmax d hd hdQ
    have hdstart : d.start = target.start := congrArg Heading.start hdt
    rcases hcases t ht hQ with hk | hlt
    · exact hk
    · omega
  · rintro ⟨ht, rfl⟩
    refine ⟨ht, htarget, ?_⟩
    intro e he hQ
    rcases hcases e he hQ with hk | hlt
    · exact Nat.le_of_eq (congrArg Heading.start hk)
    · exact Nat.le_of_lt hlt

/-- The element that the scan closes is the one the rule names. -/
theorem ends_iff
    {opened : List Element} {inner outer : List Heading} {target : Heading}
    {name : List Char} {t : Element}
    (hheading : ∀ e ∈ opened, e.heading ∈ inner ++ target :: outer)
    (hexists : ∃ d ∈ opened, d.heading = target)
    (hordered : (inner ++ target :: outer).Pairwise (fun k l => l.start < k.start))
    (hcloses : Spine.Closes name inner target outer) :
    Ends opened name t ↔ t ∈ opened ∧ t.heading = target := by
  rcases hcloses with ⟨htarget, hinner⟩ | ⟨hnone, htarget, hinner⟩
  · have hiff :=
      @innermost_iff opened inner outer target (fun n => n = name) t
        hheading hexists hordered htarget hinner
    constructor
    · rintro (ht | ⟨hne, _⟩)
      · exact hiff.mp ht
      · obtain ⟨d, hd, rfl⟩ := hexists
        exact absurd htarget (hne d hd)
    · intro ht
      exact Or.inl (hiff.mpr ht)
  · have hiff :=
      @innermost_iff opened inner outer target (fun n => lower n = lower name) t
        hheading hexists hordered htarget hinner
    constructor
    · rintro (⟨ht, hname, _⟩ | ⟨_, ht⟩)
      · exact absurd hname (hnone _ (hheading t ht))
      · exact hiff.mp ht
    · intro ht
      refine Or.inr ⟨?_, hiff.mpr ht⟩
      intro e he
      exact hnone _ (hheading e he)

theorem Ends.lower_eq
    {opened : List Element} {name : List Char} {t : Element}
    (h : Ends opened name t) :
    t ∈ opened ∧ lower t.name = lower name := by
  rcases h with ⟨ht, hname, _⟩ | ⟨_, ht, hname, _⟩
  · have hname : t.name = name := hname
    exact ⟨ht, by rw [hname]⟩
  · exact ⟨ht, hname⟩

namespace Scan

theorem Leads.exists_run
    {source : List Char} {tree : Node} {a : Scan}
    (h : a.Leads source tree) :
    ∃ ps last, Run a ps last ∧ last.rest = [] := by
  induction h with
  | done hrest _ =>
      exact ⟨[], _, Run.refl _, hrest⟩
  | step hstep _ ih =>
      obtain ⟨ps, last, hrun, hrest⟩ := ih
      exact ⟨_, last, Run.head hstep hrun, hrest⟩

end Scan

/-- An end tag is read by a step of the scan. -/
theorem ReadsEndTag.exists_step
    {source : List Char} {tree : Node} {p : Nat} {tag : EndTag}
    (h : ReadsEndTag source p tag)
    (hparse : parse source = .ok tree) :
    ∃ before a b,
      Scan.Run (Scan.initial source) before a ∧ a.pos = p ∧
      Scan.Step a (.endTag tag) b ∧ b.Leads source tree := by
  obtain ⟨before, after, hpieces, rfl⟩ := h
  obtain ⟨last, hrun, hrest, htree⟩ := run_of_parse hparse hpieces
  obtain ⟨a, b, hbefore, hstep, hafter⟩ := hrun.step_of_append_cons
  refine ⟨before, a, b, hbefore, ?_, hstep, hafter.leads (Scan.Leads.done hrest htree)⟩
  rw [hbefore.pos_eq]
  simp [Scan.initial]

theorem readsEndTag_of_step
    {source : List Char} {tree : Node} {a b : Scan} {before : List Piece} {tag : EndTag}
    (hrun : Scan.Run (Scan.initial source) before a)
    (hstep : Scan.Step a (.endTag tag) b)
    (hleads : b.Leads source tree) :
    ReadsEndTag source a.pos tag := by
  obtain ⟨after, last, hafter, hrest⟩ := hleads.exists_run
  refine ⟨before, after, ?_, ?_⟩
  · apply pieces_eq_ok_iff.mpr
    exact ⟨last, Scan.run_append_iff.mpr ⟨a, hrun, Scan.Run.head hstep hafter⟩, hrest⟩
  · rw [hrun.pos_eq]
    simp [Scan.initial]

/-- An element that the scan has finished is the one of the tree with the same heading. -/
theorem ended_of_mem_elements
    {source : List Char} {tree : Node} {b : Scan} {e : Element}
    {endTagStart : Option Nat} {stop : Nat}
    (hparse : parse source = .ok tree)
    (hleads : b.Leads source tree)
    (he : e ∈ tree.elements)
    (hmem : e.heading.ended endTagStart stop ∈ b.spine.elements) :
    e.endTagStart = endTagStart ∧ e.stop = stop := by
  have heq : e = e.heading.ended endTagStart stop :=
    element_eq_of_start_eq hparse he (hleads.mem_elements hmem) rfl
  rw [heq]
  exact ⟨rfl, rfl⟩

section EndTag

variable {source : List Char} {tree : Node} {before : List Piece} {a b : Scan}
  (hparse : parse source = .ok tree)
  (hrun : Scan.Run (Scan.initial source) before a)

include hparse hrun

/-- Whatever is still open after a step stays open past the place of the step. -/
theorem lt_contentEnd_of_heading
    {p : Piece} {e : Element}
    (hstep : Scan.Step a p b)
    (hleads : b.Leads source tree)
    (he : e ∈ tree.openAt a.pos)
    (hk : e.heading ∈ b.spine.headings) :
    a.pos < e.contentEnd := by
  have heTree := (mem_openAt.mp he).1
  obtain ⟨d, hd, hheading, _, hend⟩ :=
    hleads.exists_of_heading (hstep.of hrun.of) hk
  have hde : d = e :=
    element_eq_of_start_eq hparse hd heTree (congrArg Heading.start hheading)
  subst hde
  have hlt := hstep.pos_lt
  omega

/-- A heading that is open in the scan belongs to an open element of the tree. -/
theorem exists_openAt_of_heading
    {k : Heading}
    (hleads : a.Leads source tree)
    (hk : k ∈ a.spine.headings) :
    ∃ d ∈ tree.openAt a.pos, d.heading = k := by
  obtain ⟨d, hd, rfl, hself, _⟩ := hleads.exists_of_heading hrun.of hk
  exact ⟨d, (hleads.mem_openAt_iff hparse hrun).mpr ⟨hd, hself, hk⟩, rfl⟩

/-- The element that the rule names is the one with the heading that the scan closes. -/
theorem ends_openAt_iff
    {name : List Char} {inner outer : List Heading} {target : Heading} {t : Element}
    (hleads : a.Leads source tree)
    (hheadings : a.spine.headings = inner ++ target :: outer)
    (hcloses : Spine.Closes name inner target outer) :
    Ends (tree.openAt a.pos) name t ↔
      t ∈ tree.openAt a.pos ∧ t.heading = target := by
  apply ends_iff _ _ _ hcloses
  · intro e he
    rw [← hheadings]
    exact ((hleads.mem_openAt_iff hparse hrun).mp he).2.2
  · apply exists_openAt_of_heading hparse hrun hleads
    rw [hheadings]
    simp
  · rw [← hheadings]
    exact hrun.fitsAt.headings_ordered

/-- What an end tag does to the elements that are open where it stands. -/
theorem endTag_effect
    {tag : EndTag}
    (hstep : Scan.Step a (.endTag tag) b)
    (hleads : b.Leads source tree) :
    (∀ t, Ends (tree.openAt a.pos) tag.name t →
      t.endTagStart = some a.pos ∧ t.stop = a.pos + tag.raw.length ∧
      (∀ e ∈ tree.openAt a.pos, t.start < e.start →
        e.stop = a.pos ∧ e.endTagStart = none) ∧
      (∀ e ∈ tree.openAt a.pos, e.start < t.start → a.pos < e.contentEnd)) ∧
    ((∀ t, ¬ Ends (tree.openAt a.pos) tag.name t) →
      ∀ e ∈ tree.openAt a.pos, a.pos < e.contentEnd) := by
  have haLeads : a.Leads source tree := Scan.Leads.step hstep hleads
  have hopen : ∀ e ∈ tree.openAt a.pos, e.heading ∈ a.spine.headings := by
    intro e he
    exact ((haLeads.mem_openAt_iff hparse hrun).mp he).2.2
  have hclosed : ∀ e ∈ tree.openAt a.pos, ∀ endTagStart stop,
      e.heading.ended endTagStart stop ∈ b.spine.elements →
      e.endTagStart = endTagStart ∧ e.stop = stop := by
    intro e he endTagStart stop
    exact ended_of_mem_elements hparse hleads (mem_openAt.mp he).1
  have hstays : ∀ e ∈ tree.openAt a.pos, e.heading ∈ b.spine.headings →
      a.pos < e.contentEnd := by
    intro e he
    exact lt_contentEnd_of_heading hparse hrun hstep hleads he
  cases hstep.effect with
  | opens _ _ _ _ htag =>
      exact absurd rfl (htag tag)
  | keeps hheadings _ _ hstray =>
      constructor
      · intro t ht
        obtain ⟨htOpen, hname⟩ := ht.lower_eq
        exact absurd hname (hstray tag rfl _ (hopen t htOpen))
      · intro _ e he
        exact hstays e he (hheadings ▸ hopen e he)
  | closes tag' inner outer target hpiece hheadings hcloses houter helements =>
      cases hpiece
      have hordered := hrun.fitsAt.headings_ordered
      rw [hheadings] at hordered hopen
      constructor
      · intro t ht
        obtain ⟨htOpen, rfl⟩ :=
          (ends_openAt_iff hparse hrun haLeads hheadings hcloses).mp ht
        obtain ⟨hend, hstop⟩ :=
          hclosed t htOpen _ _ ((helements _).mpr (Or.inr (Or.inr rfl)))
        refine ⟨hend, hstop, ?_, ?_⟩
        · intro e he hlt
          have hk := mem_inner_of_start_lt hordered (hopen e he) hlt
          have hinner := hclosed e he _ _
            ((helements _).mpr (Or.inr (Or.inl ⟨_, hk, rfl⟩)))
          exact ⟨hinner.2, hinner.1⟩
        · intro e he hlt
          have hk := mem_outer_of_start_lt hordered (hopen e he) hlt
          exact hstays e he (houter ▸ hk)
      · intro hnone
        have hk : target ∈ a.spine.headings := by
          rw [hheadings]
          simp
        obtain ⟨d, hd, hheading⟩ := exists_openAt_of_heading hparse hrun haLeads hk
        have hends :=
          (ends_openAt_iff hparse hrun haLeads hheadings hcloses).mpr ⟨hd, hheading⟩
        exact absurd hends (hnone d)

/-- An element that is finished by a step of the scan is ended by an end tag. -/
theorem endedAt_of_closes
    {tag : EndTag} {inner outer : List Heading} {target : Heading} {e : Element}
    (hstep : Scan.Step a (.endTag tag) b)
    (hleads : b.Leads source tree)
    (hheadings : a.spine.headings = inner ++ target :: outer)
    (hcloses : Spine.Closes tag.name inner target outer)
    (he : e ∈ tree.elements)
    (hself : e.selfClosing = false)
    (hk : e.heading ∈ inner ∨ e.heading = target) :
    tree.EndedAt a.pos tag.name e := by
  have haLeads : a.Leads source tree := Scan.Leads.step hstep hleads
  have htarget : target ∈ a.spine.headings := by
    rw [hheadings]
    simp
  obtain ⟨t, htOpen, htHeading⟩ := exists_openAt_of_heading hparse hrun haLeads htarget
  refine ⟨t, (ends_openAt_iff hparse hrun haLeads hheadings hcloses).mpr
    ⟨htOpen, htHeading⟩, ?_⟩
  have htStart : t.start = target.start := congrArg Heading.start htHeading
  rcases hk with hk | hk
  · have hkSpine : e.heading ∈ a.spine.headings := by
      rw [hheadings]
      simp [hk]
    refine Or.inr ⟨(haLeads.mem_openAt_iff hparse hrun).mpr ⟨he, hself, hkSpine⟩, ?_⟩
    have hordered := hrun.fitsAt.headings_ordered
    rw [hheadings] at hordered
    have hlt : target.start < e.start := start_lt_of_mem_inner hordered hk
    omega
  · left
    have heStart : e.start = target.start := congrArg Heading.start hk
    exact element_eq_of_start_eq hparse he (mem_openAt.mp htOpen).1 (by omega)

end EndTag

/-- How an element of the tree that is not finished at some place of the scan comes to its end. -/
theorem endedAt_or_unclosed
    {source : List Char} {tree : Node} {before : List Piece} {a : Scan} {e : Element}
    (hparse : parse source = .ok tree)
    (hrun : Scan.Run (Scan.initial source) before a)
    (hleads : a.Leads source tree)
    (he : e ∈ tree.elements)
    (hself : e.selfClosing = false) :
    e ∈ a.spine.elements ∨
    (∃ p tag, ReadsEndTag source p tag ∧ tree.EndedAt p tag.name e) ∨
    (e.stop = source.length ∧ e.endTagStart = none) := by
  induction hleads generalizing before with
  | done _ htree =>
      have hmem := he
      rw [htree, Spine.mem_elements_finish] at hmem
      rcases hmem with hmem | ⟨k, _, rfl⟩
      · exact Or.inl hmem
      · exact Or.inr (Or.inr ⟨rfl, rfl⟩)
  | @step a b p hstep hleads ih =>
      rcases ih (hrun.concat hstep) with hmem | hrest
      · cases hstep.effect with
        | keeps _ _ hnew _ =>
            exact Or.inl (hnew e hmem hself)
        | opens _ _ _ helements _ =>
            exact Or.inl ((helements e).mp hmem)
        | closes tag inner outer target hpiece hheadings hcloses _ helements =>
            subst hpiece
            have hended : e.heading ∈ inner ∨ e.heading = target →
                tree.EndedAt a.pos tag.name e :=
              endedAt_of_closes hparse hrun hstep hleads hheadings hcloses he hself
            have hread := readsEndTag_of_step hrun hstep hleads
            rcases (helements e).mp hmem with hmem | ⟨k, hk, rfl⟩ | rfl
            · exact Or.inl hmem
            · exact Or.inr (Or.inl ⟨a.pos, tag, hread, hended (Or.inl hk)⟩)
            · exact Or.inr (Or.inl ⟨a.pos, tag, hread, hended (Or.inr rfl)⟩)
      · exact Or.inr hrest

/--
**Recovery from bad nesting.**  An end tag ends the innermost open element of exactly its name,
failing that the innermost of its name up to case; what is open inside that element ends where
the tag starts, and what is open around it stays open.  If there is no such element, everything
stays open.  Elements that no end tag ends in this way run to the end of the text.
-/
theorem parse_recovery
    {source : List Char} {tree : Node}
    (h : parse source = .ok tree) :
    (∀ p tag, ReadsEndTag source p tag →
      (∀ t, Ends (tree.openAt p) tag.name t →
        t.endTagStart = some p ∧ t.stop = p + tag.raw.length ∧
        (∀ e ∈ tree.openAt p, t.start < e.start → e.stop = p ∧ e.endTagStart = none) ∧
        (∀ e ∈ tree.openAt p, e.start < t.start → p < e.contentEnd)) ∧
      ((∀ t, ¬ Ends (tree.openAt p) tag.name t) →
        ∀ e ∈ tree.openAt p, p < e.contentEnd)) ∧
    (∀ e ∈ tree.elements, e.selfClosing = false →
      (∀ p tag, ReadsEndTag source p tag → ¬ tree.EndedAt p tag.name e) →
      e.stop = source.length ∧ e.endTagStart = none) := by
  constructor
  · intro p tag hread
    obtain ⟨before, a, b, hrun, rfl, hstep, hleads⟩ := hread.exists_step h
    exact endTag_effect h hrun hstep hleads
  · intro e he hself hnone
    obtain ⟨ps, last, hrun, hrest, htree⟩ := parse_eq_ok_iff.mp h
    have hleads := hrun.leads (Scan.Leads.done hrest htree)
    rcases endedAt_or_unclosed h (Scan.Run.refl _) hleads he hself with
      hmem | ⟨p, tag, hread, hended⟩ | hend
    · simp [Scan.initial, Spine.empty, Spine.elements] at hmem
    · exact absurd hended (hnone p tag hread)
    · exact hend

/-- An element of exactly the name wins over a nearer one of the name up to case. -/
theorem parse_recovery_exact_name :
    ∃ tree t,
      parse "<A><b><a>x</A>y".toList = .ok tree ∧
      ReadsEndTag "<A><b><a>x</A>y".toList 10 ⟨['A'], []⟩ ∧
      Ends (tree.openAt 10) ['A'] t ∧ t.start = 0 ∧
      t.endTagStart = some 10 ∧ t.stop = 14 ∧
      (∀ e ∈ tree.openAt 10, t.start < e.start → e.stop = 10 ∧ e.endTagStart = none) := by
  obtain ⟨tree, hparse, hopen⟩ :
      ∃ tree, parse "<A><b><a>x</A>y".toList = .ok tree ∧
        tree.openAt 10 =
          [⟨['A'], [], 0, 3, some 10, 14, false⟩, ⟨['b'], [], 3, 6, none, 10, false⟩,
            ⟨['a'], [], 6, 9, none, 10, false⟩] :=
    ⟨.document 15
      [.element ⟨['A'], [], 0, 3, some 10, 14, false⟩
        [.element ⟨['b'], [], 3, 6, none, 10, false⟩
          [.element ⟨['a'], [], 6, 9, none, 10, false⟩ [.text 9 10 ['x']]]],
        .text 14 15 ['y']],
      by with_unfolding_all rfl, by with_unfolding_all rfl⟩
  have hread : ReadsEndTag "<A><b><a>x</A>y".toList 10 ⟨['A'], []⟩ :=
    ⟨[.startTag ⟨['A'], [], false⟩, .startTag ⟨['b'], [], false⟩,
      .startTag ⟨['a'], [], false⟩, .text ['x']], [.text ['y']],
      by with_unfolding_all rfl, rfl⟩
  have hends : Ends (tree.openAt 10) ['A'] ⟨['A'], [], 0, 3, some 10, 14, false⟩ := by
    rw [hopen]
    exact Or.inl ⟨by decide, rfl, by decide⟩
  have heffect := ((parse_recovery hparse).1 10 _ hread).1 _ hends
  exact ⟨tree, _, hparse, hread, hends, rfl, heffect.1, heffect.2.1, heffect.2.2.1⟩

end Markup
end NuspecLint

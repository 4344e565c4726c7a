import NuspecLint.Markup.Tree
import Mathlib.Tactic

/-!
# The scan of a text

Cutting a text into pieces and taking the pieces into the tree under construction, seen as one
machine.

**States.**  How many characters have been taken in, which are left, and the tree under
construction.  A step reads one piece.

**Results.**
* `Scan.Run.invariant`: what every step keeps, every run keeps.
* `Scan.run_append_iff`: a run can be stopped after any of its pieces.
* `Scan.Run.comparable` and `Scan.Run.unique`: there is only one run from a state, and its place
  tells how far it is.
* `pieces_eq_ok_iff` and `parse_eq_ok_iff`: a text is cut into pieces, and parsed, by a run that
  leaves nothing.
-/

namespace NuspecLint
namespace Markup

/-- The characters that some pieces stand on. -/
def rawAll (ps : List Piece) : List Char :=
  ps.flatMap Piece.raw

@[simp] theorem rawAll_nil :
    rawAll [] = [] := by
  rfl

@[simp] theorem rawAll_cons (p : Piece) (ps : List Piece) :
    rawAll (p :: ps) = p.raw ++ rawAll ps := by
  rfl

/-- A state of the scan. -/
structure Scan where
  /-- How many characters have been taken in. -/
  pos : Nat
  /-- The characters still to read. -/
  rest : List Char
  spine : Spine

namespace Scan

/-- The state before anything is read. -/
def initial (source : List Char) : Scan :=
  ⟨0, source, Spine.empty⟩

/-- The scan reads the piece `p`. -/
inductive Step : Scan → Piece → Scan → Prop
  | read
      {pos : Nat} {c : Char} {s rest : List Char} {p : Piece} {spine : Spine}
      (hnext : Piece.next c s = .ok (p, rest)) :
      Step ⟨pos, c :: s, spine⟩ p ⟨pos + p.raw.length, rest, spine.step pos p⟩

/-- The scan reads some pieces, one after the other. -/
inductive Run : Scan → List Piece → Scan → Prop
  | refl (a : Scan) :
      Run a [] a
  | head
      {a b c : Scan} {p : Piece} {ps : List Piece}
      (hstep : Step a p b)
      (htail : Run b ps c) :
      Run a (p :: ps) c

/-- What every step keeps, every run keeps. -/
theorem Run.invariant
    {a b : Scan} {ps : List Piece}
    (hrun : Run a ps b)
    (Inv : Scan → Prop)
    (hkeep : ∀ {a b : Scan} {p : Piece}, Step a p b → Inv a → Inv b)
    (ha : Inv a) :
    Inv b := by
  induction hrun with
  | refl a =>
      exact ha
  | head hstep _ ih =>
      exact ih (hkeep hstep ha)

/-- A run can be stopped after any of its pieces. -/
theorem run_append_iff
    {a c : Scan} {ps qs : List Piece} :
    Run a (ps ++ qs) c ↔
      ∃ b, Run a ps b ∧ Run b qs c := by
  induction ps generalizing a with
  | nil =>
      constructor
      · intro h
        exact ⟨a, Run.refl a, h⟩
      · rintro ⟨b, hb, hc⟩
        cases hb
        exact hc
  | cons p ps ih =>
      constructor
      · intro h
        cases h with
        | head hstep htail =>
            obtain ⟨b, hb, hc⟩ := ih.mp htail
            exact ⟨b, Run.head hstep hb, hc⟩
      · rintro ⟨b, hb, hc⟩
        cases hb with
        | head hstep htail =>
            exact Run.head hstep (ih.mpr ⟨b, htail, hc⟩)

/-- A piece in the middle of a run is read by a step of its own. -/
theorem Run.step_of_append_cons
    {a c : Scan} {before after : List Piece} {p : Piece}
    (h : Run a (before ++ p :: after) c) :
    ∃ b b', Run a before b ∧ Step b p b' ∧ Run b' after c := by
  obtain ⟨b, hbefore, hrest⟩ := run_append_iff.mp h
  cases hrest with
  | head hstep hafter =>
      exact ⟨b, _, hbefore, hstep, hafter⟩

theorem Run.concat
    {a b c : Scan} {ps : List Piece} {p : Piece}
    (hrun : Run a ps b)
    (hstep : Step b p c) :
    Run a (ps ++ [p]) c :=
  run_append_iff.mpr ⟨b, hrun, Run.head hstep (Run.refl c)⟩

theorem Step.pos_eq
    {a b : Scan} {p : Piece}
    (h : Step a p b) :
    b.pos = a.pos + p.raw.length := by
  cases h
  rfl

theorem Step.spine_eq
    {a b : Scan} {p : Piece}
    (h : Step a p b) :
    b.spine = a.spine.step a.pos p := by
  cases h
  rfl

theorem Step.rest_eq
    {a b : Scan} {p : Piece}
    (h : Step a p b) :
    a.rest = p.raw ++ b.rest := by
  cases h with
  | read hnext =>
      exact (Piece.raw_append_of_next hnext).symm

theorem Step.raw_ne_nil
    {a b : Scan} {p : Piece}
    (h : Step a p b) :
    p.raw ≠ [] := by
  cases h with
  | read hnext =>
      exact Piece.raw_ne_nil_of_next hnext

theorem Step.pos_lt
    {a b : Scan} {p : Piece}
    (h : Step a p b) :
    a.pos < b.pos := by
  have hpos := List.length_pos_iff.mpr h.raw_ne_nil
  rw [h.pos_eq]
  omega

/-- The scan has no choice. -/
theorem Step.unique
    {a b c : Scan} {p q : Piece}
    (h : Step a p b)
    (h' : Step a q c) :
    p = q ∧ b = c := by
  cases h with
  | read hnext =>
      cases h' with
      | read hnext' =>
          rw [hnext] at hnext'
          cases hnext'
          exact ⟨rfl, rfl⟩

/-- Of two runs from the same state, one goes on where the other stops. -/
theorem Run.comparable
    {a b c : Scan} {ps qs : List Piece}
    (h : Run a ps b)
    (h' : Run a qs c) :
    (∃ rs, Run b rs c) ∨ ∃ rs, Run c rs b := by
  induction h generalizing qs with
  | refl a =>
      exact Or.inl ⟨qs, h'⟩
  | head hstep htail ih =>
      cases h' with
      | refl =>
          exact Or.inr ⟨_, Run.head hstep htail⟩
      | head hstep' htail' =>
          obtain ⟨rfl, rfl⟩ := hstep.unique hstep'
          exact ih htail'

theorem Run.pos_eq
    {a b : Scan} {ps : List Piece}
    (h : Run a ps b) :
    b.pos = a.pos + (rawAll ps).length := by
  induction h with
  | refl a =>
      simp
  | head hstep _ ih =>
      simp [ih, hstep.pos_eq, Nat.add_assoc]

/-- A run that stays at its place reads nothing. -/
theorem Run.eq_of_pos_eq
    {a b : Scan} {ps : List Piece}
    (h : Run a ps b)
    (hpos : b.pos = a.pos) :
    b = a := by
  cases h with
  | refl =>
      rfl
  | head hstep htail =>
      have hlt := hstep.pos_lt
      have heq := htail.pos_eq
      omega

/-- The state of a scan is known from its place. -/
theorem Run.unique
    {a b c : Scan} {ps qs : List Piece}
    (h : Run a ps b)
    (h' : Run a qs c)
    (hpos : b.pos = c.pos) :
    b = c := by
  rcases h.comparable h' with ⟨rs, hrun⟩ | ⟨rs, hrun⟩
  · exact (hrun.eq_of_pos_eq hpos.symm).symm
  · exact hrun.eq_of_pos_eq hpos

theorem Run.spine_eq
    {a b : Scan} {ps : List Piece}
    (h : Run a ps b) :
    b.spine = a.spine.run a.pos ps := by
  induction h with
  | refl a =>
      simp [Spine.run]
  | head hstep _ ih =>
      simp [Spine.run, ih, hstep.spine_eq, hstep.pos_eq]

/-- The state of a scan belongs to `source`: what is left is what stands from `pos` on. -/
structure Of (source : List Char) (a : Scan) : Prop where
  pos_le : a.pos ≤ source.length
  drop_eq : source.drop a.pos = a.rest

theorem of_initial (source : List Char) :
    (initial source).Of source := by
  constructor
  · simp [initial]
  · simp [initial]

theorem Step.of
    {source : List Char} {a b : Scan} {p : Piece}
    (h : Step a p b)
    (ha : a.Of source) :
    b.Of source := by
  have hdrop : source.drop a.pos = p.raw ++ b.rest := by
    rw [ha.drop_eq, h.rest_eq]
  have hlen := congrArg List.length hdrop
  rw [List.length_drop, List.length_append] at hlen
  have hle := ha.pos_le
  constructor
  · rw [h.pos_eq]
    omega
  · rw [h.pos_eq, ← List.drop_drop, hdrop, List.drop_left]

theorem Run.of
    {source : List Char} {a : Scan} {ps : List Piece}
    (h : Run (initial source) ps a) :
    a.Of source :=
  h.invariant (Of source) Step.of (of_initial source)

end Scan

@[simp] theorem piecesAt_nil (pos : Nat) :
    piecesAt pos [] = .ok [] := by
  simp [piecesAt]

theorem piecesAt_cons_of_next
    {c : Char} {s rest : List Char} {p : Piece}
    (pos : Nat)
    (h : Piece.next c s = .ok (p, rest)) :
    piecesAt pos (c :: s) =
      (piecesAt (pos + p.raw.length) rest).map fun ps => p :: ps := by
  rw [piecesAt]
  split
  · next herror =>
      simp [h] at herror
  · next hok =>
      simp only [h, Except.ok.injEq, Prod.mk.injEq] at hok
      obtain ⟨rfl, rfl⟩ := hok
      rfl

theorem run_of_piecesAt
    {pos : Nat} {s : List Char} {ps : List Piece}
    (spine : Spine)
    (h : piecesAt pos s = .ok ps) :
    ∃ last, Scan.Run ⟨pos, s, spine⟩ ps last ∧ last.rest = [] := by
  fun_induction piecesAt pos s generalizing spine ps with
  | case1 pos =>
      cases h
      exact ⟨_, Scan.Run.refl _, rfl⟩
  | case2 pos c s kind hnext =>
      simp at h
  | case3 pos c s p rest hnext ih =>
      cases hrest : piecesAt (pos + p.raw.length) rest with
      | error u =>
          rw [hrest] at h
          simp [Except.map] at h
      | ok qs =>
          rw [hrest] at h
          simp only [Except.map, Except.ok.injEq] at h
          subst h
          obtain ⟨last, hrun, hlast⟩ := ih (spine.step pos p) hrest
          exact ⟨last, Scan.Run.head (Scan.Step.read hnext) hrun, hlast⟩

theorem piecesAt_of_run
    {a last : Scan} {ps : List Piece}
    (h : Scan.Run a ps last)
    (hlast : last.rest = []) :
    piecesAt a.pos a.rest = .ok ps := by
  induction h with
  | refl a =>
      simp [hlast]
  | head hstep _ ih =>
      have htail := ih hlast
      cases hstep with
      | read hnext =>
          rw [piecesAt_cons_of_next _ hnext, htail]
          rfl

/-- A text is cut into pieces by a run that leaves nothing. -/
theorem pieces_eq_ok_iff
    {source : List Char} {ps : List Piece} :
    pieces source = .ok ps ↔
      ∃ last, Scan.Run (Scan.initial source) ps last ∧ last.rest = [] := by
  constructor
  · intro h
    exact run_of_piecesAt Spine.empty h
  · rintro ⟨last, hrun, hlast⟩
    exact piecesAt_of_run hrun hlast

/-- A text is parsed by a run that leaves nothing, and the end of the text. -/
theorem parse_eq_ok_iff
    {source : List Char} {tree : Node} :
    parse source = .ok tree ↔
      ∃ ps last,
        Scan.Run (Scan.initial source) ps last ∧ last.rest = [] ∧
        tree = last.spine.finish source.length := by
  constructor
  · intro h
    cases hps : pieces source with
    | error u =>
        simp [parse, hps, Except.map] at h
    | ok ps =>
        simp only [parse, hps, Except.map, Except.ok.injEq] at h
        obtain ⟨last, hrun, hlast⟩ := pieces_eq_ok_iff.mp hps
        refine ⟨ps, last, hrun, hlast, ?_⟩
        rw [hrun.spine_eq]
        exact h.symm
  · rintro ⟨ps, last, hrun, hlast, rfl⟩
    have hps := pieces_eq_ok_iff.mpr ⟨last, hrun, hlast⟩
    rw [hrun.spine_eq]
    simp [parse, hps, Except.map, Scan.initial]

/-- A text that is parsed into a tree is cut into pieces by the same run. -/
theorem run_of_parse
    {source : List Char} {ps : List Piece} {tree : Node}
    (hparse : parse source = .ok tree)
    (hpieces : pieces source = .ok ps) :
    ∃ last,
      Scan.Run (Scan.initial source) ps last ∧ last.rest = [] ∧
      tree = last.spine.finish source.length := by
  obtain ⟨last, hrun, hlast⟩ := pieces_eq_ok_iff.mp hpieces
  refine ⟨last, hrun, hlast, ?_⟩
  have htree := parse_eq_ok_iff.mpr ⟨ps, last, hrun, hlast, rfl⟩
  rw [hparse] at htree
  exact Except.ok.inj htree

end Markup
end NuspecLint

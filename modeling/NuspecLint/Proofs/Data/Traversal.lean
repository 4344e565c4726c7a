import Mathlib.Data.List.Forall2

/-!
# Going through a list

Work on the items of a list, one after the other, that ends with the first failure.

**Results.**
* `mapM_eq_ok_iff`: it succeeds if it does on every item, and gives what it gives on each.
* `mapM_eq_error_iff`: it fails as it does on the first item that it fails on.
-/

namespace NuspecLint

variable {α β ε : Type} {f : α → Except ε β} {xs : List α} {ys : List β} {e : ε}

theorem mapM_cons_of_ok
    {x : α} {y : β}
    (h : f x = .ok y) :
    (x :: xs).mapM f = (xs.mapM f).map (y :: ·) := by
  rw [List.mapM_cons, h]
  cases xs.mapM f <;> rfl

theorem mapM_cons_of_error
    {x : α}
    (h : f x = .error e) :
    (x :: xs).mapM f = .error e := by
  rw [List.mapM_cons, h]
  rfl

theorem mapM_eq_ok_iff :
    xs.mapM f = .ok ys ↔ List.Forall₂ (fun x y => f x = .ok y) xs ys := by
  induction xs generalizing ys with
  | nil =>
      rw [List.forall₂_nil_left_iff]
      constructor
      · rintro ⟨⟩
        rfl
      · rintro rfl
        rfl
  | cons x xs ih =>
      rw [List.forall₂_cons_left_iff]
      cases hx : f x with
      | error e =>
          simp [mapM_cons_of_error hx]
      | ok y =>
          rw [mapM_cons_of_ok hx]
          constructor
          · intro h
            cases hxs : xs.mapM f with
            | error e =>
                rw [hxs] at h
                cases h
            | ok ys' =>
                rw [hxs] at h
                cases h
                exact ⟨y, ys', rfl, ih.mp hxs, rfl⟩
          · rintro ⟨y', ys', hy, hys, rfl⟩
            cases hy
            rw [ih.mpr hys]
            rfl

theorem mapM_append_of_ok
    {xs' : List α} {ys' : List β}
    (h : xs.mapM f = .ok ys)
    (h' : xs'.mapM f = .ok ys') :
    (xs ++ xs').mapM f = .ok (ys ++ ys') :=
  mapM_eq_ok_iff.mpr (List.rel_append (mapM_eq_ok_iff.mp h) (mapM_eq_ok_iff.mp h'))

theorem exists_mapM_iff :
    (∃ ys, xs.mapM f = .ok ys) ↔ ∀ x ∈ xs, ∃ y, f x = .ok y := by
  induction xs with
  | nil =>
      exact iff_of_true ⟨[], rfl⟩ (by simp)
  | cons x xs ih =>
      rw [List.forall_mem_cons, ← ih]
      cases hx : f x with
      | error e =>
          simp [mapM_cons_of_error hx]
      | ok y =>
          rw [mapM_cons_of_ok hx]
          cases xs.mapM f <;> simp [Except.map]

/-- Each result comes from an item. -/
theorem exists_of_mem_mapM
    {y : β}
    (h : xs.mapM f = .ok ys)
    (hy : y ∈ ys) :
    ∃ x ∈ xs, f x = .ok y := by
  have hall := mapM_eq_ok_iff.mp h
  clear h
  induction hall with
  | nil =>
      cases hy
  | @cons x y' xs ys hx _ ih =>
      rcases List.mem_cons.mp hy with rfl | hy
      · exact ⟨x, by simp, hx⟩
      · obtain ⟨x', hx', hfx⟩ := ih hy
        exact ⟨x', by simp [hx'], hfx⟩

/-- Each item has a result. -/
theorem exists_result_of_mapM
    {x : α}
    (h : xs.mapM f = .ok ys)
    (hx : x ∈ xs) :
    ∃ y ∈ ys, f x = .ok y := by
  have hall := mapM_eq_ok_iff.mp h
  clear h
  induction hall with
  | nil =>
      cases hx
  | @cons x' y xs ys hx' _ ih =>
      rcases List.mem_cons.mp hx with rfl | hx
      · exact ⟨y, by simp, hx'⟩
      · obtain ⟨y', hy', hfx⟩ := ih hx
        exact ⟨y', by simp [hy'], hfx⟩

/-- What holds between the items, and so between their results, holds along the list. -/
theorem pairwise_of_mapM
    {P : α → α → Prop} {Q : β → β → Prop}
    (h : xs.mapM f = .ok ys)
    (hxs : xs.Pairwise P)
    (hresults : ∀ x ∈ xs, ∀ x' ∈ xs, ∀ y y',
      P x x' → f x = .ok y → f x' = .ok y' → Q y y') :
    ys.Pairwise Q := by
  have hall := mapM_eq_ok_iff.mp h
  clear h
  induction hall with
  | nil =>
      exact List.Pairwise.nil
  | @cons x y xs ys hx hrest ih =>
      rw [List.pairwise_cons] at hxs
      refine List.Pairwise.cons ?_ (ih hxs.2 fun x hx x' hx' =>
        hresults x (by simp [hx]) x' (by simp [hx']))
      intro y' hy'
      obtain ⟨x', hx', hresult⟩ := exists_of_mem_mapM (mapM_eq_ok_iff.mpr hrest) hy'
      exact hresults x (by simp) x' (by simp [hx']) y y' (hxs.1 x' hx') hx hresult

/-- The work fails on an item, with this fault, and on none before it. -/
def FirstFails (f : α → Except ε β) (xs : List α) (e : ε) : Prop :=
  ∃ before x after,
    xs = before ++ x :: after ∧ (∀ x' ∈ before, ∃ y, f x' = .ok y) ∧ f x = .error e

theorem not_firstFails_nil :
    ¬ FirstFails f [] e := by
  rintro ⟨before, x, after, h, _⟩
  cases before <;> cases h

theorem firstFails_cons_iff
    {x : α} :
    FirstFails f (x :: xs) e ↔
      f x = .error e ∨ (∃ y, f x = .ok y) ∧ FirstFails f xs e := by
  constructor
  · rintro ⟨before, x', after, h, hbefore, hfails⟩
    cases before with
    | nil =>
        cases h
        exact Or.inl hfails
    | cons b before =>
        cases h
        obtain ⟨hx, hbefore⟩ := List.forall_mem_cons.mp hbefore
        exact Or.inr ⟨hx, before, x', after, rfl, hbefore, hfails⟩
  · rintro (hfails | ⟨hx, before, x', after, rfl, hbefore, hfails⟩)
    · exact ⟨[], x, xs, rfl, by simp, hfails⟩
    · exact ⟨x :: before, x', after, rfl, List.forall_mem_cons.mpr ⟨hx, hbefore⟩, hfails⟩

theorem mapM_eq_error_iff :
    xs.mapM f = .error e ↔ FirstFails f xs e := by
  induction xs with
  | nil =>
      exact iff_of_false (by rintro ⟨⟩) not_firstFails_nil
  | cons x xs ih =>
      rw [firstFails_cons_iff, ← ih]
      cases hx : f x with
      | error e' =>
          simp [mapM_cons_of_error hx]
      | ok y =>
          rw [mapM_cons_of_ok hx]
          cases xs.mapM f <;> simp [Except.map]

end NuspecLint

import NuspecLint.Proofs.Markup.Preorder
import NuspecLint.Markup.Tree
import NuspecLint.Proofs.Text.Newline

/-!
# Trees that differ in line ends

**Relation.**  Two trees are alike if their nodes correspond one to one, have the same names and
flags, and values that are equal once line ends are unified; a relation between offsets says where
the nodes and their tags stand.

**Results.**
* `Node.Alike.inversion`: alike trees are of the same kind.
* `Node.Alike.descendants`: alike trees have alike nodes below them, in document order.
* `Spine.Alike.abandon`, `Spine.Alike.closeInnermost` and `Spine.alikeAll_appendRun`: what is done
  to trees under construction keeps them alike.
-/

namespace NuspecLint
namespace Markup

open Text

section Alike

variable (same : Nat → Nat → Prop)

/-- Attributes that differ in line ends; `same` says where they stand. -/
structure Attribute.Alike (a b : Attribute) : Prop where
  name : b.name = a.name
  value : b.value = normalizeNewlines a.value
  start : same a.start b.start
  stop : same a.stop b.stop

/-- Elements that differ in line ends, apart from what they hold. -/
structure Element.Alike (e f : Element) : Prop where
  name : f.name = e.name
  attributes : List.Forall₂ (Attribute.Alike same) e.attributes f.attributes
  start : same e.start f.start
  startTagEnd : same e.startTagEnd f.startTagEnd
  endTagStart : Option.Rel same e.endTagStart f.endTagStart
  stop : same e.stop f.stop
  selfClosing : f.selfClosing = e.selfClosing

namespace Node

mutual

/-- Trees that differ in line ends. -/
def Alike : Node → Node → Prop
  | document stop nodes, document stop' nodes' =>
      same 0 0 ∧ same stop stop' ∧ AlikeAll nodes nodes'
  | element e nodes, element e' nodes' =>
      e.Alike same e' ∧ AlikeAll nodes nodes'
  | text start stop value, text start' stop' value' =>
      same start start' ∧ same stop stop' ∧ value' = normalizeNewlines value
  | _, _ => False

/-- Lists of trees that differ in line ends. -/
def AlikeAll : List Node → List Node → Prop
  | [], [] => True
  | n :: nodes, n' :: nodes' => Alike n n' ∧ AlikeAll nodes nodes'
  | _, _ => False

end

end Node

/-- Open elements that differ in line ends. -/
structure OpenElement.Alike (e f : OpenElement) : Prop where
  name : f.name = e.name
  attributes : List.Forall₂ (Attribute.Alike same) e.attributes f.attributes
  start : same e.start f.start
  startTagEnd : same e.startTagEnd f.startTagEnd
  newest : Node.AlikeAll same e.newest f.newest

/-- Trees under construction that differ in line ends. -/
structure Spine.Alike (s t : Spine) : Prop where
  opened : List.Forall₂ (OpenElement.Alike same) s.opened t.opened
  newest : Node.AlikeAll same s.newest t.newest

end Alike

namespace Node

variable {same : Nat → Nat → Prop} {m n : Node} {xs ys : List Node}

theorem alikeAll_iff_forall₂ :
    AlikeAll same xs ys ↔ List.Forall₂ (Alike same) xs ys := by
  induction xs generalizing ys with
  | nil =>
      cases ys <;> simp [AlikeAll]
  | cons m xs ih =>
      cases ys <;> simp [AlikeAll, ih]

/-- The three kinds of alike trees. -/
theorem Alike.inversion
    (h : m.Alike same n) :
    (∃ stop stop' xs ys,
      m = document stop xs ∧ n = document stop' ys ∧
      same 0 0 ∧ same stop stop' ∧ AlikeAll same xs ys) ∨
    (∃ e f xs ys,
      m = element e xs ∧ n = element f ys ∧ e.Alike same f ∧ AlikeAll same xs ys) ∨
    (∃ start start' stop stop' value,
      m = text start stop value ∧ n = text start' stop' (normalizeNewlines value) ∧
      same start start' ∧ same stop stop') := by
  cases m with
  | document stop xs =>
      cases n with
      | document stop' ys =>
          exact Or.inl ⟨stop, stop', xs, ys, rfl, rfl, h⟩
      | element | text =>
          exact h.elim
  | element e xs =>
      cases n with
      | element f ys =>
          exact Or.inr (Or.inl ⟨e, f, xs, ys, rfl, rfl, h⟩)
      | document | text =>
          exact h.elim
  | text start stop value =>
      cases n with
      | text start' stop' value' =>
          obtain ⟨hstart, hstop, rfl⟩ := h
          exact Or.inr (Or.inr ⟨start, start', stop, stop', value, rfl, rfl, hstart, hstop⟩)
      | document | element =>
          exact h.elim

theorem AlikeAll.reverse
    (h : AlikeAll same xs ys) :
    AlikeAll same xs.reverse ys.reverse := by
  rw [alikeAll_iff_forall₂] at h ⊢
  exact List.forall₂_reverse_iff.mpr h

theorem Alike.children
    (h : m.Alike same n) :
    AlikeAll same m.children n.children := by
  rcases h.inversion with
    ⟨_, _, _, _, rfl, rfl, _, _, hbelow⟩ | ⟨_, _, _, _, rfl, rfl, _, hbelow⟩ |
    ⟨_, _, _, _, _, rfl, rfl, _⟩
  · exact hbelow
  · exact hbelow
  · trivial

theorem Alike.isText
    (h : m.Alike same n) :
    n.isText = m.isText := by
  rcases h.inversion with
    ⟨_, _, _, _, rfl, rfl, _⟩ | ⟨_, _, _, _, rfl, rfl, _⟩ | ⟨_, _, _, _, _, rfl, rfl, _⟩ <;> rfl

theorem Alike.textValue
    (h : m.Alike same n) :
    n.textValue = normalizeNewlines m.textValue := by
  rcases h.inversion with
    ⟨_, _, _, _, rfl, rfl, _⟩ | ⟨_, _, _, _, rfl, rfl, _⟩ | ⟨_, _, _, _, _, rfl, rfl, _⟩
  · exact normalizeNewlines_nil.symm
  · exact normalizeNewlines_nil.symm
  · rfl

theorem Alike.start
    (h : m.Alike same n) :
    same m.start n.start := by
  rcases h.inversion with
    ⟨_, _, _, _, rfl, rfl, hzero, _⟩ | ⟨_, _, _, _, rfl, rfl, helement, _⟩ |
    ⟨_, _, _, _, _, rfl, rfl, hstart, _⟩
  · exact hzero
  · exact helement.start
  · exact hstart

theorem Alike.contentStart
    (h : m.Alike same n) :
    same m.contentSpan.1 n.contentSpan.1 := by
  rcases h.inversion with
    ⟨_, _, _, _, rfl, rfl, hzero, _⟩ | ⟨_, _, _, _, rfl, rfl, helement, _⟩ |
    ⟨_, _, _, _, _, rfl, rfl, hstart, _⟩
  · exact hzero
  · unfold contentSpan
    simp only [helement.selfClosing]
    split
    · exact helement.start
    · exact helement.startTagEnd
  · exact hstart

/-- Alike trees have alike nodes, in document order. -/
theorem AlikeAll.preorderAll
    (h : AlikeAll same xs ys) :
    List.Forall₂ (Alike same) (preorderAll xs) (preorderAll ys) := by
  induction xs using forest_induction generalizing ys with
  | nil =>
      cases ys with
      | nil =>
          simp
      | cons n ys =>
          exact h.elim
  | cons m xs ihBeneath ihAfter =>
      cases ys with
      | nil =>
          exact h.elim
      | cons n ys =>
          rw [preorderAll_cons, preorderAll_cons]
          exact List.Forall₂.cons h.1
            (List.rel_append (ihBeneath h.1.children) (ihAfter h.2))

theorem Alike.descendants
    {keep : Node → Bool}
    (hkeep : ∀ {m n}, m.Alike same n → keep n = keep m)
    (includeSelf : Bool)
    (h : m.Alike same n) :
    List.Forall₂ (Alike same) (m.descendants keep includeSelf)
      (n.descendants keep includeSelf) := by
  unfold Node.descendants
  rw [walk_eq_preorderAll, walk_eq_preorderAll]
  apply List.rel_filter
  · intro a b hab
    simp only [hkeep hab]
  · cases includeSelf with
    | true =>
        exact AlikeAll.preorderAll ⟨h, trivial⟩
    | false =>
        exact h.children.preorderAll

/-- The concatenated text of everything below a node, each text with unified line ends. -/
def unifiedContent (n : Node) : List Char :=
  (n.descendants Node.isText false).flatMap fun t => normalizeNewlines t.textValue

theorem map_eq_of_forall₂
    {α : Type} {f g : Node → α}
    (h : List.Forall₂ (Alike same) xs ys)
    (hfg : ∀ {m n}, m.Alike same n → g n = f m) :
    ys.map g = xs.map f := by
  induction h with
  | nil =>
      rfl
  | cons hmn _ ih =>
      rw [List.map_cons, List.map_cons, ih, hfg hmn]

theorem Alike.contentValue
    (h : m.Alike same n) :
    n.contentValue = m.unifiedContent := by
  have htexts := map_eq_of_forall₂ (h.descendants Alike.isText false) Alike.textValue
  unfold Node.contentValue unifiedContent
  rw [List.flatMap_def, List.flatMap_def, htexts]

end Node

section Mono

variable {same same' : Nat → Nat → Prop}

theorem Attribute.Alike.mono
    {a b : Attribute}
    (hsame : ∀ {i j}, same i j → same' i j)
    (h : a.Alike same b) :
    a.Alike same' b :=
  ⟨h.name, h.value, hsame h.start, hsame h.stop⟩

theorem Element.Alike.mono
    {e f : Element}
    (hsame : ∀ {i j}, same i j → same' i j)
    (h : e.Alike same f) :
    e.Alike same' f := by
  have hrel : ∀ {q q'}, Option.Rel same q q' → Option.Rel same' q q' := by
    intro q q' hq
    cases hq with
    | none =>
        exact Option.Rel.none
    | some hq =>
        exact Option.Rel.some (hsame hq)
  exact ⟨h.name, h.attributes.imp fun _ _ => Attribute.Alike.mono hsame, hsame h.start,
    hsame h.startTagEnd, hrel h.endTagStart, hsame h.stop, h.selfClosing⟩

theorem Node.AlikeAll.mono
    {xs ys : List Node}
    (hsame : ∀ {i j}, same i j → same' i j)
    (h : AlikeAll same xs ys) :
    AlikeAll same' xs ys := by
  induction xs using forest_induction generalizing ys with
  | nil =>
      cases ys with
      | nil =>
          trivial
      | cons n ys =>
          exact h.elim
  | cons m xs ihBeneath ihAfter =>
      cases ys with
      | nil =>
          exact h.elim
      | cons n ys =>
          refine ⟨?_, ihAfter h.2⟩
          rcases h.1.inversion with
            ⟨_, _, _, _, rfl, rfl, hzero, hstop, hbelow⟩ |
            ⟨_, _, _, _, rfl, rfl, helement, hbelow⟩ |
            ⟨_, _, _, _, _, rfl, rfl, hstart, hstop⟩
          · exact ⟨hsame hzero, hsame hstop, ihBeneath hbelow⟩
          · exact ⟨helement.mono hsame, ihBeneath hbelow⟩
          · exact ⟨hsame hstart, hsame hstop, rfl⟩

end Mono

namespace Spine

variable {same : Nat → Nat → Prop} {s t : Spine}

/-- The finished nodes directly inside the innermost open element, newest first. -/
def innermost (s : Spine) : List Node :=
  match s.opened with
  | [] => s.newest
  | e :: _ => e.newest

theorem Alike.innermost
    (h : s.Alike same t) :
    Node.AlikeAll same s.innermost t.innermost := by
  obtain ⟨opened, newest⟩ := s
  obtain ⟨opened', newest'⟩ := t
  obtain ⟨hopened, hnewest⟩ := h
  cases hopened with
  | nil =>
      exact hnewest
  | cons he _ =>
      exact he.newest

theorem Alike.modifyNewest
    {f g : List Node → List Node}
    (h : s.Alike same t)
    (hfg : Node.AlikeAll same (f s.innermost) (g t.innermost)) :
    (s.modifyNewest f).Alike same (t.modifyNewest g) := by
  obtain ⟨opened, newest⟩ := s
  obtain ⟨opened', newest'⟩ := t
  obtain ⟨hopened, hnewest⟩ := h
  cases hopened with
  | nil =>
      exact ⟨List.Forall₂.nil, hfg⟩
  | cons he houter =>
      exact ⟨List.Forall₂.cons { he with newest := hfg } houter, hnewest⟩

theorem Alike.add
    {m n : Node}
    (h : s.Alike same t)
    (hmn : m.Alike same n) :
    (s.add m).Alike same (t.add n) :=
  h.modifyNewest ⟨hmn, h.innermost⟩

theorem alike_close
    {e f : OpenElement} {q q' : Option Nat} {stop stop' : Nat}
    (h : e.Alike same f)
    (hq : Option.Rel same q q')
    (hstop : same stop stop') :
    (e.close q stop).Alike same (f.close q' stop') :=
  ⟨⟨h.name, h.attributes, h.start, h.startTagEnd, hq, hstop, rfl⟩, h.newest.reverse⟩

theorem Alike.abandon
    {stop stop' : Nat} (count : Nat)
    (h : s.Alike same t)
    (hstop : same stop stop') :
    (s.abandon stop count).Alike same (t.abandon stop' count) := by
  induction count generalizing s t with
  | zero =>
      exact h
  | succ count ih =>
      obtain ⟨opened, newest⟩ := s
      obtain ⟨opened', newest'⟩ := t
      obtain ⟨hopened, hnewest⟩ := h
      cases hopened with
      | nil =>
          exact ⟨List.Forall₂.nil, hnewest⟩
      | cons he houter =>
          apply ih
          exact Alike.add ⟨houter, hnewest⟩ (alike_close he Option.Rel.none hstop)

theorem Alike.closeInnermost
    {start start' stop stop' : Nat}
    (h : s.Alike same t)
    (hstart : same start start')
    (hstop : same stop stop') :
    (s.closeInnermost start stop).Alike same (t.closeInnermost start' stop') := by
  obtain ⟨opened, newest⟩ := s
  obtain ⟨opened', newest'⟩ := t
  obtain ⟨hopened, hnewest⟩ := h
  cases hopened with
  | nil =>
      exact ⟨List.Forall₂.nil, hnewest⟩
  | cons he houter =>
      exact Alike.add ⟨houter, hnewest⟩ (alike_close he (Option.Rel.some hstart) hstop)

theorem Alike.finish
    {length length' : Nat}
    (h : s.Alike same t)
    (hzero : same 0 0)
    (hlength : same length length') :
    (s.finish length).Alike same (t.finish length') := by
  refine ⟨hzero, hlength, ?_⟩
  rw [h.opened.length_eq]
  exact (h.abandon t.opened.length hlength).newest.reverse

theorem findIdx?_congr
    {xs ys : List OpenElement}
    (p : List Char → Bool)
    (h : List.Forall₂ (OpenElement.Alike same) xs ys) :
    xs.findIdx? (fun e => p e.name) = ys.findIdx? (fun e => p e.name) := by
  induction h with
  | nil =>
      rfl
  | cons he _ ih =>
      rw [List.findIdx?_cons, List.findIdx?_cons, ih, he.name]

theorem depthOf?_congr
    {xs ys : List OpenElement}
    (name : List Char)
    (h : List.Forall₂ (OpenElement.Alike same) xs ys) :
    depthOf? name ys = depthOf? name xs := by
  unfold depthOf?
  rw [findIdx?_congr (fun n => decide (n = name)) h,
    findIdx?_congr (fun n => decide (lower n = lower name)) h]

theorem alikeAll_appendRun
    {start start' : Nat} {run : List Char} {xs ys : List Node}
    (h : Node.AlikeAll same xs ys)
    (hsame : ∀ {i j}, same i j → (i = start ↔ j = start'))
    (hstart : same start start')
    (hstop : same (start + run.length) (start' + (normalizeNewlines run).length))
    (hclean : ∀ first value rest, xs = .text first start value :: rest → CleanCut value run) :
    Node.AlikeAll same (appendRun start run xs) (appendRun start' (normalizeNewlines run) ys) := by
  have hnew : Node.Alike same (.text start (start + run.length) run)
      (.text start' (start' + (normalizeNewlines run).length) (normalizeNewlines run)) :=
    ⟨hstart, hstop, rfl⟩
  cases xs with
  | nil =>
      cases ys with
      | nil =>
          exact ⟨hnew, h⟩
      | cons n ys =>
          exact h.elim
  | cons m xs =>
      cases ys with
      | nil =>
          exact h.elim
      | cons n ys =>
          obtain ⟨hmn, hrest⟩ := h
          rcases hmn.inversion with
            ⟨_, _, _, _, rfl, rfl, _⟩ | ⟨_, _, _, _, rfl, rfl, _⟩ |
            ⟨first, first', stop, stop', value, rfl, rfl, hfirst, hmid⟩
          · exact ⟨hnew, hmn, hrest⟩
          · exact ⟨hnew, hmn, hrest⟩
          · by_cases htouch : stop = start
            · have hcut := hclean first value xs (by rw [htouch])
              rw [appendRun, if_pos htouch, appendRun, if_pos ((hsame hmid).mp htouch)]
              exact ⟨⟨hfirst, hstop, (normalizeNewlines_append hcut).symm⟩, hrest⟩
            · rw [appendRun, if_neg htouch, appendRun, if_neg (htouch ∘ (hsame hmid).mpr)]
              exact ⟨hnew, hmn, hrest⟩

end Spine

end Markup
end NuspecLint

import Mathlib.Data.List.TakeWhile
import Mathlib.Tactic

/-!
# Patterns with backtracking

A pattern may stand at the front of a text in many ways, and the order in which they are tried
decides which of them counts.

**Input.**  A pattern built from single characters by sequence, choice, repetition and named groups.

**Algorithm.**  `Pattern.ways` lists every way in which the pattern stands at the front of a text,
the preferred ones first: the first branch of a choice before the second, a repetition with many
rounds before one with few or the other way round.  A round has to cover something.  The match is
the first way.

**Results.**
* `Pattern.repeatWays_covers`: what every round of a repetition has, the whole repetition has.
* `Pattern.head?_ways_run` and `Pattern.ways_run_covers`: a run of characters is tried at its full
  length first.
* `Pattern.ways_until`: up to the first character of a kind there is one way only.
-/

namespace NuspecLint
namespace Text

/--
One way in which a pattern stands at the front of a text: what it covers, what its groups cover,
and what follows.
-/
structure Way where
  text : List Char
  groups : List (String × List Char)
  rest : List Char
  deriving Repr, DecidableEq

namespace Way

/-- Nothing is covered. -/
def stay (s : List Char) : Way :=
  ⟨[], [], s⟩

/-- One way, and another one behind it. -/
def andThen (m n : Way) : Way :=
  ⟨m.text ++ n.text, m.groups ++ n.groups, n.rest⟩

/-- What is covered becomes a group. -/
def named (name : String) (m : Way) : Way :=
  ⟨m.text, (name, m.text) :: m.groups, m.rest⟩

/-- What a group covers. -/
def group (m : Way) (name : String) : List Char :=
  (m.groups.lookup name).getD []

theorem stay_andThen (s : List Char) (m : Way) :
    (stay s).andThen m = m :=
  rfl

theorem andThen_assoc (m n o : Way) :
    (m.andThen n).andThen o = m.andThen (n.andThen o) := by
  simp [andThen]

end Way

/-- Whether a repetition tries many rounds first or few. -/
inductive Preference where
  | most
  | fewest
  deriving Repr, DecidableEq

/-- Put the ways with further rounds before or behind the one without. -/
def Preference.arrange (further : List Way) (stop : Way) : Preference → List Way
  | most => further ++ [stop]
  | fewest => stop :: further

/-- A pattern. -/
inductive Pattern where
  | nothing
  | char (accepts : Char → Bool)
  | both (first second : Pattern)
  | either (first second : Pattern)
  | repeated (preference : Preference) (round : Pattern)
  | group (name : String) (inner : Pattern)

namespace Pattern

/-- The ways in which rounds can be repeated, each of which covers something. -/
def repeatWays (preference : Preference) (round : List Char → List Way) (s : List Char) :
    List Way :=
  preference.arrange
    ((round s).flatMap fun m =>
      if _h : m.rest.length < s.length then
        (repeatWays preference round m.rest).map m.andThen
      else [])
    (.stay s)
termination_by s.length

/-- The ways in which a pattern stands at the front of a text, in the order they are tried in. -/
def ways : Pattern → List Char → List Way
  | nothing, s => [.stay s]
  | char _, [] => []
  | char accepts, c :: s => if accepts c then [⟨[c], [], s⟩] else []
  | both first second, s =>
      (ways first s).flatMap fun m => (ways second m.rest).map m.andThen
  | either first second, s => ways first s ++ ways second s
  | repeated preference round, s => repeatWays preference (ways round) s
  | group name inner, s => (ways inner s).map (Way.named name)

/-- The match of a pattern at the front of a text. -/
def match? (p : Pattern) (s : List Char) : Option Way :=
  (p.ways s).head?

/-- The character `c`. -/
def only (c : Char) : Pattern :=
  char (· == c)

/-- The characters outside a list. -/
def noneOf (excluded : List Char) (c : Char) : Bool :=
  !excluded.contains c

@[simp] theorem noneOf_eq_true_iff
    {excluded : List Char} {c : Char} :
    noneOf excluded c = true ↔ c ∉ excluded := by
  simp [noneOf]

/-- One round or more. -/
def atLeastOnce (preference : Preference) (round : Pattern) : Pattern :=
  both round (repeated preference round)

/-- The pattern or nothing. -/
def optional (p : Pattern) : Pattern :=
  either p nothing

section Sequence

variable {p q : Pattern} {s : List Char} {m n : Way}

theorem mem_ways_both_iff :
    m ∈ ways (both p q) s ↔ ∃ a ∈ ways p s, ∃ b ∈ ways q a.rest, a.andThen b = m := by
  simp [ways]

/-- What is found first behind ways that lead nowhere. -/
theorem head?_ways_both_of_first
    {before further : List Way}
    (hp : ways p s = before ++ m :: further)
    (hbefore : ∀ a ∈ before, ways q a.rest = [])
    (hq : (ways q m.rest).head? = some n) :
    (ways (both p q) s).head? = some (m.andThen n) := by
  have hnil : before.flatMap (fun a => (ways q a.rest).map a.andThen) = [] := by
    rw [List.flatMap_eq_nil_iff]
    intro a ha
    rw [hbefore a ha, List.map_nil]
  rw [ways, hp, List.flatMap_append, hnil, List.nil_append, List.flatMap_cons, List.head?_append,
    List.head?_map, hq]
  rfl

/-- The first way is taken if it leads on. -/
theorem head?_ways_both
    (hp : (ways p s).head? = some m)
    (hq : (ways q m.rest).head? = some n) :
    (ways (both p q) s).head? = some (m.andThen n) := by
  obtain ⟨further, hways⟩ := List.head?_eq_some_iff.mp hp
  rw [← List.nil_append (m :: further)] at hways
  exact head?_ways_both_of_first hways (by simp) hq

end Sequence

section Rounds

variable {preference : Preference} {round : List Char → List Way} {s : List Char}

/-- With few rounds first, the first way is none at all. -/
theorem exists_repeatWays_fewest (round : List Char → List Way) (s : List Char) :
    ∃ further, repeatWays .fewest round s = .stay s :: further := by
  rw [repeatWays]
  exact ⟨_, rfl⟩

/-- One round, and then all further ones. -/
theorem repeatWays_of_covering
    (h : ∀ m ∈ round s, m.rest.length < s.length) :
    repeatWays preference round s =
      preference.arrange
        ((round s).flatMap fun m => (repeatWays preference round m.rest).map m.andThen)
        (.stay s) := by
  rw [repeatWays]
  congr 1
  apply List.flatMap_congr
  intro m hm
  rw [dif_pos (h m hm)]

theorem mem_arrange_iff
    {further : List Way} {stop m : Way} :
    m ∈ preference.arrange further stop ↔ m = stop ∨ m ∈ further := by
  cases preference with
  | most =>
      simp [Preference.arrange, or_comm]
  | fewest =>
      simp [Preference.arrange]

/-- What every round covers, and what holds of it, holds of all rounds together. -/
theorem repeatWays_covers
    {P : List Char → Prop}
    (hnil : P [])
    (happend : ∀ u v, P u → P v → P (u ++ v))
    (hround : ∀ s, ∀ m ∈ round s, s = m.text ++ m.rest ∧ P m.text)
    {m : Way}
    (hm : m ∈ repeatWays preference round s) :
    s = m.text ++ m.rest ∧ P m.text := by
  -- The rounds are counted down by what is left of the text.
  induction hlength : s.length using Nat.strong_induction_on generalizing s m with
  | _ length ih =>
      rw [repeatWays, mem_arrange_iff] at hm
      rcases hm with rfl | hm
      · exact ⟨rfl, hnil⟩
      · obtain ⟨first, hfirst, hm⟩ := List.mem_flatMap.mp hm
        split at hm
        · next hlt =>
            obtain ⟨later, hlater, rfl⟩ := List.mem_map.mp hm
            obtain ⟨hs, hP⟩ := hround s first hfirst
            obtain ⟨hrest, hPlater⟩ := ih _ (hlength ▸ hlt) hlater rfl
            refine ⟨?_, happend _ _ hP hPlater⟩
            rw [Way.andThen, List.append_assoc, ← hrest]
            exact hs
        · cases hm

end Rounds

section Characters

variable {accepts : Char → Bool} {s : List Char} {m : Way}

/-- A character covers itself. -/
theorem eq_cons_of_mem_ways_char
    (hm : m ∈ ways (char accepts) s) :
    ∃ c v, s = c :: v ∧ accepts c = true ∧ m = ⟨[c], [], v⟩ := by
  cases s with
  | nil =>
      cases hm
  | cons c s =>
      rw [ways] at hm
      split at hm
      · next hc =>
          exact ⟨c, s, rfl, hc, List.mem_singleton.mp hm⟩
      · cases hm

/-- Every way to cover a run of characters. -/
theorem ways_run_covers
    {preference : Preference}
    (hm : m ∈ ways (repeated preference (char accepts)) s) :
    s = m.text ++ m.rest ∧ ∀ c ∈ m.text, accepts c = true := by
  refine repeatWays_covers (P := fun u => ∀ c ∈ u, accepts c = true) ?_ ?_ ?_ hm
  · simp
  · intro u v hu hv c hc
    rcases List.mem_append.mp hc with hc | hc
    · exact hu c hc
    · exact hv c hc
  · intro s m hm
    obtain ⟨c, v, rfl, hc, rfl⟩ := eq_cons_of_mem_ways_char hm
    exact ⟨rfl, by simpa using hc⟩

@[simp] theorem ways_run_nil (accepts : Char → Bool) :
    ways (repeated .most (char accepts)) [] = [.stay []] := by
  simp [ways, repeatWays, Preference.arrange]

/-- A run goes on with every character of its kind. -/
theorem ways_run_cons
    {c : Char}
    (hc : accepts c = true) :
    ways (repeated .most (char accepts)) (c :: s) =
      (ways (repeated .most (char accepts)) s).map (Way.andThen ⟨[c], [], s⟩) ++
        [.stay (c :: s)] := by
  have hone : ways (char accepts) (c :: s) = [⟨[c], [], s⟩] := by
    rw [ways, if_pos hc]
  simp only [ways]
  rw [repeatWays_of_covering (by simp [hone]), hone]
  simp [Preference.arrange]

/-- A run stops at a character of another kind. -/
theorem ways_run_stop
    {c : Char}
    (hc : accepts c = false) :
    ways (repeated .most (char accepts)) (c :: s) = [.stay (c :: s)] := by
  have hnone : ways (char accepts) (c :: s) = [] := by
    simp [ways, hc]
  simp only [ways]
  rw [repeatWays_of_covering (by simp [hnone]), hnone]
  simp [Preference.arrange]

/-- A run is tried at its full length first. -/
theorem head?_ways_run (accepts : Char → Bool) (s : List Char) :
    (ways (repeated .most (char accepts)) s).head? =
      some ⟨s.takeWhile accepts, [], s.dropWhile accepts⟩ := by
  induction s with
  | nil =>
      simp [Way.stay]
  | cons c s ih =>
      cases hc : accepts c with
      | true =>
          rw [ways_run_cons hc, List.head?_append, List.head?_map, ih]
          simp [Way.andThen, hc]
      | false =>
          rw [ways_run_stop hc]
          simp [Way.stay, hc]

/-- So is a run that may not be empty. -/
theorem head?_ways_atLeastOnce
    (h : s.takeWhile accepts ≠ []) :
    (ways (atLeastOnce .most (char accepts)) s).head? =
      some ⟨s.takeWhile accepts, [], s.dropWhile accepts⟩ := by
  cases s with
  | nil =>
      exact absurd rfl h
  | cons c s =>
      cases hc : accepts c with
      | true =>
          have hone : (ways (char accepts) (c :: s)).head? = some ⟨[c], [], s⟩ := by
            simp [ways, hc]
          rw [atLeastOnce, head?_ways_both hone (head?_ways_run accepts s)]
          simp [Way.andThen, hc]
      | false =>
          simp [hc] at h

theorem ways_atLeastOnce_covers
    {preference : Preference}
    (hm : m ∈ ways (atLeastOnce preference (char accepts)) s) :
    s = m.text ++ m.rest ∧ m.text ≠ [] ∧ ∀ c ∈ m.text, accepts c = true := by
  obtain ⟨first, hfirst, later, hlater, rfl⟩ := mem_ways_both_iff.mp hm
  obtain ⟨c, v, rfl, hc, rfl⟩ := eq_cons_of_mem_ways_char hfirst
  obtain ⟨hv, haccepts⟩ := ways_run_covers hlater
  refine ⟨congrArg _ hv, by simp [Way.andThen], ?_⟩
  intro d hd
  rcases List.mem_cons.mp hd with rfl | hd
  · exact hc
  · exact haccepts d hd

/-- A run and what follows it: either the run goes on or it ends here. -/
theorem ways_run_both_cons
    (accepts : Char → Bool)
    {c : Char}
    (hc : accepts c = true)
    (p : Pattern) :
    ways (both (repeated .most (char accepts)) p) (c :: s) =
      (ways (both (repeated .most (char accepts)) p) s).map (Way.andThen ⟨[c], [], s⟩) ++
        ways p (c :: s) := by
  rw [ways, ways_run_cons hc, List.flatMap_append, List.flatMap_map, ways, List.map_flatMap]
  congr 1
  · apply List.flatMap_congr
    intro m _
    rw [List.map_map]
    exact List.map_congr_left fun n _ => Way.andThen_assoc _ m n
  · have hstay : Way.andThen (.stay (c :: s)) = id := funext (Way.stay_andThen _)
    rw [List.flatMap_singleton, hstay, List.map_id]
    rfl

/-- Up to the first `q` there is one way only. -/
theorem ways_until
    {q : Char} {inside : List Char}
    (hinside : q ∉ inside)
    (s : List Char) :
    ways (both (repeated .most (char (· != q))) (only q)) (inside ++ q :: s) =
      [⟨inside ++ [q], [], s⟩] := by
  induction inside with
  | nil =>
      rw [List.nil_append, ways, ways_run_stop (by simp)]
      simp [only, ways, Way.stay, Way.andThen]
  | cons c inside ih =>
      obtain ⟨hc, htail⟩ := List.ne_and_not_mem_of_not_mem_cons hinside
      have hne : (c != q) = true := by
        simpa using hc.symm
      rw [List.cons_append, ways_run_both_cons (· != q) hne, ih htail]
      simp [only, ways, Way.andThen, hc.symm]

/-- Without a `q` there is none. -/
theorem ways_until_eq_nil
    {q : Char}
    (hs : q ∉ s) :
    ways (both (repeated .most (char (· != q))) (only q)) s = [] := by
  induction s with
  | nil =>
      simp [ways, only, repeatWays, Preference.arrange, Way.stay]
  | cons c s ih =>
      obtain ⟨hc, htail⟩ := List.ne_and_not_mem_of_not_mem_cons hs
      have hne : (c != q) = true := by
        simpa using hc.symm
      rw [ways_run_both_cons (· != q) hne, ih htail]
      simp [only, ways, hc.symm]

end Characters

end Pattern
end Text
end NuspecLint

import NuspecLint.Proofs.Text.Case

/-!
# Searching in a lowered text

Lowering a text may make it longer and depends on the context of its letters.  A search for ASCII
characters in the lowered text is still a search in the text itself, letters compared up to their
case in ASCII, as long as the letters `i` and `k` are not looked for.

**Table.**  Beyond ASCII, only the capital `I` with a dot above and the Kelvin sign are lowered to
something that holds an ASCII character.

**Results.**
* `code_of_mem_lowerIn`: what characters beyond ASCII are lowered to, in any context.
* `infix_lower_iff`: the two searches agree.
-/

namespace NuspecLint
namespace Text

section Characters

variable {c d : Char}

theorem toNat_ofNat
    {n : Nat}
    (h : n.isValidChar) :
    (Char.ofNat n).toNat = n := by
  rw [Char.ofNat, dif_pos h]
  rfl

/-- The runs that move characters beyond ASCII, the Kelvin sign apart, do not lead back to it. -/
theorem code_of_covers
    {r : CaseRun} {n : Nat}
    (hr : r ∈ lowerRuns)
    (hcovers : r.covers n = true)
    (hn : 0x80 ≤ n) :
    (r.target n).isValidChar ∧ (0x80 ≤ r.target n ∨ r.target n = 'k'.toNat) := by
  have htable : ∀ r ∈ lowerRuns,
      r.last < 0x80 ∨
      (0x80 ≤ (r.first : Int) + r.shift ∧ (r.last : Int) + r.shift < 0xD800) ∨
      (0xDFFF < (r.first : Int) + r.shift ∧ (r.last : Int) + r.shift < 0x110000) ∨
      (r.first = r.last ∧ (r.first : Int) + r.shift = 'k'.toNat) := by
    decide +kernel
  have hkelvin : 'k'.toNat = 107 := rfl
  simp only [CaseRun.covers, Bool.and_eq_true, decide_eq_true_eq] at hcovers
  rcases htable r hr with hascii | ⟨hlow, hhigh⟩ | ⟨hlow, hhigh⟩ | ⟨hsingle, hshift⟩
  · omega
  · have htarget : 0x80 ≤ r.target n ∧ r.target n < 0xD800 := by
      unfold CaseRun.target
      omega
    exact ⟨Or.inl htarget.2, Or.inl htarget.1⟩
  · have htarget : 0xDFFF < r.target n ∧ r.target n < 0x110000 := by
      unfold CaseRun.target
      omega
    exact ⟨Or.inr htarget, Or.inl (by omega)⟩
  · have htarget : r.target n = 107 := by
      unfold CaseRun.target
      omega
    exact ⟨Or.inl (by omega), Or.inr (htarget.trans hkelvin.symm)⟩

theorem code_of_mem_lowerChar
    (hc : 0x80 ≤ c.toNat)
    (hd : d ∈ lowerChar c) :
    0x80 ≤ d.toNat ∨ d = 'i' ∨ d = 'k' := by
  have hexpansions : ∀ e ∈ lowerExpansions, ∀ n ∈ e.2,
      n = 'i'.toNat ∨ 0x80 ≤ n ∧ n < 0xD800 := by
    decide
  rw [lowerChar, if_neg (by omega), mapCase] at hd
  cases hlookup : lowerExpansions.lookup c.toNat with
  | some codes =>
      rw [hlookup] at hd
      obtain ⟨n, hn, rfl⟩ := List.mem_map.mp hd
      obtain ⟨before, after, heq, _⟩ := List.lookup_eq_some_iff.mp hlookup
      rcases hexpansions (c.toNat, codes) (by simp [heq]) n hn with rfl | ⟨hlow, hhigh⟩
      · exact Or.inr (Or.inl rfl)
      · rw [toNat_ofNat (Or.inl hhigh)]
        exact Or.inl hlow
  | none =>
      rw [hlookup] at hd
      simp only at hd
      split at hd
      · next run hfind =>
          obtain rfl := List.mem_singleton.mp hd
          have hcovers := List.find?_some hfind
          obtain ⟨hvalid, hlow | hk⟩ :=
            code_of_covers (List.mem_of_find?_eq_some hfind) hcovers hc
          · rw [toNat_ofNat hvalid]
            exact Or.inl hlow
          · rw [hk]
            exact Or.inr (Or.inr rfl)
      · obtain rfl := List.mem_singleton.mp hd
        exact Or.inl hc

/-- What characters beyond ASCII are lowered to, in any context. -/
theorem code_of_mem_lowerIn
    {before after : List Char}
    (hc : 0x80 ≤ c.toNat)
    (hd : d ∈ lowerIn before c after) :
    0x80 ≤ d.toNat ∨ d = 'i' ∨ d = 'k' := by
  unfold lowerIn at hd
  split at hd
  · obtain rfl := List.mem_singleton.mp hd
    exact Or.inl (by decide)
  · exact code_of_mem_lowerChar hc hd

/-- No character is lowered to nothing. -/
theorem lowerIn_ne_nil (before : List Char) (c : Char) (after : List Char) :
    lowerIn before c after ≠ [] := by
  by_cases hc : c = '\r' ∨ c = '\n'
  · rcases hc with rfl | rfl
    · simp [lowerIn_return]
    · simp [lowerIn_feed]
  · rw [not_or] at hc
    exact (oneLine_lowerIn hc).2

/-- Within ASCII the context does not matter. -/
theorem lowerIn_ascii
    {before after : List Char}
    (hc : c.toNat < 0x80) :
    lowerIn before c after = [c.toLower] := by
  have hsigma : c ≠ capitalSigma := by
    rintro rfl
    exact absurd hc (by decide)
  simp [lowerIn, hsigma, lowerChar, hc]

/-- The character is in ASCII, and nothing beyond ASCII is lowered to it. -/
structure FromAscii (d : Char) : Prop where
  ascii : d.toNat < 0x80
  ne_i : d ≠ 'i'
  ne_k : d ≠ 'k'

theorem not_fromAscii_of_mem_lowerIn
    {before after : List Char}
    (hc : 0x80 ≤ c.toNat)
    (hd : d ∈ lowerIn before c after) :
    ¬ FromAscii d := by
  rintro ⟨hascii, hi, hk⟩
  rcases code_of_mem_lowerIn hc hd with h | h | h
  · omega
  · exact hi h
  · exact hk h

theorem toLower_of_not_ascii
    (hc : 0x80 ≤ c.toNat) :
    c.toLower = c := by
  have hletter : ¬ (c.val ≥ 'A'.val ∧ c.val ≤ 'Z'.val) := by
    rintro ⟨_, hlast⟩
    exact absurd (hc.trans (show c.toNat ≤ 'Z'.toNat from hlast)) (by decide)
  exact dif_neg hletter

end Characters

section Search

variable {t s : List Char}

/-- Other characters in front of a text bring no occurrence. -/
theorem infix_append_of_not_fromAscii
    {block : List Char}
    (hne : t ≠ [])
    (ht : ∀ d ∈ t, FromAscii d)
    (hblock : ∀ d ∈ block, ¬ FromAscii d) :
    t <:+: block ++ s ↔ t <:+: s := by
  obtain ⟨d, t, rfl⟩ := List.exists_cons_of_ne_nil hne
  induction block with
  | nil =>
      rfl
  | cons e block ih =>
      have hhead : ¬ d :: t <+: e :: (block ++ s) := by
        intro hpre
        obtain ⟨rfl, _⟩ := List.cons_prefix_cons.mp hpre
        exact hblock d (by simp) (ht d (by simp))
      rw [List.cons_append, List.infix_cons_iff, ih (fun d hd => hblock d (by simp [hd]))]
      exact or_iff_right hhead

/-- A lowered text starts with ASCII characters where the text does, up to case in ASCII. -/
theorem prefix_lowerAfter_iff
    (before : List Char)
    (ht : ∀ d ∈ t, FromAscii d) :
    t <+: lowerAfter before s ↔ ∃ window, window <+: s ∧ window.map Char.toLower = t := by
  induction t generalizing before s with
  | nil =>
      simp
  | cons d t ih =>
      have htail : ∀ e ∈ t, FromAscii e := fun e he => ht e (by simp [he])
      cases s with
      | nil =>
          simp [lowerAfter]
      | cons c s =>
          have hwindow : (∃ window, window <+: c :: s ∧ window.map Char.toLower = d :: t) ↔
              c.toLower = d ∧ ∃ window, window <+: s ∧ window.map Char.toLower = t := by
            constructor
            · rintro ⟨window, hpre, hmap⟩
              obtain ⟨e, window, rfl, rfl, rfl⟩ := List.map_eq_cons_iff.mp hmap
              obtain ⟨rfl, htail⟩ := List.cons_prefix_cons.mp hpre
              exact ⟨rfl, window, htail, rfl⟩
            · rintro ⟨rfl, window, hpre, rfl⟩
              exact ⟨c :: window, List.cons_prefix_cons.mpr ⟨rfl, hpre⟩, rfl⟩
          rw [hwindow, lowerAfter_cons]
          by_cases hc : c.toNat < 0x80
          · rw [lowerIn_ascii hc, List.singleton_append, List.cons_prefix_cons, ih _ htail]
            exact and_congr_left' eq_comm
          · -- Neither the character nor anything it is lowered to can be `d`.
            have hd := ht d (by simp)
            rw [not_lt] at hc
            obtain ⟨e, block, hblock⟩ := List.exists_cons_of_ne_nil (lowerIn_ne_nil before c s)
            constructor
            · intro hpre
              rw [hblock, List.cons_append] at hpre
              have hmem : e ∈ lowerIn before c s := by simp [hblock]
              obtain ⟨rfl, _⟩ := List.cons_prefix_cons.mp hpre
              exact absurd hd (not_fromAscii_of_mem_lowerIn hc hmem)
            · rintro ⟨rfl, _⟩
              rw [toLower_of_not_ascii hc] at hd
              exact absurd hd.ascii (by omega)

theorem infix_lowerAfter_iff
    (before : List Char)
    (hne : t ≠ [])
    (ht : ∀ d ∈ t, FromAscii d) :
    t <:+: lowerAfter before s ↔ ∃ window, window <:+: s ∧ window.map Char.toLower = t := by
  induction s generalizing before with
  | nil =>
      simp [lowerAfter, List.infix_nil, hne, eq_comm]
  | cons c s ih =>
      have hwindow : (∃ window, window <:+: c :: s ∧ window.map Char.toLower = t) ↔
          (∃ window, window <+: c :: s ∧ window.map Char.toLower = t) ∨
          ∃ window, window <:+: s ∧ window.map Char.toLower = t := by
        simp only [List.infix_cons_iff, or_and_right, exists_or]
      rw [hwindow, ← prefix_lowerAfter_iff before ht, ← ih (c :: before), lowerAfter_cons]
      by_cases hc : c.toNat < 0x80
      · rw [lowerIn_ascii hc, List.singleton_append, List.infix_cons_iff]
      · rw [not_lt] at hc
        have hblock : ∀ d ∈ lowerIn before c s, ¬ FromAscii d :=
          fun d hd => not_fromAscii_of_mem_lowerIn hc hd
        have hbehind :=
          infix_append_of_not_fromAscii (s := lowerAfter (c :: before) s) hne ht hblock
        rw [hbehind]
        exact (or_iff_right_of_imp fun hpre => hbehind.mp hpre.isInfix).symm

/--
Looking for ASCII characters other than `i` and `k` in a lowered text is looking for them in the
text itself, letters compared up to their case in ASCII.
-/
theorem infix_lower_iff
    (hne : t ≠ [])
    (ht : ∀ d ∈ t, FromAscii d) :
    t <:+: lower s ↔ ∃ window, window <:+: s ∧ window.map Char.toLower = t :=
  infix_lowerAfter_iff [] hne ht

end Search

end Text
end NuspecLint

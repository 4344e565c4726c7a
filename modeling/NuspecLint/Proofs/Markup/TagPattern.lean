import NuspecLint.Proofs.Markup.Pattern
import NuspecLint.Proofs.Text.Backtracking

/-!
# Start tags as a pattern with backtracking

A start tag can be described by a pattern: `<`, a name, as few plain characters and quoted strings
as possible, a slash if there is one, and `>`.  Names, attributes and the slash compete for the same
characters, and the pattern tries them in its own order.  The reader of start tags never goes back.
Both find the same tag.

**Results.**
* `StartTag.exists_closableAfter`: the first way through the tokens behind which a tag can be
  closed.
* `StartTag.head?_ways_afterName` and `StartTag.exists_body_of_mem_ways`: what is matched behind a
  name, and what can be matched there at all.
* `StartTag.exists_linear_of_mem_ways`: a name that is cut short never helps.
* `StartTag.pattern_linear`: the match is found by going from left to right once, and it is what the
  reader reads.
-/

namespace NuspecLint
namespace Markup

open Text

namespace StartTag

/-- The characters of a name: no white space and no punctuation of markup. -/
def nameClass (c : Char) : Bool :=
  !isBlank c && Pattern.noneOf ['/', '<', '>', '!', '?', '"', '\'', '='] c

/-- A string in quotes of one kind. -/
def stringPattern (q : Char) : Pattern :=
  .both (.only q) (.both (.repeated .most (.char (· != q))) (.only q))

/-- A plain character or a quoted string. -/
def tokenPattern : Pattern :=
  .either (.char (Pattern.noneOf ['<', '>', '"', '\'']))
    (.either (stringPattern '"') (stringPattern '\''))

/-- The end of a start tag. -/
def closePattern : Pattern :=
  .both (.group "close" (.optional (.only '/'))) (.only '>')

/-- A start tag from the end of its name on. -/
def afterNamePattern : Pattern :=
  .both (.group "attrs" (.repeated .fewest tokenPattern)) closePattern

/-- A start tag. -/
def pattern : Pattern :=
  .both (.only '<')
    (.both (.group "name" (.atLeastOnce .most (.char nameClass))) afterNamePattern)

/-- The tag that a match stands for, and what follows it. -/
def ofMatch (m : Way) : StartTag × List Char :=
  (⟨m.group "name", m.group "attrs", !(m.group "close").isEmpty⟩, m.rest)

section Tokens

theorem plainClass_eq_true_iff
    {c : Char} :
    Pattern.noneOf ['<', '>', '"', '\''] c = true ↔ IsPlain c := by
  simp only [Pattern.noneOf_eq_true_iff, List.mem_cons, List.not_mem_nil, or_false, not_or, IsPlain,
    isQuote, Bool.or_eq_false_iff, beq_eq_false_iff_ne, ne_eq]
  tauto

theorem nameClass_eq :
    nameClass = isTagNameChar := by
  funext c
  rw [Bool.eq_iff_iff]
  simp only [nameClass, Pattern.noneOf_eq_true_iff, List.mem_cons, List.not_mem_nil, or_false,
    not_or, Bool.and_eq_true, Bool.not_eq_eq_eq_not, Bool.not_true, isTagNameChar, isQuote,
    Bool.or_eq_false_iff, beq_eq_false_iff_ne, ne_eq, bne_iff_ne]
  tauto

theorem ways_string_cons (q : Char) (s : List Char) :
    (stringPattern q).ways (q :: s) =
      ((Pattern.both (.repeated .most (.char (· != q))) (.only q)).ways s).map
        (Way.andThen ⟨[q], [], s⟩) := by
  simp [stringPattern, Pattern.ways, Pattern.only]

theorem ways_string_of_ne
    {c q : Char} (s : List Char)
    (h : c ≠ q) :
    (stringPattern q).ways (c :: s) = [] := by
  simp [stringPattern, Pattern.ways, Pattern.only, h]

/-- A plain character is a token of its own. -/
theorem ways_token_plain
    {c : Char} (s : List Char)
    (hc : IsPlain c) :
    tokenPattern.ways (c :: s) = [⟨[c], [], s⟩] := by
  have hclass := plainClass_eq_true_iff.mpr hc
  obtain ⟨hquote, _, _⟩ := hc
  simp only [isQuote, Bool.or_eq_false_iff, beq_eq_false_iff_ne] at hquote
  simp only [tokenPattern, Pattern.ways, hclass, if_true, ways_string_of_ne s hquote.1,
    ways_string_of_ne s hquote.2, List.append_nil]

/-- A quoted string is a token in one way only. -/
theorem ways_token_quoted
    {q : Char} {inside : List Char} (s : List Char)
    (hquote : isQuote q = true)
    (hinside : q ∉ inside) :
    tokenPattern.ways (q :: (inside ++ q :: s)) = [⟨q :: (inside ++ [q]), [], s⟩] := by
  have hstring := ways_string_cons q (inside ++ q :: s)
  rw [Pattern.ways_until hinside] at hstring
  simp only [isQuote, Bool.or_eq_true, beq_iff_eq] at hquote
  rcases hquote with rfl | rfl
  · rw [tokenPattern, Pattern.ways, Pattern.ways, Pattern.ways, hstring,
      ways_string_of_ne _ (by decide)]
    simp [Way.andThen]
  · rw [tokenPattern, Pattern.ways, Pattern.ways, Pattern.ways, hstring,
      ways_string_of_ne _ (by decide)]
    simp [Way.andThen]

/-- A string is closed by the quote that opens it. -/
theorem ways_string_covers
    {q : Char} {s : List Char} {m : Way}
    (hquote : isQuote q = true)
    (hm : m ∈ (stringPattern q).ways s) :
    s = m.text ++ m.rest ∧ TagBody m.text := by
  cases s with
  | nil =>
      cases hm
  | cons c s =>
      by_cases hc : c = q
      · subst hc
        rw [ways_string_cons] at hm
        by_cases hpartner : c ∈ s
        · obtain ⟨inside, s, rfl, hinside⟩ := List.eq_append_cons_of_mem hpartner
          rw [Pattern.ways_until hinside] at hm
          cases List.mem_singleton.mp hm
          refine ⟨by simp [Way.andThen], ?_⟩
          exact TagBody.quoted hquote hinside TagBody.nil
        · rw [Pattern.ways_until_eq_nil hpartner] at hm
          cases hm
      · rw [ways_string_of_ne s hc] at hm
        cases hm

/-- Every token is a plain character or a quoted string. -/
theorem ways_token_covers
    {s : List Char} {m : Way}
    (hm : m ∈ tokenPattern.ways s) :
    s = m.text ++ m.rest ∧ TagBody m.text := by
  rw [tokenPattern, Pattern.ways, Pattern.ways, List.mem_append, List.mem_append] at hm
  rcases hm with hm | hm | hm
  · obtain ⟨c, v, rfl, hc, rfl⟩ := Pattern.eq_cons_of_mem_ways_char hm
    exact ⟨rfl, TagBody.plain (plainClass_eq_true_iff.mp hc) TagBody.nil⟩
  · exact ways_string_covers rfl hm
  · exact ways_string_covers rfl hm

/-- Tokens are tried one after the other, the shortest stretch of them first. -/
theorem ways_tokens_of_one
    {s u v : List Char}
    (hone : tokenPattern.ways s = [⟨u, [], v⟩])
    (hlt : v.length < s.length) :
    (Pattern.repeated .fewest tokenPattern).ways s =
      .stay s ::
        ((Pattern.repeated .fewest tokenPattern).ways v).map (Way.andThen ⟨u, [], v⟩) := by
  rw [Pattern.ways, Pattern.repeatWays_of_covering (by simpa [hone] using hlt), hone]
  simp [Preference.arrange, Pattern.ways]

theorem ways_tokens_covers
    {s : List Char} {m : Way}
    (hm : m ∈ (Pattern.repeated .fewest tokenPattern).ways s) :
    s = m.text ++ m.rest ∧ TagBody m.text :=
  Pattern.repeatWays_covers TagBody.nil (fun _ _ => TagBody.append)
    (fun _ _ => ways_token_covers) hm

end Tokens

section Close

/-- A tag is closed by `>` or `/>`. -/
theorem ways_close
    {close : List Char} (s : List Char)
    (h : close = [] ∨ close = ['/']) :
    closePattern.ways (close ++ '>' :: s) = [⟨close ++ ['>'], [("close", close)], s⟩] := by
  rcases h with rfl | rfl
  · rfl
  · rfl

/-- A tag is closed by nothing else. -/
theorem exists_close_of_mem_ways
    {s : List Char} {m : Way}
    (hm : m ∈ closePattern.ways s) :
    ∃ close, (close = [] ∨ close = ['/']) ∧ s = close ++ '>' :: m.rest := by
  rw [closePattern, Pattern.ways] at hm
  obtain ⟨slash, hslash, hm⟩ := List.mem_flatMap.mp hm
  obtain ⟨stop, hstop, rfl⟩ := List.mem_map.mp hm
  obtain ⟨c, rest, hrest, hc, rfl⟩ := Pattern.eq_cons_of_mem_ways_char hstop
  rw [beq_iff_eq] at hc
  subst hc
  rw [Pattern.ways] at hslash
  obtain ⟨found, hfound, rfl⟩ := List.mem_map.mp hslash
  rw [Pattern.optional, Pattern.ways, List.mem_append] at hfound
  rcases hfound with hfound | hfound
  · obtain ⟨d, v, rfl, hd, rfl⟩ := Pattern.eq_cons_of_mem_ways_char hfound
    rw [beq_iff_eq] at hd
    exact ⟨['/'], Or.inr rfl, by rw [hd]; exact congrArg _ hrest⟩
  · cases List.mem_singleton.mp hfound
    exact ⟨[], Or.inl rfl, hrest⟩

theorem ways_close_eq_nil
    {c : Char} {s : List Char}
    (hgt : c ≠ '>')
    (hslash : c = '/' → s.head? ≠ some '>') :
    closePattern.ways (c :: s) = [] := by
  rw [List.eq_nil_iff_forall_not_mem]
  intro m hm
  obtain ⟨close, rfl | rfl, hs⟩ := exists_close_of_mem_ways hm
  · cases hs
    exact hgt rfl
  · cases hs
    exact hslash rfl rfl

end Close

section AfterName

/-- The body of a tag does not begin with its end. -/
theorem head?_ne_of_tagBody
    {body : List Char} (s : List Char)
    (hbody : TagBody body)
    (hne : body ≠ []) :
    (body ++ s).head? ≠ some '>' := by
  cases hbody with
  | nil =>
      exact absurd rfl hne
  | plain hc =>
      simpa using hc.2.2
  | quoted hquote =>
      rintro hhead
      cases hhead
      simp [isQuote] at hquote

/--
The first way through the tokens of `s` behind which a tag can be closed covers `attributes`, and
`close` is what follows.
-/
def ClosableAfter (s attributes close : List Char) : Prop :=
  ∃ before further,
    (Pattern.repeated .fewest tokenPattern).ways s =
      before ++ ⟨attributes, [], close⟩ :: further ∧
    ∀ m ∈ before, closePattern.ways m.rest = []

/-- No token at all is tried first. -/
theorem closableAfter_nil (s : List Char) :
    ClosableAfter s [] s := by
  obtain ⟨further, hways⟩ := Pattern.exists_repeatWays_fewest tokenPattern.ways s
  exact ⟨[], further, hways, by simp⟩

/-- A token is taken where the tag cannot be closed. -/
theorem ClosableAfter.token
    {s u v attributes close : List Char}
    (hone : tokenPattern.ways s = [⟨u, [], v⟩])
    (hlt : v.length < s.length)
    (hopen : closePattern.ways s = [])
    (h : ClosableAfter v attributes close) :
    ClosableAfter s (u ++ attributes) close := by
  obtain ⟨before, further, hways, hbefore⟩ := h
  refine ⟨.stay s :: before.map (Way.andThen ⟨u, [], v⟩),
    further.map (Way.andThen ⟨u, [], v⟩), ?_, ?_⟩
  · rw [ways_tokens_of_one hone hlt, hways]
    simp [Way.andThen]
  · intro m hm
    rcases List.mem_cons.mp hm with rfl | hm
    · exact hopen
    · obtain ⟨later, hlater, rfl⟩ := List.mem_map.mp hm
      exact hbefore later hlater

/-- The body of a tag is cut before the slash at its end, if it ends with one. -/
structure SlashCut (body attributes close : List Char) : Prop where
  eq_append : body = attributes ++ close
  close_eq : close = [] ∧ body.getLast? ≠ some '/' ∨ close = ['/']

/-- A text ends with a slash only if its last part does. -/
theorem getLast?_append_ne_slash
    {u v : List Char}
    (hu : v = [] → u.getLast? ≠ some '/')
    (hv : v.getLast? ≠ some '/') :
    (u ++ v).getLast? ≠ some '/' := by
  cases v using List.reverseRec with
  | nil =>
      simpa using hu rfl
  | append_singleton v c =>
      simpa [← List.append_assoc] using hv

namespace SlashCut

variable {body attributes close : List Char}

/-- What stands before a body does not change where it is cut. -/
theorem append_left
    {u : List Char}
    (h : SlashCut body attributes close)
    (hu : body = [] → u.getLast? ≠ some '/') :
    SlashCut (u ++ body) (u ++ attributes) close := by
  refine ⟨by rw [h.eq_append, List.append_assoc], h.close_eq.imp_left ?_⟩
  rintro ⟨rfl, hlast⟩
  exact ⟨rfl, getLast?_append_ne_slash hu hlast⟩

theorem close_cases
    (h : SlashCut body attributes close) :
    close = [] ∨ close = ['/'] :=
  h.close_eq.imp_left And.left

theorem close_eq_slash_iff
    (h : SlashCut body attributes close) :
    close = ['/'] ↔ body.getLast? = some '/' := by
  rcases h.close_eq with ⟨rfl, hlast⟩ | rfl
  · simpa using hlast
  · simp [h.eq_append]

theorem ofBody_eq
    (name : List Char)
    (h : SlashCut body attributes close) :
    ofBody name body = ⟨name, attributes, !close.isEmpty⟩ := by
  have hbody := h.eq_append
  rcases h.close_eq with ⟨rfl, hlast⟩ | rfl
  · rw [List.append_nil] at hbody
    subst hbody
    simp [ofBody, hlast]
  · simp [ofBody, hbody]

end SlashCut

/-- A slash right before the `>` is left to the end of the tag, and nothing else is. -/
theorem exists_closableAfter
    {body : List Char} (rest : List Char)
    (hbody : TagBody body) :
    ∃ attributes close,
      ClosableAfter (body ++ '>' :: rest) attributes (close ++ '>' :: rest) ∧
      SlashCut body attributes close := by
  induction hbody with
  | nil =>
      exact ⟨[], [], closableAfter_nil _, rfl, Or.inl ⟨rfl, by simp⟩⟩
  | @plain c s hc hs ih =>
      by_cases hslash : c = '/' ∧ s = []
      · obtain ⟨rfl, rfl⟩ := hslash
        exact ⟨[], ['/'], closableAfter_nil _, rfl, Or.inr rfl⟩
      · obtain ⟨attributes, close, hclosable, hcut⟩ := ih
        have hopen : closePattern.ways (c :: (s ++ '>' :: rest)) = [] :=
          ways_close_eq_nil hc.2.2 fun heq =>
            head?_ne_of_tagBody _ hs fun hnil => hslash ⟨heq, hnil⟩
        have hlast : s = [] → [c].getLast? ≠ some '/' := by
          intro hnil
          simpa using fun heq => hslash ⟨heq, hnil⟩
        exact ⟨[c] ++ attributes, close,
          hclosable.token (ways_token_plain _ hc) (by simp) hopen, hcut.append_left hlast⟩
  | @quoted q inside s hquote hinside hs ih =>
      obtain ⟨attributes, close, hclosable, hcut⟩ := ih
      have hgt : q ≠ '>' := by
        rintro rfl
        simp [isQuote] at hquote
      have hslash : q ≠ '/' := by
        rintro rfl
        simp [isQuote] at hquote
      have hone := ways_token_quoted (s ++ '>' :: rest) hquote hinside
      have hopen : closePattern.ways (q :: (inside ++ q :: (s ++ '>' :: rest))) = [] :=
        ways_close_eq_nil hgt fun heq => absurd heq hslash
      have hlast : (q :: (inside ++ [q])).getLast? ≠ some '/' := by
        rw [← List.cons_append, List.getLast?_concat]
        simpa using hslash
      refine ⟨q :: (inside ++ [q]) ++ attributes, close, ?_, ?_⟩
      · simpa using hclosable.token hone (by simp; omega) hopen
      · simpa using hcut.append_left fun _ => hlast

/-- Behind a name, the tag that is matched first ends with the first `>` outside strings. -/
theorem head?_ways_afterName
    {body : List Char} (rest : List Char)
    (hbody : TagBody body) :
    ∃ attributes close,
      (afterNamePattern.ways (body ++ '>' :: rest)).head? =
        some ⟨body ++ ['>'], [("attrs", attributes), ("close", close)], rest⟩ ∧
      SlashCut body attributes close := by
  obtain ⟨attributes, close, ⟨before, further, hways, hbefore⟩, hcut⟩ :=
    exists_closableAfter rest hbody
  refine ⟨attributes, close, ?_, hcut⟩
  have hgroup : (Pattern.group "attrs" (.repeated .fewest tokenPattern)).ways
      (body ++ '>' :: rest) =
        before.map (Way.named "attrs") ++
          ⟨attributes, [("attrs", attributes)], close ++ '>' :: rest⟩ ::
            further.map (Way.named "attrs") := by
    rw [Pattern.ways, hways]
    simp [Way.named]
  have hlast := congrArg List.head? (ways_close rest hcut.close_cases)
  rw [afterNamePattern, Pattern.head?_ways_both_of_first hgroup ?_ hlast]
  · simp [Way.andThen, hcut.eq_append]
  · intro m hm
    obtain ⟨earlier, hearlier, rfl⟩ := List.mem_map.mp hm
    exact hbefore earlier hearlier

/-- Behind a name, only a body and a `>` are matched. -/
theorem exists_body_of_mem_ways
    {s : List Char} {m : Way}
    (hm : m ∈ afterNamePattern.ways s) :
    ∃ body, s = body ++ '>' :: m.rest ∧ TagBody body := by
  obtain ⟨attributes, hattributes, stop, hstop, rfl⟩ := Pattern.mem_ways_both_iff.mp hm
  rw [Pattern.ways] at hattributes
  obtain ⟨tokens, htokens, rfl⟩ := List.mem_map.mp hattributes
  obtain ⟨hs, hbody⟩ := ways_tokens_covers htokens
  obtain ⟨close, hclose, hrest⟩ := exists_close_of_mem_ways hstop
  refine ⟨tokens.text ++ close, ?_, hbody.append ?_⟩
  · rw [hs, List.append_assoc]
    exact congrArg _ hrest
  · rcases hclose with rfl | rfl
    · exact TagBody.nil
    · exact TagBody.plain (by decide) TagBody.nil

end AfterName

section WholeTag

/--
The text behind a `<`, read from left to right: the longest run of name characters, which is not
empty; plain characters and whole strings; and the `>` before `rest`.
-/
structure Linear (s name body rest : List Char) : Prop where
  name_eq : name = s.takeWhile isTagNameChar
  name_ne_nil : name ≠ []
  eq_append : s.dropWhile isTagNameChar = body ++ '>' :: rest
  tagBody : TagBody body

variable {s name body rest : List Char}

/-- A name that is cut short does not help: what stands behind the whole name decides. -/
theorem exists_linear_of_mem_ways
    {m : Way}
    (hm : m ∈ pattern.ways ('<' :: s)) :
    ∃ name body rest, Linear s name body rest := by
  obtain ⟨lt, hlt, tag, htag, rfl⟩ := Pattern.mem_ways_both_iff.mp hm
  obtain ⟨_, _, heq, _, rfl⟩ := Pattern.eq_cons_of_mem_ways_char hlt
  cases heq
  obtain ⟨name, hname, stop, hstop, rfl⟩ := Pattern.mem_ways_both_iff.mp htag
  rw [nameClass_eq, Pattern.ways] at hname
  obtain ⟨run, hrun, rfl⟩ := List.mem_map.mp hname
  obtain ⟨hs, hne, hchars⟩ := Pattern.ways_atLeastOnce_covers hrun
  obtain ⟨body, hrest, hbody⟩ := exists_body_of_mem_ways hstop
  change s = run.text ++ run.rest at hs
  change run.rest = body ++ '>' :: stop.rest at hrest
  have hcut := splitTagEnd?_of_tagBody stop.rest hbody
  rw [← hrest, ← List.takeWhile_append_dropWhile (p := isTagNameChar) (l := run.rest),
    splitTagEnd?_append_plain _
      fun c hc => isPlain_of_isTagNameChar (List.mem_takeWhile_imp hc)] at hcut
  obtain ⟨⟨whole, after⟩, hwhole, _⟩ := Option.map_eq_some_iff.mp hcut
  refine ⟨_, whole, after, rfl, ?_, ?_, tagBodyAfter_of_splitTagEnd? hwhole⟩
  · rw [hs, List.takeWhile_append_of_pos hchars]
    simp [hne]
  · rw [hs, List.dropWhile_append_of_pos hchars]
    exact eq_append_of_splitTagEnd? hwhole

/-- The reader goes from left to right. -/
theorem Linear.read?_eq
    (h : Linear s name body rest) :
    read? ('<' :: s) = some (ofBody name body, rest) := by
  simp [read?, ← h.name_eq, h.name_ne_nil, h.eq_append, splitTagEnd?_of_tagBody rest h.tagBody]

theorem exists_linear_of_read?
    {t : StartTag × List Char}
    (h : read? ('<' :: s) = some t) :
    ∃ name body rest, Linear s name body rest := by
  simp only [read?] at h
  split at h
  · cases h
  · next hne =>
      obtain ⟨⟨body, rest⟩, hcut, _⟩ := Option.map_eq_some_iff.mp h
      exact ⟨_, body, rest, rfl, by simpa using hne, eq_append_of_splitTagEnd? hcut,
        tagBodyAfter_of_splitTagEnd? hcut⟩

/-- The whole name is tried first, and it is the name that counts. -/
theorem Linear.exists_match?_eq
    (h : Linear s name body rest) :
    ∃ attributes close,
      pattern.match? ('<' :: s) =
        some ⟨'<' :: (name ++ body ++ ['>']),
          [("name", name), ("attrs", attributes), ("close", close)], rest⟩ ∧
      SlashCut body attributes close := by
  obtain ⟨attributes, close, hafter, hcut⟩ := head?_ways_afterName rest h.tagBody
  refine ⟨attributes, close, ?_, hcut⟩
  have hlt : ((Pattern.only '<').ways ('<' :: s)).head? = some ⟨['<'], [], s⟩ := rfl
  have hname : ((Pattern.group "name" (.atLeastOnce .most (.char isTagNameChar))).ways s).head? =
      some ⟨name, [("name", name)], body ++ '>' :: rest⟩ := by
    rw [Pattern.ways, List.head?_map, Pattern.head?_ways_atLeastOnce (h.name_eq ▸ h.name_ne_nil),
      ← h.name_eq, h.eq_append]
    rfl
  rw [Pattern.match?, pattern, nameClass_eq,
    Pattern.head?_ways_both hlt (Pattern.head?_ways_both hname hafter)]
  simp [Way.andThen]

/-- A tag closes itself exactly if a slash stands before its `>`. -/
theorem Linear.getLast?_eq_iff
    (h : Linear s name body rest) :
    (name ++ body).getLast? = some '/' ↔ body.getLast? = some '/' := by
  have hname : name.getLast? ≠ some '/' := by
    intro hlast
    have hmem := List.mem_of_getLast? hlast
    rw [h.name_eq] at hmem
    have hchar := List.mem_takeWhile_imp hmem
    simp [isTagNameChar] at hchar
  rw [← not_iff_not]
  constructor
  · intro hwhole hbody
    exact hwhole (by rw [List.getLast?_append, hbody]; rfl)
  · exact getLast?_append_ne_slash fun _ => hname

/--
**Start tags are recognised from left to right.**  At a `<` the pattern matches exactly if a name of
the greatest length, a body and a `>` follow.  Then the match covers just these, its name is that
name, its slash is the one before the `>`, and its attributes are all between.  The reader reads the
tag that is matched, and none if there is no match.
-/
theorem pattern_linear
    {source : List Char} {pos : Nat}
    (h : source[pos]? = some '<') :
    ((pattern.match? (source.drop pos)).isSome = true ↔
      ∃ name body rest, Linear (source.drop (pos + 1)) name body rest) ∧
    (∀ name body rest, Linear (source.drop (pos + 1)) name body rest →
      ∃ attributes close,
        pattern.match? (source.drop pos) =
          some ⟨'<' :: (name ++ body ++ ['>']),
            [("name", name), ("attrs", attributes), ("close", close)], rest⟩ ∧
        body = attributes ++ close ∧
        (close = [] ∨ close = ['/']) ∧
        (close = ['/'] ↔ (name ++ body).getLast? = some '/')) ∧
    read? (source.drop pos) = (pattern.match? (source.drop pos)).map ofMatch := by
  have hdrop : source.drop pos = '<' :: source.drop (pos + 1) := by
    obtain ⟨hlt, heq⟩ := List.getElem?_eq_some_iff.mp h
    rw [List.drop_eq_getElem_cons hlt, heq]
  rw [hdrop]
  refine ⟨⟨?_, ?_⟩, ?_, ?_⟩
  · intro hsome
    obtain ⟨m, hm⟩ := Option.isSome_iff_exists.mp hsome
    exact exists_linear_of_mem_ways (List.mem_of_head? hm)
  · rintro ⟨name, body, rest, hlinear⟩
    obtain ⟨attributes, close, hmatch, _⟩ := hlinear.exists_match?_eq
    rw [hmatch]
    rfl
  · intro name body rest hlinear
    obtain ⟨attributes, close, hmatch, hcut⟩ := hlinear.exists_match?_eq
    refine ⟨attributes, close, hmatch, hcut.eq_append, hcut.close_cases, ?_⟩
    rw [hlinear.getLast?_eq_iff, hcut.close_eq_slash_iff]
  · by_cases hlinear : ∃ name body rest, Linear (source.drop (pos + 1)) name body rest
    · obtain ⟨name, body, rest, hlinear⟩ := hlinear
      obtain ⟨attributes, close, hmatch, hcut⟩ := hlinear.exists_match?_eq
      rw [hlinear.read?_eq, hmatch, hcut.ofBody_eq name]
      rfl
    · have hread : read? ('<' :: source.drop (pos + 1)) = none := by
        rw [Option.eq_none_iff_forall_ne_some]
        intro tag htag
        exact hlinear (exists_linear_of_read? htag)
      have hmatch : pattern.match? ('<' :: source.drop (pos + 1)) = none := by
        rw [Option.eq_none_iff_forall_ne_some]
        intro m hm
        exact hlinear (exists_linear_of_mem_ways (List.mem_of_head? hm))
      rw [hread, hmatch]
      rfl

/-- Slashes and a `>` inside strings, slashes among the attributes, and one that closes the tag. -/
theorem pattern_linear_slashes :
    ∃ source : List Char,
      source = "x<a/b='>' c=\"/\"/ d//>y<".toList ∧
      source[1]? = some '<' ∧
      Linear (source.drop 2) ['a'] "/b='>' c=\"/\"/ d//".toList "y<".toList ∧
      pattern.match? (source.drop 1) =
        some ⟨"<a/b='>' c=\"/\"/ d//>".toList,
          [("name", ['a']), ("attrs", "/b='>' c=\"/\"/ d/".toList), ("close", ['/'])],
          "y<".toList⟩ := by
  have hlt : "x<a/b='>' c=\"/\"/ d//>y<".toList[1]? = some '<' := by decide
  have hcut : splitTagEnd? none "/b='>' c=\"/\"/ d//>y<".toList =
      some ("/b='>' c=\"/\"/ d//".toList, "y<".toList) := by
    decide
  have hlinear : Linear ("x<a/b='>' c=\"/\"/ d//>y<".toList.drop 2) ['a']
      "/b='>' c=\"/\"/ d//".toList "y<".toList :=
    ⟨by decide, by decide, by decide, tagBodyAfter_of_splitTagEnd? hcut⟩
  obtain ⟨_, hmatched, _⟩ := pattern_linear hlt
  obtain ⟨attributes, close, hmatch, hbody, _, hclose⟩ := hmatched _ _ _ hlinear
  obtain rfl := hclose.mpr (by decide)
  change "/b='>' c=\"/\"/ d/".toList ++ ['/'] = attributes ++ ['/'] at hbody
  cases List.append_cancel_right hbody
  exact ⟨_, rfl, hlt, hlinear, hmatch⟩

end WholeTag

end StartTag

end Markup
end NuspecLint

import NuspecLint.Command.Check
import NuspecLint.Proofs.Analysis
import NuspecLint.Proofs.Data.Traversal
import NuspecLint.Proofs.FileSystem
import NuspecLint.Proofs.Rule.LineEnds

/-!
# The command and the server

A manifest is checked on the command line, where its line ends are unified as the file is read, and
in an editor, which sends the text as it is.

**Results.**
* `Workspace.chosen_of_rulesFor`: of the rules configured for a manifest, at most one measures the
  description.
* `analyze_alike_iff`: unifying line ends changes no report but that one.
* `Workspace.check_agrees_iff`: the command and the server report the same exactly if the length of
  the description is judged alike; they do if no line end has two characters.
-/

namespace NuspecLint

open Text Markup

section Rules

variable {c : Config} {rules : List Rule}

/-- Some of the registered rules, in order, with any bounds. -/
def Chosen (rules : List Rule) : Prop :=
  ∃ first second,
    rules = first ++ second ∧
    (first = [] ∨ first = [Rule.placeholder]) ∧
    (second = [] ∨ ∃ b, second = [Rule.description b])

theorem Config.applyOptions_placeholder (c : Config) :
    c.applyOptions .placeholder = .ok .placeholder := by
  unfold applyOptions
  split
  · rfl
  · rfl
  · simp [Rule.isConfigurable]

theorem Config.applyOptions_description
    {b : LengthBounds} {r : Rule}
    (h : c.applyOptions (.description b) = .ok r) :
    ∃ b', r = .description b' := by
  unfold applyOptions at h
  split at h
  · cases h
    exact ⟨b, rfl⟩
  · cases h
    exact ⟨b, rfl⟩
  · next options _ _ =>
      simp only [Rule.isConfigurable, if_true, Rule.configure] at h
      cases hbounds : b.configure options with
      | error f =>
          rw [hbounds] at h
          cases h
      | ok b' =>
          rw [hbounds] at h
          cases h
          exact ⟨b', rfl⟩

/-- The configured rules are chosen from the registered ones. -/
theorem Config.chosen_of_buildRules
    (h : c.buildRules Rule.registered = .ok rules) :
    Chosen rules := by
  have hbuilt := mapM_eq_ok_iff.mp h
  rw [Rule.registered, List.filter_cons, List.filter_cons, List.filter_nil] at hbuilt
  have hsecond : ∀ {rules},
      List.Forall₂ (fun r r' => c.applyOptions r = .ok r')
        (if c.isEnabled (Rule.description .standard).id then [.description .standard] else [])
        rules →
      rules = [] ∨ ∃ b, rules = [Rule.description b] := by
    intro rules hrules
    split at hrules
    · obtain ⟨r, rest, hr, hrest, rfl⟩ := List.forall₂_cons_left_iff.mp hrules
      obtain ⟨b, rfl⟩ := applyOptions_description hr
      exact Or.inr ⟨b, by rw [List.forall₂_nil_left_iff.mp hrest]⟩
    · exact Or.inl (List.forall₂_nil_left_iff.mp hrules)
  split at hbuilt
  · obtain ⟨r, second, hr, hrest, rfl⟩ := List.forall₂_cons_left_iff.mp hbuilt
    rw [applyOptions_placeholder] at hr
    cases hr
    exact ⟨[.placeholder], second, rfl, Or.inr rfl, hsecond hrest⟩
  · exact ⟨[], rules, rfl, Or.inl rfl, hsecond hbuilt⟩

theorem Workspace.chosen_of_rulesFor
    {w : Workspace} {p : Path}
    (h : (w.rulesFor p).value = .ok rules) :
    Chosen rules := by
  simp only [rulesFor, Logged.bind] at h
  split at h
  · cases h
  · split at h
    · cases h
    · next hbuild =>
        cases h
        exact Config.chosen_of_buildRules hbuild

end Rules

/-- Unifying line ends changes what is reported only through the length of the description. -/
theorem analyze_alike_iff
    {rules : List Rule}
    (hrules : Chosen rules)
    (source : List Char) :
    (analyze rules (normalizeNewlines source)).value.map Diagnostic.shown =
        (analyze rules source).value.map Diagnostic.shown ↔
      ∀ b tree, Rule.description b ∈ rules → parse source = .ok tree →
        Description.JudgedAlike b tree := by
  cases hparse : parse source with
  | error u =>
      obtain ⟨u', hparse', _⟩ := parse_normalizeNewlines_error hparse
      simp [analyze, hparse, hparse']
  | ok tree =>
      obtain ⟨tree', hparse', hspots⟩ := parse_normalizeNewlines hparse
      have halike := hspots.samePosition
      obtain ⟨first, second, rfl, hfirst, hsecond⟩ := hrules
      have hplaceholder :
          (first.flatMap fun r =>
            (runRule tree' (.ofText (normalizeNewlines source)) r).value).map Diagnostic.shown =
          (first.flatMap fun r =>
            (runRule tree (.ofText source) r).value).map Diagnostic.shown := by
        rcases hfirst with rfl | rfl
        · rfl
        · simpa [runRule, Rule.check, Logged.pure] using Placeholder.check_alike halike
      have hmem : ∀ b, Rule.description b ∉ first := by
        rcases hfirst with rfl | rfl <;> simp
      simp only [analyze, hparse, hparse', runRules_value, List.flatMap_append, List.map_append,
        hplaceholder, List.append_cancel_left_eq, List.mem_append, hmem, false_or,
        Except.ok.injEq]
      rcases hsecond with rfl | ⟨b, rfl⟩
      · simp
      · simpa using Description.check_alike_iff b halike

namespace Workspace

variable {w : Workspace} {p : Path}

theorem manifests_of_read
    {bytes : List UInt8}
    (h : w.read p = .ok bytes) :
    w.manifests [p] = .ok [p] := by
  have hfind := find?_of_read h
  obtain ⟨l, hlocate, _⟩ := find?_eq_some_iff.mp hfind
  obtain ⟨hnull, _, _⟩ := locate_eq_ok_iff.mp hlocate
  have hdirectory : w.isDirectory p = false := by
    rw [isDirectory, hfind]
  have hexpand : w.expand p = .ok [p] := by
    rw [expand, ask_eq (refusal?_of_locate hlocate), hdirectory]
    rfl
  rw [manifests, mapM_cons_of_ok hexpand]
  simp [hnull, firstOfEach, Except.map, pure, Except.pure, bind, Except.bind]

/--
**The command and the server.**  For a file that can be read as text and a configuration that is
accepted, the command prints the reports about the text with unified line ends, and the server
makes those about the text itself, by the same rules.  The two have the same rules, messages and
places exactly if the length of the description is judged alike with and without unified line ends.
They do if no line end has two characters.
-/
theorem check_agrees_iff
    {bytes : List UInt8} {text : List Char} {rules : List Rule}
    (hread : w.read p = .ok bytes)
    (htext : Utf8.decodeMarked bytes = .ok text)
    (hrules : (w.rulesFor p).value = .ok rules) :
    (w.check [p]).output =
      (analyze rules (normalizeNewlines text)).value.map
        (fun d => printed (diagnosticLine p d)) ∧
    (w.rulesOrAll (some p)).value = .ok rules ∧
    ((analyze rules (normalizeNewlines text)).value.map Diagnostic.shown =
        (analyze rules text).value.map Diagnostic.shown ↔
      ∀ b tree, Rule.description b ∈ rules → parse text = .ok tree →
        Description.JudgedAlike b tree) ∧
    (¬ ['\r', '\n'] <:+: text →
      (analyze rules (normalizeNewlines text)).value.map Diagnostic.shown =
        (analyze rules text).value.map Diagnostic.shown) := by
  have hiff := analyze_alike_iff (chosen_of_rulesFor hrules) text
  refine ⟨?_, ?_, hiff, ?_⟩
  · have hmanifest : w.readManifest p = .ok (normalizeNewlines text) := by
      rw [readManifest, hread]
      simp only [htext]
    rw [check, manifests_of_read hread]
    simp only [checkAll, hmanifest, hrules, List.append_nil]
  · simp only [rulesOrAll, Logged.bind, hrules]
    rfl
  · intro hpairs
    exact hiff.mpr fun b tree _ hparse => Description.judgedAlike_of_not_infix b hparse hpairs

/-- A workspace with one manifest and no configuration. -/
def withManifest (text : List Char) : Workspace :=
  ⟨⟨[(["m.nuspec"], .file (Utf8.encode text))], []⟩, ⟨.root, []⟩, .usual⟩

/-- Its path, as seen from the working directory. -/
def onlyManifest : Path :=
  ⟨.relative, ["m.nuspec"]⟩

/-- A text with line ends of one character only. -/
def apartText : List Char :=
  "<description>A\n\rtool</description>".toList

/-- A carriage return that no line feed follows counts as one character for both. -/
theorem check_agrees_iff_apart :
    (analyze Rule.registered (normalizeNewlines apartText)).value.map Diagnostic.shown =
      (analyze Rule.registered apartText).value.map Diagnostic.shown := by
  have hread : (withManifest apartText).read onlyManifest = .ok (Utf8.encode apartText) := rfl
  have htext : Utf8.decodeMarked (Utf8.encode apartText) = .ok apartText := by
    decide +kernel
  have hrules : ((withManifest apartText).rulesFor onlyManifest).value = .ok Rule.registered := rfl
  obtain ⟨_, _, _, hpairs⟩ := check_agrees_iff hread htext hrules
  exact hpairs (by decide +kernel)

/-- A description of 31 characters; with unified line ends it has 30. -/
def pairText : List Char :=
  "<description>A tool that\r\nkeeps things going</description>".toList

/-- The command reports a description as too short that the server accepts. -/
theorem check_disagrees_on_pair :
    (withManifest pairText).read onlyManifest = .ok (Utf8.encode pairText) ∧
    Utf8.decodeMarked (Utf8.encode pairText) = .ok pairText ∧
    ((withManifest pairText).rulesFor onlyManifest).value = .ok Rule.registered ∧
    ((withManifest pairText).check [onlyManifest]).exitCode = 1 ∧
    (∃ message,
      Description.Finding.message .standard .tooShort = .ok message ∧
      (analyze Rule.registered (normalizeNewlines pairText)).value.map Diagnostic.shown =
        [(Description.id, message, ⟨0, 13⟩)]) ∧
    (analyze Rule.registered pairText).value = [] :=
  ⟨rfl, by decide +kernel, rfl, by decide +kernel, ⟨_, rfl, by decide +kernel⟩,
    by decide +kernel⟩

end Workspace

end NuspecLint

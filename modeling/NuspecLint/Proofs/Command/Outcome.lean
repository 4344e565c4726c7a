import NuspecLint.Proofs.Rule.Place

/-!
# How the check command ends

What the command prints and its exit code, by how it stands to each manifest.

**Standing.**  A manifest cannot be read, or its configuration is rejected, or it is checked.  A
manifest with a rejected configuration ends the command; what comes after it is not looked at.

**Results.**
* `printed_diagnosticLine`: the line for a diagnostic is printed as it is, unless the path holds
  commands for a terminal.
* `Workspace.checkAll_cons`: what one manifest adds to the report about the others.
* `Workspace.checkAll_append_rejected`, `Workspace.checkAll_of_none_rejected`: the report in full.
* `Workspace.check_outcome`: the outcome of the command.
-/

namespace NuspecLint

open Text Markup

section Printing

/-- The text holds no character that starts a command for a terminal. -/
def Unescaped (s : String) : Prop :=
  escapeChar ∉ s.toList

instance (s : String) : Decidable (Unescaped s) :=
  inferInstanceAs (Decidable (escapeChar ∉ s.toList))

theorem Text.withoutCommands_of_not_mem
    {s : List Char}
    (h : escapeChar ∉ s) :
    withoutCommands s = s := by
  unfold withoutCommands
  induction s with
  | nil =>
      rfl
  | cons c s ih =>
      simp only [List.mem_cons, not_or] at h
      rw [withoutCommandsAfter, if_neg (Ne.symm h.1), if_pos rfl, ih h.2]

theorem printed_of_unescaped
    {s : String}
    (h : Unescaped s) :
    printed s = s := by
  rw [printed, withoutCommands_of_not_mem h, String.ofList_toList]

theorem Unescaped.append
    {s t : String}
    (hs : Unescaped s)
    (ht : Unescaped t) :
    Unescaped (s ++ t) := by
  simp only [Unescaped, String.toList_append, List.mem_append, not_or]
  exact ⟨hs, ht⟩

theorem unescaped_toString_nat (n : Nat) :
    Unescaped (toString n) := by
  intro hmem
  have hdigit := Nat.isDigit_of_mem_toDigits (by decide) (by decide)
    (Nat.toList_repr (n := n) ▸ hmem)
  exact absurd hdigit (by decide)

theorem unescaped_toString_int (n : Int) :
    Unescaped (toString n) := by
  cases n with
  | ofNat n =>
      exact unescaped_toString_nat n
  | negSucc n =>
      exact Unescaped.append (by decide) (unescaped_toString_nat (n + 1))

theorem Value.unescaped_of_integerText
    {n : Int} {shown : String}
    (h : integerText n = .ok shown) :
    Unescaped shown := by
  unfold integerText integerText? at h
  split at h
  · next found =>
      cases h
      split at found
      · cases found
        exact unescaped_toString_int n
      · cases found
  · cases h

theorem Description.Finding.unescaped_of_message
    {b : LengthBounds} {n : Int} {f : Finding} {message : String}
    (hb : b.longest = .integer n)
    (h : f.message b = .ok message) :
    Unescaped message := by
  have hguidelines : Unescaped guidelines := by decide +kernel
  cases f with
  | missing | tooShort =>
      cases h
      exact Unescaped.append (Unescaped.append (by decide +kernel) hguidelines)
        (by decide +kernel)
  | tooLong =>
      rw [Finding.message, hb, Quantity.text] at h
      cases hshown : Value.integerText n with
      | error f =>
          rw [hshown] at h
          cases h
      | ok shown =>
          rw [hshown] at h
          cases h
          exact Unescaped.append (Unescaped.append (Unescaped.append (Unescaped.append
            (by decide +kernel) (Value.unescaped_of_integerText hshown)) (by decide +kernel))
            hguidelines) (by decide +kernel)

/-- What a rule says holds no command for a terminal if its bounds are integers. -/
theorem unescaped_of_mem_runRule
    {r : Rule} {tree : Node} {lines : LineTable} {d : Diagnostic}
    (hr : r.IsBuiltIn)
    (hlongest : ∀ b, r = .description b → ∃ n, b.longest = .integer n)
    (hd : d ∈ (runRule tree lines r).value) :
    Unescaped d.ruleId ∧ Unescaped d.message := by
  rcases hr with rfl | ⟨b, rfl⟩
  · obtain ⟨n, _, rfl⟩ := List.mem_map.mp hd
    have hid : Unescaped Placeholder.id := by decide
    have hmessage : Unescaped "Templated value which should be removed" := by
      decide +kernel
    exact ⟨hid, hmessage⟩
  · obtain ⟨n, hn⟩ := hlongest b rfl
    obtain ⟨span, f, hreport⟩ := Description.exists_report_of_mem_runRule hd
    obtain ⟨hid, hmessage, _⟩ := Description.eq_of_report hreport
    exact ⟨by rw [hid]; decide, Description.Finding.unescaped_of_message hn hmessage⟩

/-- The line for a diagnostic is printed as it is. -/
theorem printed_diagnosticLine
    {p : Path} {d : Diagnostic}
    (hp : Unescaped p.text)
    (hid : Unescaped d.ruleId)
    (hmessage : Unescaped d.message) :
    printed (diagnosticLine p d) = diagnosticLine p d := by
  apply printed_of_unescaped
  unfold diagnosticLine
  have hcolon : Unescaped ":" := by decide
  exact (((((((hp.append hcolon).append (unescaped_toString_int _)).append hcolon).append
    (unescaped_toString_int _)).append (by decide)).append hid).append (by decide)).append hmessage

end Printing

namespace Workspace

/-- How the command stands to a manifest. -/
inductive Standing where
  /-- It has no text; its configuration is not looked for. -/
  | unreadable (fault : ManifestFault)
  /-- Its configuration cannot be used. -/
  | rejected (fault : ConfigFault)
  | checked (rules : List Rule) (text : List Char)

variable (w : Workspace)

/-- It reads the manifest first, and then looks for its configuration. -/
def standing (p : Path) : Standing :=
  match w.readManifest p with
  | .error f => .unreadable f
  | .ok text =>
      match (w.rulesFor p).value with
      | .error f => .rejected f
      | .ok rules => .checked rules text

/-- The manifest can be read and its configuration cannot be used. -/
def IsRejected (p : Path) : Prop :=
  ∃ f, w.standing p = .rejected f

instance (p : Path) : Decidable (w.IsRejected p) :=
  match h : w.standing p with
  | .rejected f => isTrue ⟨f, h⟩
  | .unreadable _ => isFalse fun ⟨_, hf⟩ => by cases h.symm.trans hf
  | .checked _ _ => isFalse fun ⟨_, hf⟩ => by cases h.symm.trans hf

/-- The diagnostic lines of a manifest. -/
def linesOf (p : Path) : List String :=
  match w.standing p with
  | .checked rules text => (analyze rules text).value.map fun d => printed (diagnosticLine p d)
  | _ => []

/-- What is said on the error channel about a manifest. -/
def errorsOf (p : Path) : List String :=
  match w.standing p with
  | .unreadable f => [printed ("error: " ++ p.text ++ ": " ++ f.message p)]
  | .rejected f =>
      shownRecords (w.rulesFor p).records ++
        if f.breakdown? w.host = none then
          [printed ("error: invalid configuration: " ++ f.message w.host)]
        else []
  | .checked rules text => shownRecords ((w.rulesFor p).records ++ (analyze rules text).records)

variable {w : Workspace} {p : Path} {rest : List Path}

theorem standing_eq_rejected_iff
    {f : ConfigFault} :
    w.standing p = .rejected f ↔
      (∃ text, w.readManifest p = .ok text) ∧ (w.rulesFor p).value = .error f := by
  unfold standing
  cases w.readManifest p with
  | error f =>
      simp
  | ok text =>
      cases (w.rulesFor p).value <;> simp

/-- A manifest that is not rejected adds its lines to the report about the others. -/
theorem checkAll_cons
    (h : ¬ w.IsRejected p) :
    w.checkAll (p :: rest) =
      { output := w.linesOf p ++ (w.checkAll rest).output
        errors := w.errorsOf p ++ (w.checkAll rest).errors
        exitCode :=
          if (w.checkAll rest).exitCode = 0 ∧ w.linesOf p ≠ [] then 1
          else (w.checkAll rest).exitCode
        breakdown := (w.checkAll rest).breakdown } := by
  unfold IsRejected standing at h
  unfold linesOf errorsOf standing
  cases hread : w.readManifest p with
  | error f =>
      simp [checkAll, hread]
  | ok text =>
      cases hrules : (w.rulesFor p).value with
      | error f =>
          simp [hread, hrules] at h
      | ok rules =>
          simp [checkAll, hread, hrules]

/-- A rejected manifest ends the command. -/
theorem checkAll_cons_rejected
    {f : ConfigFault}
    (h : w.standing p = .rejected f) :
    w.checkAll (p :: rest) =
      ⟨[], w.errorsOf p, if f.breakdown? w.host = none then 2 else 1, f.breakdown? w.host⟩ := by
  obtain ⟨⟨text, hread⟩, hfault⟩ := standing_eq_rejected_iff.mp h
  rw [errorsOf, h]
  simp only [checkAll, hread, hfault]
  cases f.breakdown? w.host <;> simp

/-- The report up to the first rejected manifest. -/
theorem checkAll_append_rejected
    {before after : List Path} {k : Path} {f : ConfigFault}
    (hbefore : ∀ p ∈ before, ¬ w.IsRejected p)
    (hk : w.standing k = .rejected f) :
    w.checkAll (before ++ k :: after) =
      ⟨before.flatMap w.linesOf, (before ++ [k]).flatMap w.errorsOf,
        if f.breakdown? w.host = none then 2 else 1, f.breakdown? w.host⟩ := by
  induction before with
  | nil =>
      simpa using checkAll_cons_rejected hk
  | cons p before ih =>
      have hrest := ih fun q hq => hbefore q (by simp [hq])
      have hexit : (if f.breakdown? w.host = none then 2 else 1) ≠ 0 := by
        split <;> decide
      rw [List.cons_append, checkAll_cons (hbefore p (by simp)), hrest]
      simp only [List.flatMap_cons, List.cons_append, hexit, false_and, if_false]

/-- The report about manifests none of which is rejected. -/
theorem checkAll_of_none_rejected
    {files : List Path}
    (h : ∀ p ∈ files, ¬ w.IsRejected p) :
    w.checkAll files =
      ⟨files.flatMap w.linesOf, files.flatMap w.errorsOf,
        if files.flatMap w.linesOf = [] then 0 else 1, none⟩ := by
  induction files with
  | nil =>
      rfl
  | cons p files ih =>
      rw [checkAll_cons (h p (by simp)), ih fun q hq => h q (by simp [hq])]
      simp only [List.flatMap_cons, List.append_eq_nil_iff]
      by_cases hp : w.linesOf p = [] <;> by_cases hfiles : files.flatMap w.linesOf = [] <;>
        simp [hp, hfiles]

/-- The configuration of a manifest that cannot be read does not matter. -/
theorem checkAll_congr
    {w' : Workspace} {files : List Path}
    (hhost : w'.host = w.host)
    (hread : ∀ p ∈ files, w'.readManifest p = w.readManifest p)
    (hrules : ∀ p ∈ files, ∀ text, w.readManifest p = .ok text → w'.rulesFor p = w.rulesFor p) :
    w'.checkAll files = w.checkAll files := by
  induction files with
  | nil =>
      rfl
  | cons p files ih =>
      have hrest := ih (fun q hq => hread q (by simp [hq])) (fun q hq => hrules q (by simp [hq]))
      unfold checkAll
      rw [hread p (by simp), hrest, hhost]
      cases hp : w.readManifest p with
      | error f =>
          rfl
      | ok text =>
          rw [hrules p (by simp) text hp]

/-- What the command does with paths that stand for the manifests `files`. -/
structure Reported (w : Workspace) (paths files : List Path) : Prop where
  /-- The first manifest whose configuration is rejected ends the command. -/
  rejected : ∀ before k after f,
    files = before ++ k :: after → (∀ p ∈ before, ¬ w.IsRejected p) →
    w.standing k = .rejected f →
    w.check paths =
      ⟨before.flatMap w.linesOf, (before ++ [k]).flatMap w.errorsOf,
        if f.breakdown? w.host = none then 2 else 1, f.breakdown? w.host⟩
  /-- If there is none, all of them are reported on. -/
  accepted :
    (∀ p ∈ files, ¬ w.IsRejected p) →
    w.check paths =
      ⟨files.flatMap w.linesOf, files.flatMap w.errorsOf,
        if files.flatMap w.linesOf = [] then 0 else 1, none⟩
  /-- A manifest that cannot be read adds one line on the error channel. -/
  unreadable : ∀ p ∈ files, ∀ f, w.readManifest p = .error f →
    w.linesOf p = [] ∧ w.errorsOf p = [printed ("error: " ++ p.text ++ ": " ++ f.message p)]
  /-- Its configuration does not matter. -/
  unconsulted : ∀ w' : Workspace,
    w'.host = w.host → w'.manifests paths = .ok files →
    (∀ p ∈ files, w'.readManifest p = w.readManifest p) →
    (∀ p ∈ files, ∀ text, w.readManifest p = .ok text → w'.rulesFor p = w.rulesFor p) →
    w'.check paths = w.check paths
  /-- The lines of a manifest, in the order of the analysis with the rules configured for it. -/
  lines : ∀ p ∈ files, ∀ text rules,
    w.readManifest p = .ok text → (w.rulesFor p).value = .ok rules →
    w.linesOf p = (analyze rules text).value.map (fun d => printed (diagnosticLine p d)) ∧
    ∀ d ∈ (analyze rules text).value,
      (Unescaped p.text → printed (diagnosticLine p d) = diagnosticLine p d) ∧
      ∃ offset : Nat, offset ≤ text.length ∧
        d.range.start = (LineTable.ofText text).positionAt offset

theorem printed_of_mem_analyze
    {text : List Char} {rules : List Rule} {d : Diagnostic}
    (hrules : (w.rulesFor p).value = .ok rules)
    (hd : d ∈ (analyze rules text).value)
    (hp : Unescaped p.text) :
    printed (diagnosticLine p d) = diagnosticLine p d := by
  unfold analyze at hd
  split at hd
  · cases hd
  · rw [runRules_value] at hd
    obtain ⟨r, hr, hd⟩ := List.mem_flatMap.mp hd
    obtain ⟨hid, hmessage⟩ := unescaped_of_mem_runRule
      ((chosen_of_rulesFor hrules).isBuiltIn r hr)
      (fun b hb => longest_of_rulesFor hrules (hb ▸ hr)) hd
    exact printed_diagnosticLine hp hid hmessage

/--
**The outcome of the check command.**  A manifest that cannot be read is named on the error channel
and passed over, whatever its configuration.  If a configuration is rejected, the lines of the
manifests before the first such one are printed and the exit code is two; else the lines of all
manifests are printed, and the exit code is one or zero according to whether there are any.  A line
gives a path, a place inside the text, a rule and a message.  The command breaks down only where a
configuration is more than faulty, or where it cannot be told which manifests there are: the system
refuses to look at a path of the command line, or the search of a directory fails.
-/
theorem check_outcome (w : Workspace) (paths : List Path) :
    match w.manifests paths with
    | .ok files => w.Reported paths files
    | .error b => w.check paths = ⟨[], [], 1, some b⟩ := by
  cases hfiles : w.manifests paths with
  | error b =>
      simp only [check, hfiles]
  | ok files =>
      have hcheck : ∀ w' : Workspace, w'.manifests paths = .ok files →
          w'.check paths = w'.checkAll files := by
        intro w' hw'
        simp only [check, hw']
      constructor
      · rintro before k after f rfl hbefore hk
        rw [hcheck w hfiles, checkAll_append_rejected hbefore hk]
      · intro h
        rw [hcheck w hfiles, checkAll_of_none_rejected h]
      · intro p _ f hread
        simp only [linesOf, errorsOf, standing, hread, and_self]
      · intro w' hhost hfiles' hread hrules
        rw [hcheck w' hfiles', hcheck w hfiles, checkAll_congr hhost hread hrules]
      · intro p _ text rules hread hrules
        refine ⟨by simp only [linesOf, standing, hread, hrules], ?_⟩
        intro d hd
        refine ⟨printed_of_mem_analyze hrules hd, ?_⟩
        obtain ⟨first, last, hle, hlast, hrange⟩ :=
          within_of_mem_analyze (chosen_of_rulesFor hrules).isBuiltIn hd
        exact ⟨first, Nat.le_trans hle hlast, by rw [hrange]⟩

/-- A manifest with a placeholder. -/
def plainPath : Path := ⟨.relative, ["a.nuspec"]⟩

/-- A manifest whose bytes are no text. -/
def garbledPath : Path := ⟨.relative, ["b.nuspec"]⟩

/-- A manifest with faulty settings beside it. -/
def faultyPath : Path := ⟨.relative, ["c", "m.nuspec"]⟩

/-- The workspace with these manifests. -/
def mixture : Workspace :=
  ⟨⟨[(["a.nuspec"], .file (Utf8.encode "tag1".toList)), (["b.nuspec"], .file [0xFF]),
    (["c"], .directory), (["c", "nuspec-ls.toml"], .file (Utf8.encode "select=1".toList)),
    (["c", "m.nuspec"], .file (Utf8.encode "tag1".toList))], []⟩, ⟨.root, []⟩, .usual⟩

/--
Two lines are printed about the first manifest, the second is named on the error channel, and the
third ends the command.
-/
theorem check_outcome_mixture :
    mixture.manifests [plainPath, garbledPath, faultyPath, plainPath] =
      .ok [plainPath, garbledPath, faultyPath] ∧
    mixture.check [plainPath, garbledPath, faultyPath, plainPath] =
      ⟨[plainPath, garbledPath].flatMap mixture.linesOf,
        [plainPath, garbledPath, faultyPath].flatMap mixture.errorsOf, 2, none⟩ ∧
    [plainPath, garbledPath, faultyPath].map
        (fun p => ((mixture.linesOf p).length, (mixture.errorsOf p).length)) =
      [(2, 0), (0, 1), (0, 1)] := by
  have hfiles : mixture.manifests [plainPath, garbledPath, faultyPath, plainPath] =
      .ok ([plainPath, garbledPath] ++ faultyPath :: []) := by
    decide +kernel
  have hbefore : ∀ p ∈ [plainPath, garbledPath], ¬ mixture.IsRejected p := by
    decide +kernel
  obtain ⟨f, hf⟩ : mixture.IsRejected faultyPath := by
    decide +kernel
  have hbreakdown : f.breakdown? mixture.host = none := by
    rw [← breakdownFor?_of_fault (standing_eq_rejected_iff.mp hf).2]
    decide +kernel
  have houtcome := check_outcome mixture [plainPath, garbledPath, faultyPath, plainPath]
  rw [hfiles] at houtcome
  refine ⟨hfiles, ?_, by decide +kernel⟩
  rw [houtcome.rejected _ _ _ f rfl hbefore hf, hbreakdown, if_pos rfl]
  rfl

theorem read_besideSettings (settings : List Char) :
    (withSettings settings).read besideSettings = .ok [] :=
  rfl

theorem readManifest_besideSettings (settings : List Char) :
    (withSettings settings).readManifest besideSettings = .ok [] := by
  rw [readManifest, read_besideSettings]
  rfl

/-- Faulty settings that are nested too deeply to be shown: the exit code is one, with no output. -/
theorem check_exitCode_of_misplaced :
    (withSettings misplaced).manifests [besideSettings] = .ok [besideSettings] ∧
    (withSettings misplaced).readManifest besideSettings = .ok [] ∧
    (withSettings misplaced).IsRejected besideSettings ∧
    ((withSettings misplaced).check [besideSettings]).output = [] ∧
    ((withSettings misplaced).check [besideSettings]).exitCode = 1 := by
  obtain ⟨f, hfault, hbreakdown⟩ := rulesFor_misplaced
  have hread := readManifest_besideSettings misplaced
  have hstanding := standing_eq_rejected_iff.mpr ⟨⟨_, hread⟩, hfault⟩
  have hfiles := manifests_of_read (read_besideSettings misplaced)
  have hcheck : (withSettings misplaced).check [besideSettings] =
      ⟨[], (withSettings misplaced).errorsOf besideSettings, 1, some .showing⟩ := by
    simp only [check, hfiles, checkAll_cons_rejected hstanding, hbreakdown, reduceCtorEq, if_false]
  exact ⟨hfiles, hread, ⟨f, hstanding⟩, by rw [hcheck], by rw [hcheck]⟩

end Workspace

end NuspecLint

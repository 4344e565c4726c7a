import NuspecLint.Proofs.Config.Choice
import NuspecLint.Proofs.Config.Nearest
import NuspecLint.Proofs.Config.Reading
import NuspecLint.Proofs.Data.Value

/-!
# Faults of settings name their file

What is wrong with a settings file is told to the user, who should learn from it which file is
meant.

**Condition.**  Messages about the text of a file, and those about values that cannot be shown, are
made where the file is not known.  So a fault starts with the path of the file if the file is closed
to reading, or if its bytes are text and the value that is complained about, if it is one, can be
shown.

**Results.**
* `Config.ofBytes_eq_error_iff`: what is wrong with the bytes of a settings file.
* `ConfigFault.isNamed_of_file` and `ConfigFault.isNamed_notRuleList_iff`: which faults name their
  file.
* `Workspace.read_of_configFile`: the file that governs a manifest is read, or closed to reading.
* `Workspace.isAbsolute_of_configFile`: it has an absolute path.
* `Workspace.config_fault_named_iff`: when there is a fault and when it names the file, for every
  workspace, every manifest and all bytes of the file.
-/

namespace NuspecLint

namespace Path

variable {p : Path}

/-- An absolute path starts with a slash. -/
theorem exists_text_eq_cons
    (h : p.isAbsolute = true) :
    ∃ rest, p.text.toList = '/' :: rest := by
  obtain ⟨anchor, parts⟩ := p
  cases anchor with
  | relative =>
      cases h
  | root =>
      exact ⟨("/".intercalate parts).toList, by simp [text, anchorText]⟩
  | doubleRoot =>
      exact ⟨'/' :: ("/".intercalate parts).toList, by simp [text, anchorText]⟩

end Path

namespace ConfigFault

variable {host : Host} {f : ConfigFault} {path : Path}

/-- The fault is an error like others, and its message starts with a path. -/
structure IsNamed (host : Host) (f : ConfigFault) (path : Path) : Prop where
  breakdown : f.breakdown? host = none
  message : path.text.toList <+: (f.message host).toList

/-- The file that a fault is about, if this is known where the fault is made. -/
def file? : ConfigFault → Option Path
  | unreadable path _ => some path
  | notToml path _ => some path
  | notRuleList path _ _ => some path
  | rulesNotTable path => some path
  | ruleNotTable path _ => some path
  | _ => none

/-- A fault names the file that it is about, unless it ends with a value that cannot be shown. -/
theorem isNamed_of_file
    (h : f.file? = some path)
    (hshown : ∀ key v, f = .notRuleList path key v → ∃ shown, v.text host.showing = .ok shown) :
    f.IsNamed host path := by
  cases f with
  | unreadable _ fault =>
      cases h
      exact ⟨rfl, by simp [message]⟩
  | notToml =>
      cases h
      exact ⟨rfl, by simp [message]⟩
  | notRuleList _ key v =>
      cases h
      obtain ⟨shown, htext⟩ := hshown key v rfl
      exact ⟨by simp [breakdown?, Value.isTooDeep, htext],
        by simp [message, Value.complaint, htext]⟩
  | rulesNotTable =>
      cases h
      exact ⟨rfl, by simp [message]⟩
  | ruleNotTable _ id =>
      cases h
      exact ⟨rfl, by simp [message]⟩
  | _ =>
      cases h

/-- A message that starts with another character names no absolute path. -/
theorem not_isNamed_of_head
    {c : Char}
    (habs : path.isAbsolute = true)
    (h : (f.message host).toList.head? = some c)
    (hc : c ≠ '/') :
    ¬ f.IsNamed host path := by
  rintro ⟨_, hmessage⟩
  obtain ⟨rest, hrest⟩ := Path.exists_text_eq_cons habs
  obtain ⟨more, hmore⟩ := List.head?_eq_some_iff.mp h
  rw [hrest, hmore, List.cons_prefix_cons] at hmessage
  exact hc hmessage.1.symm

theorem head?_append_string
    {c : Char} {s : String}
    (h : s.toList.head? = some c)
    (t : String) :
    (s ++ t).toList.head? = some c := by
  rw [String.toList_append, List.head?_append, h]
  rfl

theorem head?_utf8_message (fault : Utf8.Fault) :
    fault.message.toList.head? = some '\'' :=
  head?_append_string (head?_append_string (head?_append_string (by decide) _) _) _

theorem head?_longInteger_message (fault : LongInteger) :
    fault.message.toList.head? = some 'E' :=
  head?_append_string
    (head?_append_string (head?_append_string (head?_append_string (by decide) _) _) _) _

theorem not_isNamed_notText
    (habs : path.isAbsolute = true)
    (fault : Utf8.Fault) :
    ¬ (notText fault).IsNamed host path :=
  not_isNamed_of_head habs (head?_utf8_message fault) (by decide)

theorem not_isNamed_longInteger
    (habs : path.isAbsolute = true)
    (fault : LongInteger) :
    ¬ (longInteger fault).IsNamed host path :=
  not_isNamed_of_head habs (head?_longInteger_message fault) (by decide)

theorem not_isNamed_broken (host : Host) (path : Path) (cause : Breakdown) :
    ¬ (broken cause).IsNamed host path := by
  rintro ⟨hbreakdown, _⟩
  cases hbreakdown

/-- A complaint about a value names its file exactly if the value can be shown. -/
theorem isNamed_notRuleList_iff
    {key : String} {v : Value}
    (habs : path.isAbsolute = true) :
    (notRuleList path key v).IsNamed host path ↔ ∃ shown, v.text host.showing = .ok shown := by
  constructor
  · intro h
    cases htext : v.text host.showing with
    | ok shown =>
        exact ⟨shown, rfl⟩
    | error u =>
        exfalso
        cases u with
        | tooDeep =>
            have hbreakdown := h.breakdown
            simp [breakdown?, Value.isTooDeep, htext] at hbreakdown
        | longInteger =>
            refine not_isNamed_of_head habs ?_ (by decide : 'E' ≠ '/') h
            rw [message, Value.complaint, htext]
            exact head?_longInteger_message .shown
  · intro hshown
    refine isNamed_of_file rfl ?_
    rintro _ _ ⟨⟩
    exact hshown

end ConfigFault

namespace Config

variable {host : Host} {path : Path} {bytes : List UInt8} {f : ConfigFault}

/-- What is wrong with the bytes of a settings file; what is noticed first counts. -/
inductive Refusal (host : Host) (path : Path) (bytes : List UInt8) : ConfigFault → Prop
  | notText
      {fault : Utf8.Fault}
      (h : Utf8.decode bytes = .error fault) :
      Refusal host path bytes (.notText fault)
  | notToml
      {text : List Char}
      (htext : Utf8.decode bytes = .ok text)
      (h : Toml.read host.reading text = .error .malformed) :
      Refusal host path bytes (.notToml path text)
  | longInteger
      {text : List Char} {fault : LongInteger}
      (htext : Utf8.decode bytes = .ok text)
      (h : Toml.read host.reading text = .error (.longInteger fault)) :
      Refusal host path bytes (.longInteger fault)
  | nesting
      {text : List Char}
      (htext : Utf8.decode bytes = .ok text)
      (h : Toml.read host.reading text = .error .tooDeep) :
      Refusal host path bytes (.broken .nesting)
  | entries
      {text : List Char} {entries : Toml.Entries} {f : ConfigFault}
      (htext : Utf8.decode bytes = .ok text)
      (hread : Toml.read host.reading text = .ok entries)
      (h : Objection path entries f) :
      Refusal host path bytes f

theorem ofBytes_eq_error_iff :
    (ofBytes host path bytes).value = .error f ↔ Refusal host path bytes f := by
  constructor
  · intro h
    unfold ofBytes at h
    split at h
    · next htext =>
        cases h
        exact .notText htext
    · next htext =>
        split at h
        · next hread =>
            cases h
            exact .notToml htext hread
        · next hread =>
            cases h
            exact .longInteger htext hread
        · next hread =>
            cases h
            exact .nesting htext hread
        · next hread =>
            exact .entries htext hread (ofEntries_eq_error_iff.mp h)
  · intro h
    cases h with
    | notText htext =>
        simp [ofBytes, htext, Logged.pure]
    | notToml htext hread =>
        simp [ofBytes, htext, hread, Logged.pure]
    | longInteger htext hread =>
        simp [ofBytes, htext, hread, Logged.pure]
    | nesting htext hread =>
        simp [ofBytes, htext, hread, Logged.pure]
    | entries htext hread h =>
        simpa [ofBytes, htext, hread] using ofEntries_eq_error_iff.mpr h

/-- The bytes are text, the text is TOML, and its settings are of the right kinds. -/
def Usable (host : Host) (bytes : List UInt8) : Prop :=
  ∃ text entries,
    Utf8.decode bytes = .ok text ∧ Toml.read host.reading text = .ok entries ∧ WellTyped entries

theorem exists_ofBytes_iff (host : Host) (path : Path) :
    (∃ c, (ofBytes host path bytes).value = .ok c) ↔ Usable host bytes := by
  constructor
  · rintro ⟨c, h⟩
    unfold ofBytes at h
    split at h
    · cases h
    · next htext =>
        split at h
        · cases h
        · cases h
        · cases h
        · next hread =>
            exact ⟨_, _, htext, hread, (exists_ofEntries_iff path).mp ⟨c, h⟩⟩
  · rintro ⟨text, entries, htext, hread, htyped⟩
    simpa [ofBytes, htext, hread] using (exists_ofEntries_iff path).mpr htyped

/--
The bytes are text, and this is no TOML, or TOML of which the setting that is complained about, if
there is one, can be shown.
-/
def Nameable (host : Host) (bytes : List UInt8) : Prop :=
  ∃ text, Utf8.decode bytes = .ok text ∧
    (Toml.read host.reading text = .error .malformed ∨
      ∃ entries, Toml.read host.reading text = .ok entries ∧
        ∀ key v, Complaint entries key v → ∃ shown, v.text host.showing = .ok shown)

theorem nameable_iff_of_text
    {text : List Char}
    (htext : Utf8.decode bytes = .ok text) :
    Nameable host bytes ↔
      Toml.read host.reading text = .error .malformed ∨
      ∃ entries, Toml.read host.reading text = .ok entries ∧
        ∀ key v, Complaint entries key v → ∃ shown, v.text host.showing = .ok shown := by
  simp [Nameable, htext]

theorem Objection.isNamed_iff
    {entries : Toml.Entries}
    (habs : path.isAbsolute = true)
    (h : Objection path entries f) :
    f.IsNamed host path ↔
      ∀ key v, Complaint entries key v → ∃ shown, v.text host.showing = .ok shown := by
  cases h with
  | ids h =>
      rw [ConfigFault.isNamed_notRuleList_iff habs]
      exact ⟨fun hshown key v hv => h.unique hv ▸ hshown, fun hshown => hshown _ _ h⟩
  | rules hids =>
      exact iff_of_true (ConfigFault.isNamed_of_file rfl nofun)
        fun key v hv => absurd hv (hids key v)
  | rule hids =>
      exact iff_of_true (ConfigFault.isNamed_of_file rfl nofun)
        fun key v hv => absurd hv (hids key v)

/-- Which faults of a settings file name it. -/
theorem Refusal.isNamed_iff
    (habs : path.isAbsolute = true)
    (h : Refusal host path bytes f) :
    f.IsNamed host path ↔ Nameable host bytes := by
  cases h with
  | notText htext =>
      exact iff_of_false (ConfigFault.not_isNamed_notText habs _) (by simp [Nameable, htext])
  | notToml htext hread =>
      rw [nameable_iff_of_text htext]
      exact iff_of_true (ConfigFault.isNamed_of_file rfl nofun) (Or.inl hread)
  | longInteger htext hread =>
      rw [nameable_iff_of_text htext]
      exact iff_of_false (ConfigFault.not_isNamed_longInteger habs _) (by simp [hread])
  | nesting htext hread =>
      rw [nameable_iff_of_text htext]
      exact iff_of_false (ConfigFault.not_isNamed_broken host path _) (by simp [hread])
  | entries htext hread h =>
      rw [nameable_iff_of_text htext, h.isNamed_iff habs]
      simp [hread]

end Config

namespace Workspace

variable {w : Workspace} {manifest path : Path}

/-- The file that governs a manifest is read, unless the program may not. -/
theorem read_of_configFile
    (h : w.configFile manifest = .ok (some path)) :
    (∃ bytes, w.read path = .ok bytes) ∨ w.read path = .error .denied := by
  obtain ⟨_, hfound⟩ := configFile_eq_ok_iff.mp h
  obtain ⟨bytes, hfile⟩ := isFile_iff.mp (List.find?_some hfound)
  obtain ⟨place, hlocate, hentry⟩ := find?_eq_some_iff.mp hfile
  cases hclosed : w.files.closes place .reading with
  | false =>
      exact Or.inl ⟨bytes, read_eq_ok_iff.mpr ⟨place, hlocate, hentry, hclosed⟩⟩
  | true =>
      right
      simp [read, hlocate, hentry, hclosed]

/-- The file that governs a manifest has an absolute path. -/
theorem isAbsolute_of_configFile
    (hcwd : w.cwd.isAbsolute = true)
    (h : w.configFile manifest = .ok (some path)) :
    path.isAbsolute = true := by
  obtain ⟨_, hfound⟩ := configFile_eq_ok_iff.mp h
  obtain ⟨d, hd, name, _, rfl⟩ := mem_placesIn_iff.mp (List.mem_of_find?_eq_some hfound)
  obtain ⟨hanchor, _⟩ := Path.mem_ancestorsOf ((w.upToRepository_isPrefix _).subset hd)
  rw [Path.isAbsolute, Path.append, hanchor]
  exact Path.isAbsolute_absolute hcwd _

theorem config_value_of_read
    {bytes : List UInt8}
    (h : w.configFile manifest = .ok (some path))
    (hread : w.read path = .ok bytes) :
    (w.config manifest).value = (Config.ofBytes w.host path bytes).value := by
  simp [config, h, hread, Logged.bind]

theorem config_value_of_unreadable
    {fault : ReadFault}
    (h : w.configFile manifest = .ok (some path))
    (hread : w.read path = .error fault) :
    (w.config manifest).value = .error (.unreadable path fault) := by
  simp [config, h, hread, Logged.bind, Logged.pure]

end Workspace

/--
**Which faults of settings name their file.**  A file that governs a manifest and is closed to
reading is a fault, which is an ordinary one and starts with the path of the file.  The settings of
one that is read are accepted exactly if its bytes are text, this is TOML, and the settings are of
the right kinds.  Otherwise the fault is an ordinary one and starts with the path of the file
exactly if the bytes are text and the file is either no TOML at all, or TOML in which the setting
complained about, if there is one, can be shown.
-/
theorem Workspace.config_fault_named_iff
    {w : Workspace} {manifest path : Path}
    (hcwd : w.cwd.isAbsolute = true)
    (hgoverns : w.configFile manifest = .ok (some path)) :
    match w.read path with
    | .error fault =>
        fault = .denied ∧ (w.config manifest).value = .error (.unreadable path fault) ∧
        (ConfigFault.unreadable path fault).IsNamed w.host path
    | .ok bytes =>
        ((∃ c, (w.config manifest).value = .ok c) ↔ Config.Usable w.host bytes) ∧
        ∀ f, (w.config manifest).value = .error f →
          (f.IsNamed w.host path ↔ Config.Nameable w.host bytes) := by
  have habs := isAbsolute_of_configFile hcwd hgoverns
  rcases read_of_configFile hgoverns with ⟨bytes, hread⟩ | hread
  · rw [hread]
    dsimp only
    rw [config_value_of_read hgoverns hread]
    refine ⟨Config.exists_ofBytes_iff w.host path, ?_⟩
    intro f hf
    exact (Config.ofBytes_eq_error_iff.mp hf).isNamed_iff habs
  · rw [hread]
    exact ⟨rfl, config_value_of_unreadable hgoverns hread, ConfigFault.isNamed_of_file rfl nofun⟩

namespace Workspace

/-- The path of the settings in a workspace that has them. -/
def settingsPath : Path :=
  ⟨.root, [".nuspec-ls.toml"]⟩

/-- Settings with a number in the place of a list of rules. -/
def misnumbered : List Char :=
  "select = 5".toList

/-- The same, in a file that is closed to reading. -/
def locked : Workspace :=
  let w := withSettings misnumbered
  { w with files := w.files.close [".nuspec-ls.toml"] .reading }

/-- The fault of such settings names their file, and so does that of a file that is closed. -/
theorem config_fault_named_iff_misnumbered :
    (∃ f,
      ((withSettings misnumbered).config besideSettings).value = .error f ∧
      f.IsNamed .usual settingsPath) ∧
    (locked.config besideSettings).value = .error (.unreadable settingsPath .denied) ∧
    (ConfigFault.unreadable settingsPath .denied).IsNamed .usual settingsPath := by
  have hgoverns :
      (withSettings misnumbered).configFile besideSettings = .ok (some settingsPath) := by
    decide +kernel
  have hread :
      (withSettings misnumbered).read settingsPath = .ok (Utf8.encode misnumbered) := by
    decide +kernel
  have hlocked : locked.configFile besideSettings = .ok (some settingsPath) := by
    decide +kernel
  have hdenied : locked.read settingsPath = .error .denied := by
    decide +kernel
  have hnamed := config_fault_named_iff rfl hgoverns
  have hclosed := config_fault_named_iff rfl hlocked
  rw [hread] at hnamed
  rw [hdenied] at hclosed
  refine ⟨?_, hclosed.2⟩
  have htext : Utf8.decode (Utf8.encode misnumbered) = .ok misnumbered := by
    decide +kernel
  have hentries : Toml.read Host.usual.reading misnumbered = .ok [("select", .integer 5)] := by
    decide +kernel
  have hcomplaint : Config.Complaint [("select", .integer 5)] "select" (.integer 5) :=
    .select ⟨rfl, by simp⟩
  have hfault : ((withSettings misnumbered).config besideSettings).value =
      .error (.notRuleList settingsPath "select" (.integer 5)) := by
    rw [config_value_of_read hgoverns hread]
    exact Config.ofBytes_eq_error_iff.mpr (.entries htext hentries (.ids hcomplaint))
  refine ⟨_, hfault, (hnamed.2 _ hfault).mpr ⟨misnumbered, htext, Or.inr ⟨_, hentries, ?_⟩⟩⟩
  intro key v hv
  obtain rfl := hcomplaint.unique hv
  exact ⟨"5", by decide +kernel⟩

/-- Settings with a byte that belongs to no text. -/
def garbled : Workspace :=
  ⟨⟨[(["m.nuspec"], .file []), ([".nuspec-ls.toml"], .file [0xFF])], []⟩, ⟨.root, []⟩, .usual⟩

/-- The fault of a file that is no text does not say which file it is. -/
theorem config_fault_unnamed :
    garbled.configFile besideSettings = .ok (some settingsPath) ∧
    ∃ f,
      (garbled.config besideSettings).value = .error f ∧
      f.breakdown? garbled.host = none ∧
      f.message garbled.host =
        "'utf-8' codec can't decode byte 0xff in position 0: invalid start byte" ∧
      ¬ f.IsNamed garbled.host settingsPath := by
  have hgoverns : garbled.configFile besideSettings = .ok (some settingsPath) := by
    decide +kernel
  have hread : garbled.read settingsPath = .ok [0xFF] := by
    decide +kernel
  refine ⟨hgoverns, .notText ⟨0, 1, 0xFF, .invalidStart⟩, ?_, rfl, by decide +kernel, ?_⟩
  · rw [config_value_of_read hgoverns hread]
    exact Config.ofBytes_eq_error_iff.mpr (.notText (by decide +kernel))
  · exact ConfigFault.not_isNamed_notText rfl _

end Workspace

end NuspecLint

import NuspecLint.Server
import NuspecLint.Proofs.Client.Order
import NuspecLint.Proofs.Data.Traversal
import NuspecLint.Proofs.Rule.Place

/-!
# What a server remembers

A server answers the events of a client one after the other, while the files around it change.

**Runs.**  A run is a list of occasions: an event, and the workspace as it is when the event comes.
Documents are told apart by their decoded URIs.

**Results.**
* `Server.lookup_after`: what is held of a document follows from the events on it alone.
* `Server.Agree.sent`: what is sent on an occasion follows from the occasion and from what is held
  of its document.
* `Server.answered_sent`: for an open document that is one batch, by the rules of that moment.
* `Server.transcript_history_free`: so a run says about one document what the events on it say on
  their own.
-/

namespace NuspecLint

/-- An event, and the workspace as it is then. -/
structure Occasion where
  disk : Workspace
  event : Event

/-- What the document of an event is told apart by. -/
def Event.key (e : Event) : String :=
  Uri.key e.uri

/-- The event names its document by a URI that can be taken apart. -/
def Event.IsAddressed (e : Event) : Prop :=
  ∃ path, Uri.path? e.uri = .ok path

/-- The occasion is about the document with the given key. -/
def Occasion.isAbout (key : String) (m : Occasion) : Bool :=
  m.event.key = key

/-- What is held of the document of an event after the event. -/
def Event.update (encoding : Encoding) (held : Option OpenDocument) : Event → Option OpenDocument
  | .opened _ version text => some ⟨text, some version⟩
  | .changed _ version edits => held.map fun d => Server.edit encoding version d edits
  | .saved _ => held
  | .closed _ => none

theorem Event.IsAddressed.exists_split
    {e : Event}
    (h : e.IsAddressed) :
    ∃ parts, Uri.split e.uri = .ok parts := by
  obtain ⟨path, hpath⟩ := h
  cases hsplit : Uri.split e.uri with
  | error f =>
      rw [Uri.path?, hsplit] at hpath
      cases hpath
  | ok parts =>
      exact ⟨parts, rfl⟩

namespace Server

/-- The server after an occasion. -/
def next (s : Server) (m : Occasion) : Server :=
  (s.handle m.disk m.event).value.1

/-- What the server sends on an occasion. -/
def sent (s : Server) (m : Occasion) : List Message :=
  (s.handle m.disk m.event).value.2

/-- The server after a run. -/
def after (s : Server) (run : List Occasion) : Server :=
  run.foldl next s

/-- Every occasion of a run, with what is sent on it. -/
def transcript (s : Server) : List Occasion → List (Occasion × List Message)
  | [] => []
  | m :: rest => (m, s.sent m) :: (s.next m).transcript rest

/-- What the events of a run on one document leave of it, if nothing was held before. -/
def held (encoding : Encoding) (key : String) (run : List Occasion) : Option OpenDocument :=
  (run.filter (Occasion.isAbout key)).foldl (fun d m => m.event.update encoding d) none

section Documents

theorem lookup_filter_ne
    (documents : List (String × OpenDocument)) (key other : String) :
    (documents.filter fun entry => entry.1 ≠ key).lookup other =
      if other = key then none else documents.lookup other := by
  rw [lookup_filter_key fun name => decide (name ≠ key)]
  by_cases h : other = key
  · simp [h]
  · simp [h]

theorem lookup_hold (key : String) (d : OpenDocument) (s : Server) (other : String) :
    (s.hold key d).documents.lookup other =
      if other = key then some d else s.documents.lookup other := by
  by_cases h : other = key
  · simp [hold, h]
  · have hbeq : (other == key) = false := by simpa using h
    simp only [hold, List.lookup_cons, hbeq, lookup_filter_ne, h, if_false]

theorem lookup_drop (key : String) (s : Server) (other : String) :
    (s.drop key).documents.lookup other =
      if other = key then none else s.documents.lookup other :=
  lookup_filter_ne s.documents key other

end Documents

section Step

variable {s t : Server} {m : Occasion}

/-- An event is refused, or it changes the server, which then answers. -/
theorem handle_cases (s : Server) (m : Occasion) :
    (∃ f, s.apply m.event = .error f ∧ s.next m = s ∧ s.sent m = [.failure f]) ∨
    (∃ s', s.apply m.event = .ok s' ∧ s.next m = s' ∧
      s.sent m = [(s'.answer m.disk m.event).value]) := by
  unfold next sent handle
  cases s.apply m.event with
  | error f =>
      exact Or.inl ⟨f, rfl, rfl, rfl⟩
  | ok s' =>
      exact Or.inr ⟨s', rfl, rfl, rfl⟩

/-- What an event does to a server: only its document is touched. -/
structure Turned (s : Server) (e : Event) (t : Server) : Prop where
  encoding : t.encoding = s.encoding
  choice : t.choice = s.choice
  lookup : ∀ key, t.documents.lookup key =
    if key = e.key then e.update s.encoding (s.documents.lookup key) else s.documents.lookup key

theorem turned_of_apply
    {e : Event} {s' : Server}
    (h : s.apply e = .ok s') :
    s.Turned e s' := by
  cases e with
  | opened uri version text =>
      simp only [apply] at h
      split at h
      · cases h
      · cases h
        exact ⟨rfl, rfl, fun key => lookup_hold ..⟩
  | changed uri version edits =>
      simp only [apply, document?] at h
      split at h
      · next d hd =>
          cases h
          refine ⟨rfl, rfl, fun key => ?_⟩
          rw [lookup_hold]
          by_cases hkey : key = Uri.key uri
          · subst hkey
            simp [Event.key, Event.uri, Event.update, hd]
          · simp [Event.key, Event.uri, hkey]
      · next hd =>
          split at h
          · cases h
            refine ⟨rfl, rfl, fun key => ?_⟩
            by_cases hkey : key = Uri.key uri
            · subst hkey
              simp [Event.key, Event.uri, Event.update, hd]
            · simp [Event.key, Event.uri, hkey]
          · cases h
  | saved uri =>
      cases h
      exact ⟨rfl, rfl, fun key => by simp [Event.update]⟩
  | closed uri =>
      cases h
      exact ⟨rfl, rfl, fun key => lookup_drop ..⟩

/-- An event that is refused is one on a document that is not open, and it stays so. -/
theorem turned_of_refused
    {e : Event} {f : ServerFault}
    (he : e.IsAddressed)
    (h : s.apply e = .error f) :
    s.Turned e s ∧ s.documents.lookup e.key = none := by
  obtain ⟨parts, hsplit⟩ := he.exists_split
  cases e with
  | opened uri version text =>
      rw [Event.uri] at hsplit
      simp [apply, hsplit] at h
  | changed uri version edits =>
      simp only [apply, document?] at h
      split at h
      · cases h
      · next hd =>
          refine ⟨⟨rfl, rfl, fun key => ?_⟩, hd⟩
          by_cases hkey : key = Uri.key uri
          · subst hkey
            simp [Event.key, Event.uri, Event.update, hd]
          · simp [Event.key, Event.uri, hkey]
  | saved uri | closed uri =>
      cases h

theorem turned_next
    (h : m.event.IsAddressed) :
    s.Turned m.event (s.next m) := by
  rcases handle_cases s m with ⟨f, happly, hnext, _⟩ | ⟨s', happly, hnext, _⟩
  · rw [hnext]
    exact (turned_of_refused h happly).1
  · rw [hnext]
    exact turned_of_apply happly

end Step

section Agreement

variable {key : String} {s t : Server} {m : Occasion}

/-- Two servers run the same rules and hold the same of one document. -/
structure Agree (key : String) (s t : Server) : Prop where
  encoding : t.encoding = s.encoding
  choice : t.choice = s.choice
  lookup : t.documents.lookup key = s.documents.lookup key

theorem agree_refl (key : String) (s : Server) :
    Agree key s s :=
  ⟨rfl, rfl, rfl⟩

/-- An event on the document keeps the agreement about it. -/
theorem Agree.turned
    {e : Event} {s' t' : Server}
    (h : Agree e.key s t)
    (hs : s.Turned e s')
    (ht : t.Turned e t') :
    Agree e.key s' t' := by
  refine ⟨?_, ?_, ?_⟩
  · rw [ht.encoding, hs.encoding, h.encoding]
  · rw [ht.choice, hs.choice, h.choice]
  · rw [ht.lookup, hs.lookup, h.lookup, h.encoding]

/-- So does an event on another document, though only one of the two hears of it. -/
theorem Agree.turned_left
    {e : Event} {s' : Server}
    (h : Agree key s t)
    (hs : s.Turned e s')
    (hkey : e.key ≠ key) :
    Agree key s' t := by
  refine ⟨?_, ?_, ?_⟩
  · rw [hs.encoding, h.encoding]
  · rw [hs.choice, h.choice]
  · rw [hs.lookup, if_neg hkey.symm, h.lookup]

theorem Agree.publish
    {uri : String}
    (h : Agree (Uri.key uri) s t)
    (w : Workspace) :
    t.publish w uri = s.publish w uri := by
  simp only [Server.publish, document?, rules, diagnose, h.lookup, h.choice, h.encoding]

theorem Agree.answer
    {e : Event}
    (h : Agree e.key s t)
    (w : Workspace) :
    t.answer w e = s.answer w e := by
  cases e with
  | closed uri =>
      rfl
  | opened | changed | saved =>
      exact h.publish w

theorem Agree.apply_error
    {e : Event} {f : ServerFault}
    (h : Agree e.key s t) :
    t.apply e = .error f ↔ s.apply e = .error f := by
  cases e with
  | opened uri version text =>
      simp only [apply]
      cases Uri.split uri <;> simp
  | changed uri version edits =>
      simp only [apply, document?, show t.documents.lookup (Uri.key uri) =
        s.documents.lookup (Uri.key uri) from h.lookup]
      cases s.documents.lookup (Uri.key uri) with
      | none =>
          dsimp only
          split <;> simp
      | some d =>
          simp
  | saved uri | closed uri =>
      simp [apply]

/-- What is sent on an occasion follows from what is held of its document. -/
theorem Agree.sent
    (h : Agree m.event.key s t) :
    t.sent m = s.sent m := by
  rcases handle_cases s m with ⟨f, happly, _, hsent⟩ | ⟨s', happly, _, hsent⟩
  · rcases handle_cases t m with ⟨g, happly', _, hsent'⟩ | ⟨t', happly', _, _⟩
    · rw [h.apply_error, happly] at happly'
      cases happly'
      rw [hsent, hsent']
    · rw [h.apply_error.mpr happly] at happly'
      cases happly'
  · rcases handle_cases t m with ⟨g, happly', _, _⟩ | ⟨t', happly', _, hsent'⟩
    · rw [h.apply_error, happly] at happly'
      cases happly'
    · have hturned := h.turned (turned_of_apply happly) (turned_of_apply happly')
      rw [hsent, hsent', hturned.answer]

/-- A run says about one document what the events on it say on their own. -/
theorem Agree.transcript_filter
    {run : List Occasion}
    (h : Agree key s t)
    (hrun : ∀ m ∈ run, m.event.IsAddressed) :
    (s.transcript run).filter (fun entry => entry.1.isAbout key) =
      t.transcript (run.filter (Occasion.isAbout key)) := by
  induction run generalizing s t with
  | nil =>
      rfl
  | cons m run ih =>
      have hm := turned_next (s := s) (hrun m (by simp))
      have hrest : ∀ m ∈ run, m.event.IsAddressed := fun n hn => hrun n (by simp [hn])
      by_cases hkey : m.event.key = key
      · subst hkey
        have habout : m.isAbout m.event.key = true := by
          simp [Occasion.isAbout]
        have hnext := h.turned hm (turned_next (hrun m (by simp)))
        simp only [transcript, List.filter_cons, habout, if_true, h.sent, ih hnext hrest]
      · have hother : m.isAbout key = false := by
          simpa [Occasion.isAbout] using hkey
        simp only [transcript, List.filter_cons, hother, Bool.false_eq_true, if_false,
          ih (h.turned_left hm hkey) hrest]

end Agreement

section Runs

variable {s : Server} {run : List Occasion}

/-- The encoding and the choice of rules stay as they are. -/
theorem after_fixed
    (hrun : ∀ m ∈ run, m.event.IsAddressed) :
    (s.after run).encoding = s.encoding ∧ (s.after run).choice = s.choice := by
  induction run generalizing s with
  | nil =>
      exact ⟨rfl, rfl⟩
  | cons m run ih =>
      have hm := turned_next (s := s) (hrun m (by simp))
      obtain ⟨hencoding, hchoice⟩ := ih (s := s.next m) fun n hn => hrun n (by simp [hn])
      exact ⟨hencoding.trans hm.encoding, hchoice.trans hm.choice⟩

/-- What is held of a document follows from the events on it alone. -/
theorem lookup_after
    (key : String)
    (hrun : ∀ m ∈ run, m.event.IsAddressed) :
    (s.after run).documents.lookup key =
      (run.filter (Occasion.isAbout key)).foldl (fun d m => m.event.update s.encoding d)
        (s.documents.lookup key) := by
  induction run generalizing s with
  | nil =>
      rfl
  | cons m run ih =>
      have hm := turned_next (s := s) (hrun m (by simp))
      rw [show s.after (m :: run) = (s.next m).after run from rfl,
        ih fun n hn => hrun n (by simp [hn]), hm.encoding, hm.lookup]
      by_cases hkey : m.event.key = key
      · have habout : m.isAbout key = true := by
          simpa [Occasion.isAbout] using hkey
        rw [if_pos hkey.symm, List.filter_cons_of_pos habout, List.foldl_cons]
      · have hother : ¬ m.isAbout key = true := by
          simpa [Occasion.isAbout] using hkey
        rw [if_neg fun h => hkey h.symm, List.filter_cons_of_neg hother]

theorem held_concat
    (encoding : Encoding) (run : List Occasion) (m : Occasion) :
    held encoding m.event.key (run ++ [m]) =
      m.event.update encoding (held encoding m.event.key run) := by
  have habout : m.isAbout m.event.key = true := by
    simp [Occasion.isAbout]
  simp [held, List.filter_append, habout]

end Runs

section Batches

/-- Reports that point into a text can be sent if the units of the text fit on the wire. -/
theorem exists_toWire
    {text : List Char} {d : Diagnostic}
    (encoding : Encoding)
    (hwidth : (encoding.width text : Int) ≤ greatestCoordinate)
    (hd : d.range.Within text) :
    ∃ wire, toWire encoding text d = .ok wire := by
  obtain ⟨first, last, hle, hlast, hrange⟩ := hd
  have hlength := (Int.ofNat_le.mpr (encoding.length_le_width text)).trans hwidth
  obtain ⟨_, _, _, hstart, _⟩ := LineTable.exists_coordinates hlength (Nat.le_trans hle hlast)
  obtain ⟨_, _, _, hstop, _⟩ := LineTable.exists_coordinates hlength hlast
  obtain ⟨wire, hunits⟩ : ∃ wire, toUnits encoding text d = .ok wire := by
    rw [toUnits, hrange]
    simp only [hstart, hstop]
    exact ⟨_, rfl⟩
  exact ⟨wire, toWire_of_width_le hunits hwidth⟩

/-- The answer to an occasion, by what is held of its document afterwards. -/
structure Answered
    (encoding : Encoding) (m : Occasion) (held : Option OpenDocument) (messages : List Message) :
    Prop where
  /-- The diagnostics of a document that is closed are withdrawn. -/
  closed : ∀ uri, m.event = .closed uri → messages = [.diagnostics uri none []]
  /-- An open document is checked with the rules that are configured for it at that moment. -/
  published : ∀ d path rules,
    held = some d → Uri.path? m.event.uri = .ok path →
    (m.disk.rulesOrAll path).value = .ok rules →
    match (analyze rules d.text).value.mapM (toWire encoding d.text) with
    | .ok batch => messages = [.diagnostics m.event.uri d.version batch]
    | .error f => messages = [.failure (.coordinate f)]
  /-- If the units of its text fit on the wire, so does what is found. -/
  fitting : ∀ d path rules,
    held = some d → Uri.path? m.event.uri = .ok path →
    (m.disk.rulesOrAll path).value = .ok rules →
    (encoding.width d.text : Int) ≤ greatestCoordinate →
    ∃ batch,
      (analyze rules d.text).value.mapM (toWire encoding d.text) = .ok batch ∧
      messages = [.diagnostics m.event.uri d.version batch]
  /-- Unless looking for its configuration or reading it breaks down. -/
  broken : ∀ d path b,
    held = some d → Uri.path? m.event.uri = .ok path →
    (m.disk.rulesOrAll path).value = .error b →
    messages = [.failure (.broken b)]

/-- On an occasion that leaves its document open, the server publishes. -/
theorem sent_of_update
    {s : Server} {m : Occasion} {d : OpenDocument}
    (hm : m.event.IsAddressed)
    (hd : m.event.update s.encoding (s.documents.lookup m.event.key) = some d) :
    s.sent m = [((s.next m).publish m.disk m.event.uri).value] ∧
    (s.next m).document? m.event.uri = some d := by
  have hturned := turned_next (s := s) hm
  have hheld : (s.next m).documents.lookup m.event.key = some d := by
    rw [hturned.lookup, if_pos rfl, hd]
  refine ⟨?_, hheld⟩
  rcases handle_cases s m with ⟨f, happly, hnext, _⟩ | ⟨s', _, hnext, hsent⟩
  · rw [hnext, (turned_of_refused hm happly).2] at hheld
    cases hheld
  · rw [hsent, hnext]
    cases hevent : m.event with
    | closed uri =>
        rw [hevent] at hd
        cases hd
    | opened | changed | saved =>
        rfl

/-- What is published about an open document. -/
theorem publish_value
    {s : Server} {w : Workspace} {uri : String} {d : OpenDocument} {path : Option Path}
    (hd : s.document? uri = some d)
    (hpath : Uri.path? uri = .ok path) :
    (s.publish w uri).value =
      match (s.rules w path).value with
      | .error b => .failure (.broken b)
      | .ok rules => (s.diagnose uri d.version rules d.text).value := by
  cases hsplit : Uri.split uri with
  | error f =>
      rw [Uri.path?, hsplit] at hpath
      cases hpath
  | ok parts =>
      rw [Uri.path?, hsplit] at hpath
      cases hpath
      simp only [publish, hd, hsplit, Logged.bind, Option.bind_some]
      cases (s.rules w parts.manifestPath?).value <;> rfl

/-- What the server sends on an occasion answers it. -/
theorem answered_sent
    {s : Server} {m : Occasion}
    (hchoice : s.choice = .configured)
    (hm : m.event.IsAddressed) :
    Answered s.encoding m (m.event.update s.encoding (s.documents.lookup m.event.key))
      (s.sent m) := by
  have hturned := turned_next (s := s) hm
  have hrules : ∀ path, (s.next m).rules m.disk path = m.disk.rulesOrAll path := by
    intro path
    rw [rules, hturned.choice, hchoice]
  have hpublished : ∀ d path rules,
      m.event.update s.encoding (s.documents.lookup m.event.key) = some d →
      Uri.path? m.event.uri = .ok path → (m.disk.rulesOrAll path).value = .ok rules →
      match (analyze rules d.text).value.mapM (toWire s.encoding d.text) with
      | .ok batch => s.sent m = [.diagnostics m.event.uri d.version batch]
      | .error f => s.sent m = [.failure (.coordinate f)] := by
    intro d path rules hd hpath hfound
    obtain ⟨hsent, hopen⟩ := sent_of_update hm hd
    rw [hsent, publish_value hopen hpath, hrules, hfound]
    simp only [diagnose, Logged.bind, hturned.encoding]
    split
    · next hbatch =>
        rw [hbatch]
        rfl
    · next hrefused =>
        rw [hrefused]
        rfl
  constructor
  · intro uri huri
    simp only [sent, handle, huri, apply, answer]
    rfl
  · exact hpublished
  · intro d path rules hd hpath hfound hwidth
    obtain ⟨batch, hbatch⟩ : ∃ batch,
        (analyze rules d.text).value.mapM (toWire s.encoding d.text) = .ok batch :=
      exists_mapM_iff.mpr fun report hreport => exists_toWire s.encoding hwidth
        (within_of_mem_analyze (Workspace.chosen_of_rulesOrAll hfound).isBuiltIn hreport)
    have hmessages := hpublished d path rules hd hpath hfound
    rw [hbatch] at hmessages
    exact ⟨batch, hbatch, hmessages⟩
  · intro d path b hd hpath hfound
    obtain ⟨hsent, hopen⟩ := sent_of_update hm hd
    rw [hsent, publish_value hopen hpath, hrules, hfound]

end Batches

/--
**Servers keep no history and documents do not interfere.**  In every run over well-formed URIs,
whatever happens to the files, each occasion is answered by what the events so far leave of its
document, with the rules that are configured at that moment: one batch for an open document, one
empty batch for a document that is closed.  What is sent about one document in the course of a run
is what the events on it lead to on their own, so events on other documents do not matter.  A
failure is sent in place of a batch only where looking for a configuration or reading it breaks
down, or where a place does not fit on the wire; it does if the units of the text fit.
-/
theorem transcript_history_free
    (offered : List String) {run : List Occasion}
    (hrun : ∀ m ∈ run, m.event.IsAddressed) :
    (∀ before m later, run = before ++ m :: later →
      Answered (start offered .configured).encoding m
        (held (start offered .configured).encoding m.event.key (before ++ [m]))
        (((start offered .configured).after before).sent m)) ∧
    ∀ key,
      ((start offered .configured).transcript run).filter (fun entry => entry.1.isAbout key) =
        (start offered .configured).transcript (run.filter (Occasion.isAbout key)) := by
  refine ⟨?_, fun key => (agree_refl key _).transcript_filter hrun⟩
  rintro before m later rfl
  have hbefore : ∀ n ∈ before, n.event.IsAddressed := fun n hn => hrun n (by simp [hn])
  obtain ⟨hencoding, hchoice⟩ := after_fixed (s := start offered .configured) hbefore
  have hanswer := answered_sent (s := (start offered .configured).after before) (m := m) hchoice
    (hrun m (by simp))
  rw [hencoding, lookup_after _ hbefore] at hanswer
  rw [held_concat]
  exact hanswer

open Workspace

/-- A document without a description is opened, while there are no settings. -/
def opening : Occasion :=
  ⟨⟨.empty, ⟨.root, []⟩, .usual⟩, .opened "file:///m.nuspec" 1 "<a>".toList⟩

/-- Another one is opened. -/
def interruption : Occasion :=
  ⟨⟨.empty, ⟨.root, []⟩, .usual⟩, .opened "file:///n.nuspec" 5 "tag1".toList⟩

/-- The first one is saved after the settings have become what is given. -/
def saving (settings : List Char) : Occasion :=
  ⟨withSettings settings, .saved "file:///m.nuspec"⟩

theorem path?_first :
    Uri.path? "file:///m.nuspec" = .ok (some besideSettings) := by
  decide +kernel

theorem isAddressed_opening : opening.event.IsAddressed :=
  ⟨_, path?_first⟩

theorem isAddressed_saving (settings : List Char) : (saving settings).event.IsAddressed :=
  ⟨_, path?_first⟩

/-- Settings without the rule for descriptions. -/
def lenient : List Char :=
  "ignore = ['NUS002']".toList

theorem eq_ok_of_toOption
    {ε α : Type} {result : Except ε α} {a : α}
    (h : result.toOption = some a) :
    result = .ok a := by
  cases result with
  | error e =>
      cases h
  | ok b =>
      cases h
      rfl

/-- With them nothing is reported about the first document. -/
theorem exists_rules_lenient :
    ∃ rules,
      ((withSettings lenient).rulesOrAll (some besideSettings)).value = .ok rules ∧
      (analyze rules "<a>".toList).value = [] := by
  have hfound : (((withSettings lenient).rulesOrAll (some besideSettings)).value.toOption.map
      fun rules => (analyze rules "<a>".toList).value) = some [] := by
    decide +kernel
  obtain ⟨rules, hrules, hempty⟩ := Option.map_eq_some_iff.mp hfound
  exact ⟨rules, eq_ok_of_toOption hrules, hempty⟩

/--
Settings that change between two events on a document count at once, and an event on another
document in between does not matter.
-/
theorem transcript_history_free_interrupted :
    ((start [] .configured).transcript [opening, interruption, saving lenient]).filter
        (fun entry => entry.1.isAbout opening.event.key) =
      (start [] .configured).transcript [opening, saving lenient] ∧
    ((start [] .configured).after [opening, interruption]).sent (saving lenient) =
      [.diagnostics "file:///m.nuspec" (some 1) []] := by
  have hsecond : interruption.event.IsAddressed :=
    ⟨some ⟨.root, ["n.nuspec"]⟩, by decide +kernel⟩
  have hrun : ∀ m ∈ [opening, interruption, saving lenient], m.event.IsAddressed := by
    simpa using ⟨isAddressed_opening, hsecond, isAddressed_saving lenient⟩
  obtain ⟨rules, hrules, hempty⟩ := exists_rules_lenient
  obtain ⟨hanswers, hprojection⟩ := transcript_history_free [] hrun
  refine ⟨?_, ?_⟩
  · have hother : interruption.isAbout opening.event.key = false := by
      decide +kernel
    have hsame : (saving lenient).isAbout opening.event.key = true := by
      decide +kernel
    have hself : opening.isAbout opening.event.key = true := by
      simp [Occasion.isAbout]
    rw [hprojection]
    simp only [List.filter_cons, List.filter_nil, hself, hother, hsame, if_true,
      Bool.false_eq_true, if_false]
  · obtain ⟨batch, hbatch, hsent⟩ :=
      (hanswers [opening, interruption] (saving lenient) [] rfl).fitting
        ⟨"<a>".toList, some 1⟩ _ _ (by decide +kernel) path?_first hrules (by decide)
    rw [hempty] at hbatch
    cases hbatch
    exact hsent

/--
Faulty settings that are nested too deeply to be shown: an open document gets no batch when it is
saved, though it got one when it was opened.
-/
theorem transcript_batch_missing :
    (∀ m ∈ [opening, saving misplaced], m.event.IsAddressed) ∧
    held (start [] .configured).encoding (saving misplaced).event.key
        [opening, saving misplaced] =
      some ⟨"<a>".toList, some 1⟩ ∧
    (∃ batch,
      (start [] .configured).sent opening = [.diagnostics "file:///m.nuspec" (some 1) batch]) ∧
    ((start [] .configured).after [opening]).sent (saving misplaced) =
      [.failure (.broken .showing)] := by
  refine ⟨?_, by decide +kernel, ?_, ?_⟩
  · simpa using ⟨isAddressed_opening, isAddressed_saving misplaced⟩
  · have hanswer := answered_sent (s := start [] .configured) rfl isAddressed_opening
    have hrules : (opening.disk.rulesOrAll (some besideSettings)).value = .ok Rule.registered := by
      rfl
    obtain ⟨batch, _, hsent⟩ := hanswer.fitting _ _ _ rfl path?_first hrules (by decide)
    exact ⟨batch, hsent⟩
  · have hanswer := answered_sent (s := (start [] .configured).after [opening]) rfl
      (isAddressed_saving misplaced)
    obtain ⟨f, hfault, hbreakdown⟩ := rulesFor_misplaced
    have hrules : ((withSettings misplaced).rulesOrAll (some besideSettings)).value =
        .error .showing := by
      simp only [rulesOrAll_some, hfault, hbreakdown]
    exact hanswer.broken ⟨"<a>".toList, some 1⟩ _ _ (by decide +kernel) path?_first hrules

end Server

end NuspecLint

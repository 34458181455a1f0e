import TalkDeck.Proofs.Session.Stored

/-
What a session lists after it has asked the editor for the workspace.

An entry of a listing describes a file (`File.Describes`) or a launch configuration
(`LaunchConfig.Describes`), or it is no good; `Picks describes es as` says that `as` is what the entries
`es` describe, in their order.  Only lists and records have entries that describe anything.  Most other
values are gone through in vain and list nothing, but a number other than zero, or `true`, cannot be
gone through at all (`Payload.Solid`), and an entry that describes nothing is noted with its text, which
it may not have.  At an answer that is barred in one of these ways (`Barred`) a refresh stops where it
is.  The theorem this file exists for is `step_ready`.
-/

namespace TalkDeck

namespace Payload

/-- A value that cannot be gone through, and that is not taken for an empty listing either. -/
inductive Solid : Payload → Prop
  | true : Solid (.bool true)
  | int (i : Int) (h : i ≠ 0) : Solid (.int i)
  | real (x : Binary64) (h : x.isInt 0 = false) : Solid (.real x)

/-- The items of a list, or the values of a record; no other value has any. -/
def items : Payload → List Payload
  | .arr items => items
  | .record _ fields => fields.map (·.2)
  | _ => []

theorem text_str (limits : Limits) (s : String) :
    (Payload.str s).text limits = .ok (Text.quoted s) := by
  obtain ⟨room, hroom⟩ := Nat.exists_eq_succ_of_ne_zero (Nat.ne_of_gt limits.display_pos)
  rw [text, tree, hroom, Yaml.Tree.inner, Yaml.Scalar.within, if_neg (by simp [Yaml.Scalar.calls])]
  rfl

end Payload

namespace Workspace

variable {α : Type} {limits : Limits} {k : EntryKind α} {describes : Payload → α → Prop} {p : Payload}

/-! ## Entries -/

/-- A mapping or a record with the path and the URI of a file.  The path goes by either of two names. -/
def File.Describes (e : Payload) (f : File) : Prop :=
  ∃ ms, e.members? = some ms ∧
    (Payload.member? ms "relativePath").or (Payload.member? ms "relative_path") =
      some (.str f.relativePath) ∧
    Payload.member? ms "uri" = some (.str f.uri)

/-- A mapping or a record with the name and the URI of a launch configuration, and with its line or
none. -/
def LaunchConfig.Describes (e : Payload) (l : LaunchConfig) : Prop :=
  ∃ ms, e.members? = some ms ∧ Payload.member? ms "name" = some (.str l.name) ∧
    Payload.member? ms "uri" = some (.str l.uri) ∧
    (Payload.member? ms "line" = none ∧ l.line = 0 ∨
      ∃ p, Payload.member? ms "line" = some p ∧ intValue p = .ok (l.line : Int))

theorem textField_eq_ok {field : Option Payload} {s : String} :
    textField field = .ok s ↔ field = some (.str s) := by
  cases field with
  | none => simp [textField]
  | some p => cases p <;> simp [textField]

theorem lineField_eq_ok {field : Option Payload} {n : Nat} : lineField field = .ok n ↔
    (field = none ∧ n = 0 ∨ ∃ p, field = some p ∧ intValue p = .ok (n : Int)) := by
  cases field with
  | none => simp [lineField, eq_comm]
  | some p =>
    have hread : lineField (some p) = .ok n ↔ intValue p = .ok (n : Int) := by
      rw [lineField, bind_eq_ok_iff]
      constructor
      · rintro ⟨i, hi, hn⟩
        split at hn
        · cases hn
        · cases hn
          rw [hi, Int.toNat_of_nonneg (by omega)]
      · intro hn
        refine ⟨n, hn, ?_⟩
        rw [if_neg (by omega)]
        rfl
    simp [hread]

theorem File.ofFields_eq_ok {place : String} {path uri : Option Payload} {f : File} :
    File.ofFields place path uri = .ok f ↔
      path = some (.str f.relativePath) ∧ uri = some (.str f.uri) := by
  obtain ⟨p, u⟩ := f
  rw [← textField_eq_ok, ← textField_eq_ok, File.ofFields]
  split
  · next hp hu => simp [hp, hu]
  · next hnot =>
    refine ⟨nofun, fun h => ?_⟩
    exact absurd h.2 (hnot _ _ h.1)

theorem LaunchConfig.ofFields_eq_ok {name uri line : Option Payload} {l : LaunchConfig} :
    LaunchConfig.ofFields name uri line = .ok l ↔ name = some (.str l.name) ∧
      uri = some (.str l.uri) ∧ lineField line = .ok l.line := by
  obtain ⟨n, u, m⟩ := l
  rw [← textField_eq_ok, ← textField_eq_ok, LaunchConfig.ofFields]
  split
  · next hn hu hm => simp [hn, hu, hm]
  · next hnot =>
    refine ⟨nofun, fun h => ?_⟩
    exact absurd h.2.2 (hnot _ _ _ h.1 h.2.1)

/-- The members that describe a file. -/
def File.members (f : File) : List (String × Payload) :=
  [("relativePath", .str f.relativePath), ("uri", .str f.uri)]

/-- A file as an entry of a listing. -/
def File.entry (f : File) : Payload := .obj f.members

/-- A kind of entry is read as what it describes. -/
def EntryKind.Reads (k : EntryKind α) (describes : Payload → α → Prop) : Prop :=
  ∀ e a, k.readEntry e = .ok a ↔ describes e a

theorem EntryKind.readEntry_eq_ok {e : Payload} {a : α} :
    k.readEntry e = .ok a ↔ ∃ ms, e.members? = some ms ∧ k.read ms = .ok a := by
  rw [EntryKind.readEntry]
  cases hms : e.members? with
  | none => simp
  | some ms =>
    cases hread : k.read ms with
    | error cs => simp [Except.mapError, hread]
    | ok b => simp [Except.mapError, hread]

theorem fileKind_reads : fileKind.Reads File.Describes := by
  intro e f
  rw [EntryKind.readEntry_eq_ok]
  refine exists_congr fun ms => and_congr_right fun _ => ?_
  show File.ofMembers ms = .ok f ↔ _
  rw [File.ofMembers]
  cases Payload.member? ms "relativePath" with
  | some p => exact File.ofFields_eq_ok
  | none =>
    cases Payload.member? ms "relative_path" with
    | some p => exact File.ofFields_eq_ok
    | none => exact File.ofFields_eq_ok

theorem launchKind_reads : launchKind.Reads LaunchConfig.Describes := by
  intro e l
  rw [EntryKind.readEntry_eq_ok]
  refine exists_congr fun ms => and_congr_right fun _ => ?_
  rw [← lineField_eq_ok]
  exact LaunchConfig.ofFields_eq_ok

/-! ## Listings -/

/-- The things that some entries describe, in order, where the other entries are left out. -/
inductive Picks (describes : Payload → α → Prop) : List Payload → List α → Prop
  | nil : Picks describes [] []
  | keep {e : Payload} {a : α} {es : List Payload} {as : List α} (h : describes e a)
      (rest : Picks describes es as) : Picks describes (e :: es) (a :: as)
  | skip {e : Payload} {es : List Payload} {as : List α} (h : ∀ a, ¬describes e a)
      (rest : Picks describes es as) : Picks describes (e :: es) as

/-- Some entry describes nothing and has no text for the note that it is skipped. -/
def Mute (limits : Limits) (describes : Payload → α → Prop) (es : List Payload) (f : Yaml.NoText) :
    Prop :=
  ∃ e ∈ es, (∀ a, ¬describes e a) ∧ e.text limits = .error f

/-- What bars a listing from being loaded. -/
inductive Barred (limits : Limits) (describes : Payload → α → Prop) (p : Payload) :
    ListingFault → Prop
  | solid {f : NotListing} (h : p.Solid) (fault : entries p = .error f) :
    Barred limits describes p (.notListing f)
  | mute {f : Yaml.NoText} (h : Mute limits describes p.items f) :
    Barred limits describes p (.noText f)

def Loads (limits : Limits) (describes : Payload → α → Prop) (p : Payload) : Prop :=
  ¬∃ f, Barred limits describes p f

theorem mute_cons_iff {e : Payload} {es : List Payload} {f : Yaml.NoText} :
    Mute limits describes (e :: es) f ↔
      (∀ a, ¬describes e a) ∧ e.text limits = .error f ∨ Mute limits describes es f := by
  simp [Mute]

theorem not_mute_nil {f : Yaml.NoText} : ¬Mute limits describes [] f := by
  rintro ⟨e, he, -⟩
  cases he

namespace EntryKind

variable {e : Payload} {es : List Payload} {why : String}

theorem exists_skipNote (k : EntryKind α) (why : String) {text : String}
    (h : e.text limits = .ok text) : ∃ n, k.skipNote limits e why = .ok n := by
  rw [skipNote, h]
  exact ⟨_, rfl⟩

theorem skipNote_eq_error {f : Yaml.NoText} (h : e.text limits = .error f) :
    k.skipNote limits e why = .error f := by
  rw [skipNote, h]
  rfl

theorem loadEntries_cons_keep {a : α} (h : k.readEntry e = .ok a) :
    (k.loadEntries limits (e :: es)).1 = (k.loadEntries limits es).1.map (a :: ·) := by
  rw [loadEntries, h]

theorem loadEntries_cons_skip {text : String} (h : k.readEntry e = .error why)
    (htext : e.text limits = .ok text) :
    (k.loadEntries limits (e :: es)).1 = (k.loadEntries limits es).1 := by
  obtain ⟨n, hn⟩ := exists_skipNote k why htext
  simp only [loadEntries, h, hn]

theorem loadEntries_cons_mute {f : Yaml.NoText} (h : k.readEntry e = .error why)
    (htext : e.text limits = .error f) : (k.loadEntries limits (e :: es)).1 = .error f := by
  simp only [loadEntries, h, skipNote_eq_error htext]

/-- Texts describe nothing, and are noted. -/
theorem loadEntries_texts (k : EntryKind α) (ts : List String) :
    (k.loadEntries limits (ts.map Payload.str)).1 = .ok [] := by
  induction ts with
  | nil => rfl
  | cons t ts ih => exact (loadEntries_cons_skip rfl (Payload.text_str limits t)).trans ih

namespace Reads

theorem not_describes (h : k.Reads describes) (he : k.readEntry e = .error why) (a : α) :
    ¬describes e a := by
  intro ha
  rw [(h e a).mpr ha] at he
  cases he

/-- The entries are gone through to the end, or up to one that cannot be noted. -/
theorem loadEntries_cases (h : k.Reads describes) (limits : Limits) (es : List Payload) :
    (∃ as, (k.loadEntries limits es).1 = .ok as ∧ Picks describes es as ∧
      ∀ f, ¬Mute limits describes es f) ∨
    ∃ f, (k.loadEntries limits es).1 = .error f ∧ Mute limits describes es f := by
  induction es with
  | nil => exact Or.inl ⟨[], rfl, Picks.nil, fun f => not_mute_nil⟩
  | cons e es ih =>
    cases he : k.readEntry e with
    | ok a =>
      have hdescribes := (h e a).mp he
      rw [loadEntries_cons_keep he]
      obtain ⟨as, hok, hpicks, hnone⟩ | ⟨f, herror, hmute⟩ := ih
      · refine Or.inl ⟨a :: as, by rw [hok]; rfl, Picks.keep hdescribes hpicks, fun f hmute => ?_⟩
        obtain ⟨hnot, -⟩ | hmute := mute_cons_iff.mp hmute
        · exact hnot a hdescribes
        · exact hnone f hmute
      · exact Or.inr ⟨f, by rw [herror]; rfl, mute_cons_iff.mpr (Or.inr hmute)⟩
    | error why =>
      have hnot := h.not_describes he
      -- The note of a skipped entry is made before the rest is gone through.
      cases htext : e.text limits with
      | error f =>
        exact Or.inr ⟨f, loadEntries_cons_mute he htext, mute_cons_iff.mpr (Or.inl ⟨hnot, htext⟩)⟩
      | ok text =>
        rw [loadEntries_cons_skip he htext]
        obtain ⟨as, hok, hpicks, hnone⟩ | ⟨f, herror, hmute⟩ := ih
        · refine Or.inl ⟨as, hok, Picks.skip hnot hpicks, fun f hmute => ?_⟩
          obtain ⟨-, herror⟩ | hmute := mute_cons_iff.mp hmute
          · rw [htext] at herror
            cases herror
          · exact hnone f hmute
        · exact Or.inr ⟨f, herror, mute_cons_iff.mpr (Or.inr hmute)⟩

end Reads
end EntryKind

theorem exists_entries_eq_error (h : p.Solid) : ∃ f, entries p = .error f := by
  cases h with
  | true => exact ⟨.bool, rfl⟩
  | int i hi => exact ⟨.int, if_neg hi⟩
  | real x hx =>
    refine ⟨.real, ?_⟩
    rw [entries, hx]
    rfl

/-- What has no items is gone through as texts, if it is gone through. -/
theorem exists_entries_eq_ok (h : ¬p.Solid) : ∃ es, entries p = .ok es ∧
    (es = p.items ∨ ∃ ts : List String, es = ts.map Payload.str ∧ p.items = []) := by
  cases p with
  | null => exact ⟨[], rfl, Or.inl rfl⟩
  | bool b =>
    cases b with
    | true => exact absurd Payload.Solid.true h
    | false => exact ⟨[], rfl, Or.inl rfl⟩
  | int n =>
    by_cases hn : n = 0
    · exact ⟨[], if_pos hn, Or.inl rfl⟩
    · exact absurd (Payload.Solid.int n hn) h
  | real x =>
    cases hx : x.isInt 0 with
    | true =>
      refine ⟨[], ?_, Or.inl rfl⟩
      rw [entries, hx]
      rfl
    | false => exact absurd (Payload.Solid.real x hx) h
  | str s =>
    refine ⟨_, rfl, Or.inr ⟨s.toList.map String.singleton, ?_, rfl⟩⟩
    rw [List.map_map]
    rfl
  | arr items => exact ⟨items, rfl, Or.inl rfl⟩
  | obj members =>
    refine ⟨_, rfl, Or.inr ⟨members.map (·.1), ?_, rfl⟩⟩
    rw [List.map_map]
    rfl
  | record name fields => exact ⟨_, rfl, Or.inl rfl⟩

theorem loads_iff : Loads limits describes p ↔ ¬p.Solid ∧ ∀ f, ¬Mute limits describes p.items f := by
  constructor
  · intro h
    refine ⟨fun hsolid => ?_, fun f hmute => h ⟨_, .mute hmute⟩⟩
    obtain ⟨f, hf⟩ := exists_entries_eq_error hsolid
    exact h ⟨_, .solid hsolid hf⟩
  · rintro ⟨hsolid, hmute⟩ ⟨f, hbarred⟩
    cases hbarred with
    | solid h fault => exact hsolid h
    | mute h => exact hmute _ h

theorem loads_null : Loads limits describes .null := loads_iff.mpr ⟨nofun, fun _ => not_mute_nil⟩

namespace EntryKind

theorem load_fst {es : List Payload} (h : entries p = .ok es) :
    (k.load limits p).1 = (k.loadEntries limits es).1.mapError .noText := by
  rw [load, h]

namespace Reads

theorem load_cases (hk : k.Reads describes) (limits : Limits) (p : Payload) :
    (∃ as, (k.load limits p).1 = .ok as ∧ Picks describes p.items as ∧ Loads limits describes p) ∨
    ∃ f, (k.load limits p).1 = .error f ∧ Barred limits describes p f := by
  by_cases hsolid : p.Solid
  · obtain ⟨f, hf⟩ := exists_entries_eq_error hsolid
    refine Or.inr ⟨.notListing f, ?_, .solid hsolid hf⟩
    rw [load, hf]
  obtain ⟨es, hes, rfl | ⟨ts, rfl, hnone⟩⟩ := exists_entries_eq_ok hsolid
  · rw [load_fst hes]
    obtain ⟨as, hok, hpicks, hmute⟩ | ⟨f, herror, hmute⟩ := hk.loadEntries_cases limits p.items
    · exact Or.inl ⟨as, by rw [hok]; rfl, hpicks, loads_iff.mpr ⟨hsolid, hmute⟩⟩
    · exact Or.inr ⟨.noText f, by rw [herror]; rfl, .mute hmute⟩
  · rw [load_fst hes, k.loadEntries_texts, hnone]
    exact Or.inl ⟨[], rfl, Picks.nil, loads_iff.mpr ⟨hsolid, by simp [hnone, not_mute_nil]⟩⟩

theorem exists_load_eq_ok (hk : k.Reads describes) (h : Loads limits describes p) :
    ∃ as, (k.load limits p).1 = .ok as ∧ Picks describes p.items as := by
  obtain ⟨as, hok, hpicks, -⟩ | ⟨f, -, hbarred⟩ := hk.load_cases limits p
  · exact ⟨as, hok, hpicks⟩
  · exact absurd ⟨f, hbarred⟩ h

theorem exists_load_eq_error (hk : k.Reads describes) (h : ¬Loads limits describes p) :
    ∃ f, (k.load limits p).1 = .error f ∧ Barred limits describes p f := by
  obtain ⟨as, -, -, hloads⟩ | herror := hk.load_cases limits p
  · exact absurd hloads h
  · exact herror

end Reads
end EntryKind

namespace Index

theorem loadFiles_eq (limits : Limits) (i : Index) (p : Payload) : i.loadFiles limits p =
    ((fileKind.load limits p).1.map fun files => { i with files }, (fileKind.load limits p).2) :=
  rfl

theorem loadLaunch_eq (limits : Limits) (i : Index) (p : Payload) : i.loadLaunch limits p =
    ((launchKind.load limits p).1.map fun launch => { i with launch },
      (launchKind.load limits p).2) :=
  rfl

end Index
end Workspace

/-! ## A session -/

namespace Session

open Workspace

variable {s : Session} {i : Index} {files launch : Answer}

/-- What comes of an answer: its value, if the session grants any time for it, or else nothing. -/
def heard (s : Session) : Answer → Payload
  | .value p => if s.settings.clientTimeout.isPositive then p else .null
  | .refused _ => .null
  | .silent => .null

theorem heard_value (h : s.settings.clientTimeout.isPositive = true) (p : Payload) :
    s.heard (.value p) = p := by
  rw [heard, if_pos h]

theorem heard_of_no_time (h : ¬s.settings.clientTimeout.isPositive = true) (answer : Answer) :
    s.heard answer = .null := by
  cases answer with
  | value p => rw [heard, if_neg h]
  | refused message => rfl
  | silent => rfl

theorem request_fst (s : Session) (method : String) (answer : Answer) :
    (s.request method answer).1 = s.heard answer := by
  unfold request
  split
  · next h =>
    rw [Bool.not_eq_true', ← Bool.not_eq_true] at h
    exact (heard_of_no_time h answer).symm
  · next h =>
    rw [Bool.not_eq_true', Bool.not_eq_false] at h
    cases answer with
    | value p => exact (heard_value h p).symm
    | refused message => rfl
    | silent => rfl

theorem index_publish (s : Session) (uri : String) : (s.publish uri).index = s.index := by
  unfold publish
  split
  · rfl
  · rfl

theorem index_fire (due : List (Timer Unit)) (s : Session) : (s.fire due).index = s.index :=
  fire_frame index_publish due s

theorem index_step (s : Session) (e : Event) : (s.step e).2.index = (s.handle e).2.index :=
  index_fire _ _

theorem index_request (s : Session) (method : String) (answer : Answer) :
    (s.request method answer).2.index = s.index := by
  unfold request
  split
  · rfl
  · cases answer with
    | value p => rfl
    | refused message => rfl
    | silent => exact index_fire _ _

theorem settings_request (s : Session) (method : String) (answer : Answer) :
    (s.request method answer).2.settings = s.settings :=
  ((steady_keeps s).request (Keeps.refl s) method answer).settings

/-- What is heard depends on the settings alone. -/
theorem heard_congr {t : Session} (h : t.settings = s.settings) (answer : Answer) :
    t.heard answer = s.heard answer := by
  cases answer with
  | value p =>
    rw [heard, heard, h]
  | refused message => rfl
  | silent => rfl

/-- An answer about the files that is loaded. -/
def LoadsFiles (s : Session) (answer : Answer) : Prop :=
  Loads s.settings.limits File.Describes (s.heard answer)

/-- An answer about the launch configurations that is loaded. -/
def LoadsLaunch (s : Session) (answer : Answer) : Prop :=
  Loads s.settings.limits LaunchConfig.Describes (s.heard answer)

theorem loadsLaunch_congr {t : Session} (h : t.settings = s.settings) :
    t.LoadsLaunch launch ↔ s.LoadsLaunch launch := by
  rw [LoadsLaunch, LoadsLaunch, heard_congr h, h]

theorem refreshLaunch_of_not_loads (hi : s.index = some i) (h : ¬s.LoadsLaunch launch) :
    ∃ f, Barred s.settings.limits LaunchConfig.Describes (s.heard launch) f ∧
      (s.refreshLaunch launch).1 = .error f ∧ (s.refreshLaunch launch).2.index = some i := by
  obtain ⟨f, hload, hbarred⟩ := launchKind_reads.exists_load_eq_error h
  rw [← settings_request s launchRequest launch, ← request_fst s launchRequest] at hload
  refine ⟨f, hbarred, ?_⟩
  unfold refreshLaunch
  simp only [hi, Index.loadLaunch_eq, hload, Except.map]
  exact ⟨trivial, (index_request _ _ _).trans hi⟩

theorem refreshLaunch_of_loads (hi : s.index = some i) (h : s.LoadsLaunch launch) :
    ∃ ls, (s.refreshLaunch launch).1 = .ok () ∧
      (s.refreshLaunch launch).2.index = some { i with launch := ls } ∧
      Picks LaunchConfig.Describes (s.heard launch).items ls := by
  obtain ⟨ls, hload, hpicks⟩ := launchKind_reads.exists_load_eq_ok h
  rw [← settings_request s launchRequest launch, ← request_fst s launchRequest] at hload
  refine ⟨ls, ?_, ?_, hpicks⟩
  · unfold refreshLaunch
    simp only [hi, Index.loadLaunch_eq, hload, Except.map]
  · unfold refreshLaunch
    simp only [hi, Index.loadLaunch_eq, hload, Except.map]

theorem refresh_of_not_loads (hi : s.index = some i) (h : ¬s.LoadsFiles files) (launch : Answer) :
    ∃ f, Barred s.settings.limits File.Describes (s.heard files) f ∧
      (s.refresh files launch).1 = .error f ∧ (s.refresh files launch).2.index = some i := by
  obtain ⟨f, hload, hbarred⟩ := fileKind_reads.exists_load_eq_error h
  rw [← settings_request s filesRequest files, ← request_fst s filesRequest] at hload
  refine ⟨f, hbarred, ?_⟩
  unfold refresh
  simp only [hi, Index.loadFiles_eq, hload, Except.map]
  exact ⟨trivial, (index_request _ _ _).trans hi⟩

/-- With the files listed, a refresh goes on to the launch configurations. -/
theorem refresh_of_loads (hi : s.index = some i) (h : s.LoadsFiles files) (launch : Answer) :
    ∃ (t : Session) (fs : List File), t.settings = s.settings ∧ t.index = some { i with files := fs } ∧
      Picks File.Describes (s.heard files).items fs ∧
      (s.refresh files launch).1 = (t.refreshLaunch launch).1 ∧
      (s.refresh files launch).2.index = (t.refreshLaunch launch).2.index := by
  obtain ⟨fs, hload, hpicks⟩ := fileKind_reads.exists_load_eq_ok h
  rw [← settings_request s filesRequest files, ← request_fst s filesRequest] at hload
  let asked := s.request filesRequest files
  let notes := (fileKind.load asked.2.settings.limits asked.1).2
  refine ⟨{ asked.2.noteAll notes with index := some { i with files := fs } }, fs,
    settings_request s filesRequest files, rfl, hpicks, ?_⟩
  unfold refresh
  simp only [hi, Index.loadFiles_eq, hload, Except.map]
  split
  · next heq =>
    rw [heq]
    exact ⟨rfl, rfl⟩
  · next heq =>
    rw [heq]
    exact ⟨rfl, rfl⟩

theorem ofListing_fst {r : Except ListingFault Unit × Session} : (ofListing r).1 =
    match r.1 with
    | .ok () => .ok .done
    | .error f => .error (.listing f) := by
  obtain ⟨outcome, after⟩ := r
  cases outcome <;> rfl

/-- **A refresh lists what the answers describe.**  If nothing bars the two answers, the index has
exactly the files and launch configurations that their entries describe.  At an answer that is barred
the refresh fails and leaves alone what was still to come. -/
theorem step_ready (s : Session) (files launch : Answer) :
    (s.index = none → (s.step (.ready files launch)).1 = .ok .done ∧
      (s.step (.ready files launch)).2.index = none) ∧
    ∀ i, s.index = some i →
      (s.LoadsFiles files → s.LoadsLaunch launch →
        (s.step (.ready files launch)).1 = .ok .done ∧ ∃ fs ls,
        (s.step (.ready files launch)).2.index = some ⟨i.root, fs, ls⟩ ∧
        Picks File.Describes (s.heard files).items fs ∧
        Picks LaunchConfig.Describes (s.heard launch).items ls) ∧
      (¬s.LoadsFiles files → ∃ f,
        Barred s.settings.limits File.Describes (s.heard files) f ∧
        (s.step (.ready files launch)).1 = .error (.listing f) ∧
        (s.step (.ready files launch)).2.index = some i) ∧
      (s.LoadsFiles files → ¬s.LoadsLaunch launch → ∃ f fs,
        Barred s.settings.limits LaunchConfig.Describes (s.heard launch) f ∧
        (s.step (.ready files launch)).1 = .error (.listing f) ∧
        (s.step (.ready files launch)).2.index = some ⟨i.root, fs, i.launch⟩ ∧
        Picks File.Describes (s.heard files).items fs) := by
  have hreply : (s.step (.ready files launch)).1 = (ofListing (s.refresh files launch)).1 := rfl
  have hindex : (s.step (.ready files launch)).2.index = (s.refresh files launch).2.index :=
    (index_step s _).trans (congrArg index (ofListing_snd _))
  rw [hreply, hindex, ofListing_fst]
  refine ⟨fun hnone => ?_, fun i hi => ⟨fun hfiles hlaunch => ?_, fun hfiles => ?_,
    fun hfiles hlaunch => ?_⟩⟩
  · have hsame : s.refresh files launch = (.ok (), s) := by
      unfold refresh
      rw [hnone]
    rw [hsame]
    exact ⟨rfl, hnone⟩
  · obtain ⟨t, fs, hsettings, ht, hpicks, hgoes, hlisted⟩ := refresh_of_loads hi hfiles launch
    rw [← loadsLaunch_congr hsettings] at hlaunch
    rw [← heard_congr hsettings launch]
    obtain ⟨ls, hok, hall, hpicked⟩ := refreshLaunch_of_loads ht hlaunch
    rw [hgoes, hok]
    exact ⟨rfl, fs, ls, hlisted.trans hall, hpicks, hpicked⟩
  · obtain ⟨f, hbarred, herror, hkept⟩ := refresh_of_not_loads hi hfiles launch
    rw [herror]
    exact ⟨f, hbarred, rfl, hkept⟩
  · obtain ⟨t, fs, hsettings, ht, hpicks, hgoes, hlisted⟩ := refresh_of_loads hi hfiles launch
    rw [← loadsLaunch_congr hsettings] at hlaunch
    rw [← heard_congr hsettings launch, ← hsettings]
    obtain ⟨f, hbarred, herror, hkept⟩ := refreshLaunch_of_not_loads ht hlaunch
    rw [hgoes, herror]
    exact ⟨f, fs, hbarred, rfl, hlisted.trans hkept, hpicks⟩

/-- The index of a workspace with one file and one launch configuration. -/
def listedIndex : Index :=
  ⟨"file:///work/", [⟨"old.py", "file:///work/old.py"⟩],
    [⟨"Run", "file:///work/.vscode/launch.json", 4⟩]⟩

/-- A session that has asked for them. -/
def listed : Session :=
  (start {}).run [.begun [] (some "file:///work"),
    .ready (.value (.arr [File.entry ⟨"old.py", "file:///work/old.py"⟩]))
      (.value (.arr [.obj [("name", .str "Run"), ("uri", .str "file:///work/.vscode/launch.json"),
        ("line", .int 4)]]))]

theorem index_listed : listed.index = some listedIndex := by decide +kernel

/-- Files among entries that describe none. -/
def mixedEntries : List Payload :=
  [.int 42, File.entry ⟨"new.py", "file:///work/new.py"⟩, .obj [("uri", .str "file:///work/x")],
    .record "Object" (File.members ⟨"newer.py", "file:///work/newer.py"⟩)]

/-- Each of them has a text. -/
theorem loads_mixedEntries : listed.LoadsFiles (.value (.arr mixedEntries)) := by
  have hheard := heard_value (s := listed) (by decide +kernel) (.arr mixedEntries)
  rw [LoadsFiles, hheard, loads_iff]
  refine ⟨nofun, ?_⟩
  rintro f ⟨e, he, -, htext⟩
  have hall : ∀ e ∈ mixedEntries, (e.text listed.settings.limits).isOk = true := by decide +kernel
  have hok := hall e he
  rw [htext] at hok
  cases hok

theorem step_ready_mixedEntries :
    ((listed.step (.ready (.value (.arr mixedEntries)) .silent)).1 = .ok .done ∧ ∃ fs ls,
      (listed.step (.ready (.value (.arr mixedEntries)) .silent)).2.index =
        some ⟨"file:///work/", fs, ls⟩ ∧
      Picks File.Describes mixedEntries fs ∧ Picks LaunchConfig.Describes [] ls) ∧
    ∃ f fs, Barred listed.settings.limits LaunchConfig.Describes (.bool true) f ∧
      (listed.step (.ready .silent (.value (.bool true)))).1 = .error (.listing f) ∧
      (listed.step (.ready .silent (.value (.bool true)))).2.index =
        some ⟨"file:///work/", fs, listedIndex.launch⟩ ∧
      Picks File.Describes [] fs := by
  have hheard := heard_value (s := listed) (by decide +kernel)
  have hbarred : ¬listed.LoadsLaunch (.value (.bool true)) := by
    intro h
    rw [LoadsLaunch, hheard] at h
    exact (loads_iff.mp h).1 Payload.Solid.true
  constructor
  · have hready := ((step_ready listed (.value (.arr mixedEntries)) .silent).2 _ index_listed).1
    rw [hheard] at hready
    exact hready loads_mixedEntries loads_null
  · have hready := ((step_ready listed .silent (.value (.bool true))).2 _ index_listed).2.2
    rw [hheard] at hready
    exact hready loads_null hbarred

/-- A number in place of the files fails the refresh, and nothing is listed anew.  In place of the
launch configurations it leaves the old ones beside the new files.  A record is no list either, and its
values are listed as if it were one. -/
theorem ready_fails_number :
    (listed.step (.ready (.value (.int 5)) (.value (.arr [])))).1 =
        .error (.listing (.notListing .int)) ∧
      (listed.step (.ready (.value (.int 5)) (.value (.arr [])))).2.index = some listedIndex ∧
      (listed.step (.ready (.value (.arr [])) (.value (.int 5)))).2.index =
        some { listedIndex with files := [] } ∧
      (listed.step (.ready (.value (.record "Object"
          [("a", .record "Object" (File.members ⟨"new.py", "file:///work/new.py"⟩))]))
          .silent)).2.index =
        some ⟨"file:///work/", [⟨"new.py", "file:///work/new.py"⟩], []⟩ := by
  have hreply : (match (listed.step (.ready (.value (.int 5)) (.value (.arr [])))).1 with
    | .error f => decide (f = .listing (.notListing .int))
    | .ok _ => false) = true := by decide +kernel
  refine ⟨?_, by decide +kernel, by decide +kernel, by decide +kernel⟩
  generalize (listed.step (.ready (.value (.int 5)) (.value (.arr [])))).1 = x at hreply ⊢
  cases x with
  | ok reply => cases hreply
  | error f => rw [of_decide_eq_true hreply]

end Session
end TalkDeck

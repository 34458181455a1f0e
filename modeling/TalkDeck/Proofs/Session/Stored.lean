import Mathlib.Data.List.Induction
import TalkDeck.Proofs.Deck.Reading
import TalkDeck.Proofs.Session.Steady

/-
Which document the store has for a URI.

Most of what a session does leaves the store alone (`Keeps`).  The entry of a URI after an event is a
function of the entry before it and of the event (`entryAfter`, `step_follows`), so after a run it is a
fold over the events, and an event that has nothing to do with the URI drops out of it.  What the fold
comes to is then said about the list of events itself: a document is open (`IsOpen`), and it is what
the last event that could be read gave (`IsLast`).

A text that cannot be read changes nothing at all, because every step ends with nothing due
(`settle_quiet`).  The theorem this file exists for is `run_store_faithful`.
-/

namespace TalkDeck
namespace Session

variable {r s t : Session} {e : Event} {events : List Event} {settings : Settings} {uri : String}
  {entry : Option Document} {d : Document}

/-! ## What leaves the store alone -/

structure Keeps (r s : Session) : Prop where
  store : s.store = r.store
  settings : s.settings = r.settings

theorem Keeps.refl (s : Session) : Keeps s s := ⟨rfl, rfl⟩

theorem Keeps.frame (h : Keeps r s) (hstore : t.store = s.store) (hsettings : t.settings = s.settings) :
    Keeps r t :=
  ⟨hstore.trans h.store, hsettings.trans h.settings⟩

theorem publish_keeps (uri : String) (h : Keeps r s) : Keeps r (s.publish uri) := by
  unfold publish
  split
  · exact h
  · exact h.frame rfl rfl

theorem settle_keeps (h : Keeps r s) : Keeps r s.settle :=
  fire_of_publish publish_keeps _ (h.frame rfl rfl)

theorem steady_keeps (r : Session) : Steady (Keeps r) :=
  steady_of_publish publish_keeps fun h store settings _ _ => h.frame store settings

/-! ## Nothing due -/

theorem timers_publish (s : Session) (uri : String) : (s.publish uri).timers = s.timers := by
  unfold publish
  split
  · rfl
  · rfl

/-- What no publication changes is the same after whatever was due. -/
theorem fire_frame {α : Type} {part : Session → α} (h : ∀ s uri, part (s.publish uri) = part s)
    (due : List (Timer Unit)) (s : Session) : part (s.fire due) = part s := by
  induction due generalizing s with
  | nil => rfl
  | cons t due ih => exact (ih _).trans (h s t.key)

theorem timers_fire (due : List (Timer Unit)) (s : Session) : (s.fire due).timers = s.timers :=
  fire_frame timers_publish due s

theorem settle_quiet (s : Session) : s.settle.timers.loop.due = [] := by
  have htimers : s.settle.timers = s.timers.settle.2 := timers_fire _ _
  rw [htimers, List.eq_nil_iff_forall_not_mem]
  intro t ht
  obtain ⟨ht, hdue⟩ := List.mem_filter.mp ht
  obtain ⟨-, hlate⟩ := List.mem_filter.mp ht
  change s.timers.loop.isDue t = true at hdue
  rw [hdue] at hlate
  cases hlate

/-- With nothing due, nothing happens. -/
theorem settle_of_quiet (h : s.timers.loop.due = []) : s.settle = s := by
  have hrest : s.timers.loop.rest = s.timers.loop := by
    have hall : s.timers.loop.waiting.filter (fun t => !s.timers.loop.isDue t) =
        s.timers.loop.waiting := by
      rw [List.filter_eq_self]
      intro t ht
      have hnot := List.filter_eq_nil_iff.mp h t ht
      rw [Bool.not_eq_true] at hnot
      rw [hnot]
      rfl
    rw [Loop.rest, hall]
  unfold settle Debounce.settle
  rw [h, hrest]
  rfl

theorem run_quiet (h : s.timers.loop.due = []) (events : List Event) :
    (s.run events).timers.loop.due = [] := by
  induction events generalizing s with
  | nil => exact h
  | cons e events ih => exact ih (settle_quiet _)

/-! ## The entry of a URI -/

/-- A text that comes with a version is read as a document. -/
def IsRead (settings : Settings) (uri : String) (version : Int) (text : String) (d : Document) : Prop :=
  isVersion version = true ∧
    Document.create settings.limits uri version text settings.sequenceType = .ok d

/-- The entry of a URI after a text for it, which may not be readable. -/
def reread (settings : Settings) (uri : String) (version : Int) (text : String)
    (entry : Option Document) : Option Document :=
  if isVersion version = true then
    match Document.create settings.limits uri version text settings.sequenceType with
    | .ok d => some d
    | .error _ => entry
  else entry

/-- The entry of a URI after an event. -/
def entryAfter (settings : Settings) (uri : String) (entry : Option Document) :
    Event → Option Document
  | .opened u version text => if u = uri then reread settings uri version text entry else entry
  | .changed u version texts =>
    match texts.getLast? with
    | some text =>
      if u = uri ∧ entry.isSome = true then reread settings uri version text entry else entry
    | none => entry
  | .closed u => if u = uri then none else entry
  | .shutdown => none
  | _ => entry

/-- A session after an event: the settings stay, and every entry is what the event makes of it. -/
structure Follows (s : Session) (e : Event) (t : Session) : Prop where
  settings : t.settings = s.settings
  entry : ∀ uri, t.store.get? uri =
    entryAfter s.settings uri (s.store.get? uri) e

theorem Keeps.follows (h : Keeps s t)
    (he : ∀ uri entry, entryAfter s.settings uri entry e = entry) : Follows s e t where
  settings := h.settings
  entry := by
    intro uri
    rw [h.store, he]

theorem Follows.keeps (h : Follows s e r) (hrt : Keeps r t) : Follows s e t where
  settings := hrt.settings.trans h.settings
  entry := by
    intro uri
    rw [hrt.store, h.entry]

theorem not_isRead_of_error {version : Int} {text : String} {x : Yaml.Abort}
    (hx : Document.create settings.limits uri version text settings.sequenceType = .error x)
    (d : Document) : ¬IsRead settings uri version text d := by
  intro hread
  rw [hread.2] at hx
  cases hx

theorem reread_of_isRead {version : Int} {text : String} (h : IsRead settings uri version text d) :
    reread settings uri version text entry = some d := by
  rw [reread, if_pos h.1, h.2]

theorem reread_of_not_isRead {version : Int} {text : String}
    (h : ∀ d, ¬IsRead settings uri version text d) :
    reread settings uri version text entry = entry := by
  unfold reread
  split
  · next hversion =>
    cases hd : Document.create settings.limits uri version text settings.sequenceType with
    | error x => rfl
    | ok d => exact absurd ⟨hversion, hd⟩ (h d)
  · rfl

/-- An event that sends a text for one URI: the entry of this URI is read again. -/
def Sends (s : Session) (e : Event) (uri : String) (version : Int) (text : String) : Prop :=
  ∀ other, entryAfter s.settings other (s.store.get? other) e =
    if uri = other then reread s.settings other version text (s.store.get? other)
    else s.store.get? other

theorem Sends.follows_insert {version : Int} {text : String} (h : Sends s e uri version text)
    (hread : IsRead s.settings uri version text d) :
    Follows s e { s with store := s.store.insert d } := by
  refine ⟨rfl, fun other => ?_⟩
  have huri : d.uri = uri := (Document.create_eq_ok_iff.mp hread.2).1
  rw [h, Store.get?_insert, huri]
  by_cases hu : uri = other
  · subst hu
    rw [if_pos rfl, if_pos rfl, reread_of_isRead hread]
  · rw [if_neg hu, if_neg hu]

theorem Sends.follows_self {version : Int} {text : String} (h : Sends s e uri version text)
    (hnone : ∀ d, ¬IsRead s.settings uri version text d) : Follows s e s := by
  refine ⟨rfl, fun other => ?_⟩
  rw [h]
  by_cases hu : uri = other
  · subst hu
    rw [if_pos rfl, reread_of_not_isRead hnone]
  · rw [if_neg hu]

theorem openDocument_of_ok {version : Int} {text : String}
    (hd : Document.create s.settings.limits uri version text s.settings.sequenceType = .ok d) :
    ∃ n, s.openDocument uri version text =
      (.ok .done, ({ s with store := s.store.insert d }.note n).publish uri) := by
  unfold openDocument Store.load
  rw [hd]
  exact ⟨_, rfl⟩

theorem openDocument_of_error {version : Int} {text : String} {x : Yaml.Abort}
    (hx : Document.create s.settings.limits uri version text s.settings.sequenceType = .error x) :
    s.openDocument uri version text = (.error (.markup x), s) := by
  unfold openDocument Store.load
  rw [hx]
  rfl

/-- A document that is not open is not opened by a change. -/
theorem changeDocument_of_closed (s : Session) (uri : String) (version : Int) (texts : List String)
    (hclosed : s.store.contains uri = false) :
    ∃ journal, s.changeDocument uri version texts = (.ok .done, { s with journal }) := by
  unfold changeDocument
  split
  · exact ⟨s.journal, rfl⟩
  · rw [Store.change, hclosed]
    exact ⟨_, rfl⟩

theorem changeDocument_of_ok {version : Int} {texts : List String} {text : String}
    (hlast : texts.getLast? = some text) (hopen : s.store.contains uri = true)
    (hd : Document.create s.settings.limits uri version text s.settings.sequenceType = .ok d) :
    ∃ n, s.changeDocument uri version texts =
      (.ok .done, ({ s with store := s.store.insert d }.note n).schedule uri) := by
  unfold changeDocument Store.change
  rw [hlast]
  dsimp only
  rw [if_pos hopen, hd]
  exact ⟨_, rfl⟩

theorem changeDocument_of_error {version : Int} {texts : List String} {text : String}
    {x : Yaml.Abort} (hlast : texts.getLast? = some text) (hopen : s.store.contains uri = true)
    (hx : Document.create s.settings.limits uri version text s.settings.sequenceType = .error x) :
    s.changeDocument uri version texts = (.error (.markup x), s) := by
  unfold changeDocument Store.change
  rw [hlast]
  dsimp only
  rw [if_pos hopen, hx]
  rfl

theorem handle_opened_follows (s : Session) (uri : String) (version : Int) (text : String) :
    Follows s (.opened uri version text) (s.handle (.opened uri version text)).2 := by
  have hsends : Sends s (.opened uri version text) uri version text := fun _ => rfl
  rw [handle]
  by_cases hversion : isVersion version = true
  · rw [if_pos hversion]
    cases hd : Document.create s.settings.limits uri version text s.settings.sequenceType with
    | ok d =>
      obtain ⟨n, hopen⟩ := openDocument_of_ok hd
      rw [hopen]
      refine (hsends.follows_insert ⟨hversion, hd⟩).keeps (publish_keeps uri ?_)
      exact (steady_keeps _).note (Keeps.refl _) n
    | error x =>
      rw [openDocument_of_error hd]
      exact hsends.follows_self (not_isRead_of_error hd)
  · rw [if_neg hversion]
    exact hsends.follows_self fun d hread => hversion hread.1

/-- A change of a document that is open sends the last of its texts. -/
theorem sends_changed {version : Int} {texts : List String} {text : String}
    (hlast : texts.getLast? = some text) (hopen : s.store.contains uri = true) :
    Sends s (.changed uri version texts) uri version text := by
  intro other
  rw [entryAfter, hlast]
  by_cases hu : uri = other
  · subst hu
    exact (if_pos ⟨rfl, hopen⟩).trans (if_pos rfl).symm
  · exact (if_neg fun h => hu h.1).trans (if_neg hu).symm

theorem entryAfter_changed_of_closed (version : Int) (texts : List String)
    (hclosed : s.store.contains uri = false) (other : String) :
    entryAfter settings other (s.store.get? other) (.changed uri version texts) =
      s.store.get? other := by
  rw [entryAfter]
  cases texts.getLast? with
  | none => rfl
  | some text =>
    refine if_neg fun h => ?_
    rw [← h.1] at h
    exact absurd h.2 (Bool.eq_false_iff.mp hclosed)

theorem handle_changed_follows (s : Session) (uri : String) (version : Int) (texts : List String) :
    Follows s (.changed uri version texts) (s.handle (.changed uri version texts)).2 := by
  rw [handle]
  by_cases hopen : s.store.contains uri = true
  · cases hlast : texts.getLast? with
    | none =>
      have hnone : ∀ other entry, entryAfter s.settings other entry
          (.changed uri version texts) = entry := by
        intro other entry
        rw [entryAfter, hlast]
      have hself : (s.changeDocument uri version texts).2 = s := by
        rw [changeDocument, hlast]
      split
      · rw [hself]
        exact (Keeps.refl s).follows hnone
      · exact (Keeps.refl s).follows hnone
    | some text =>
      have hsends : Sends s (.changed uri version texts) uri version text :=
        sends_changed hlast hopen
      by_cases hversion : isVersion version = true
      · rw [if_pos hversion]
        cases hd : Document.create s.settings.limits uri version text s.settings.sequenceType with
        | ok d =>
          obtain ⟨n, hchange⟩ := changeDocument_of_ok hlast hopen hd
          rw [hchange]
          exact (hsends.follows_insert ⟨hversion, hd⟩).keeps ((Keeps.refl _).frame rfl rfl)
        | error x =>
          rw [changeDocument_of_error hlast hopen hd]
          exact hsends.follows_self (not_isRead_of_error hd)
      · rw [if_neg hversion]
        exact hsends.follows_self fun d hread => hversion hread.1
  · rw [Bool.not_eq_true] at hopen
    split
    · obtain ⟨journal, hchange⟩ := changeDocument_of_closed s uri version texts hopen
      rw [hchange]
      exact ⟨rfl, fun other => (entryAfter_changed_of_closed version texts hopen other).symm⟩
    · exact ⟨rfl, fun other => (entryAfter_changed_of_closed version texts hopen other).symm⟩

theorem handle_follows (s : Session) (e : Event) : Follows s e (s.handle e).2 := by
  have hself := Keeps.refl s
  cases e with
  | opened uri version text => exact handle_opened_follows s uri version text
  | changed uri version texts => exact handle_changed_follows s uri version texts
  | closed uri => exact ⟨rfl, s.store.get?_erase uri⟩
  | shutdown => exact ⟨rfl, fun _ => rfl⟩
  | configured =>
    exact (publishes_of_publish publish_keeps _ hself).follows fun _ _ => rfl
  | _ => exact Keeps.follows ((steady_keeps s).handle hself trivial) fun _ _ => rfl

theorem step_follows (s : Session) (e : Event) : Follows s e (s.step e).2 :=
  (handle_follows s e).keeps (settle_keeps (Keeps.refl _))

theorem settings_run (s : Session) (events : List Event) : (s.run events).settings = s.settings := by
  induction events generalizing s with
  | nil => rfl
  | cons e events ih => exact (ih _).trans (step_follows s e).settings

/-- After a run the entry of a URI is a fold over the events. -/
theorem get?_run (s : Session) (events : List Event) (uri : String) :
    (s.run events).store.get? uri =
      events.foldl (entryAfter s.settings uri) (s.store.get? uri) := by
  induction events generalizing s with
  | nil => rfl
  | cons e events ih =>
    have hstep := step_follows s e
    show ((s.step e).2.run events).store.get? uri = _
    rw [ih, hstep.settings, hstep.entry, List.foldl_cons]

/-! ## The events of a URI -/

/-- Whether an event has to do with a URI. -/
def Event.concerns (uri : String) : Event → Bool
  | .opened u _ _ => u == uri
  | .changed u _ _ => u == uri
  | .closed u => u == uri
  | .shutdown => true
  | _ => false

/-- An event that ends the document of a URI. -/
def Ends (uri : String) (e : Event) : Prop := e = .closed uri ∨ e = .shutdown

/-- A document was opened, and has neither been closed nor lost in a shutdown since. -/
def IsOpen (settings : Settings) (uri : String) (events : List Event) : Prop :=
  ∃ before version text after d, events = before ++ .opened uri version text :: after ∧
    IsRead settings uri version text d ∧ ∀ e ∈ after, ¬Ends uri e

/-- An event after some others gives a URI its document: it opens it, or is a change with at least one
text while it is open, and the text can be read. -/
def Gives (settings : Settings) (uri : String) (before : List Event) (e : Event) (d : Document) :
    Prop :=
  ∃ version text, IsRead settings uri version text d ∧ (e = .opened uri version text ∨
    ∃ texts, e = .changed uri version texts ∧ texts.getLast? = some text ∧
      IsOpen settings uri before)

/-- The document given last, if nothing has ended it. -/
def IsLast (settings : Settings) (uri : String) (events : List Event) (d : Document) : Prop :=
  ∃ before e after, events = before ++ e :: after ∧ Gives settings uri before e d ∧
    (∀ x ∈ after, ¬Ends uri x) ∧
    ∀ mid x rest, after = mid ++ x :: rest → ∀ d', ¬Gives settings uri (before ++ e :: mid) x d'

theorem concerns_cases (h : e.concerns uri = true) : (∃ version text, e = .opened uri version text) ∨
    (∃ version texts, e = .changed uri version texts) ∨ Ends uri e := by
  cases e with
  | opened u version text => exact Or.inl ⟨version, text, by rw [eq_of_beq h]⟩
  | changed u version texts => exact Or.inr (Or.inl ⟨version, texts, by rw [eq_of_beq h]⟩)
  | closed u => exact Or.inr (Or.inr (Or.inl (by rw [eq_of_beq h])))
  | shutdown => exact Or.inr (Or.inr (Or.inr rfl))
  | _ => cases h

/-- An event that has nothing to do with a URI does not change its entry. -/
theorem entryAfter_of_not_concerns (h : e.concerns uri = false) :
    entryAfter settings uri entry e = entry := by
  cases e with
  | opened u version text => exact if_neg (ne_of_beq_false h)
  | changed u version texts =>
    rw [entryAfter]
    split
    · exact if_neg fun hu => ne_of_beq_false h hu.1
    · rfl
  | closed u => exact if_neg (ne_of_beq_false h)
  | shutdown => cases h
  | _ => rfl

theorem isSome_reread {version : Int} {text : String} (h : entry.isSome = true) :
    (reread settings uri version text entry).isSome = true := by
  unfold reread
  split
  · split
    · rfl
    · exact h
  · exact h

theorem reread_eq_some_iff {version : Int} {text : String} :
    reread settings uri version text entry = some d ↔
      IsRead settings uri version text d ∨
        (entry = some d ∧ ∀ d', ¬IsRead settings uri version text d') := by
  by_cases hread : ∃ d', IsRead settings uri version text d'
  · obtain ⟨d', hd'⟩ := hread
    rw [reread_of_isRead hd']
    constructor
    · intro h
      cases h
      exact Or.inl hd'
    · rintro (hd | ⟨-, hnone⟩)
      · exact congrArg some (Except.ok.inj (hd'.2.symm.trans hd.2))
      · exact absurd hd' (hnone d')
  · have hnone := not_exists.mp hread
    rw [reread_of_not_isRead hnone]
    constructor
    · exact fun h => Or.inr ⟨h, hnone⟩
    · rintro (hd | ⟨h, -⟩)
      · exact absurd hd (hnone d)
      · exact h

theorem gives_opened_iff {version : Int} {text : String} :
    Gives settings uri events (.opened uri version text) d ↔
      IsRead settings uri version text d := by
  constructor
  · rintro ⟨v, t, hread, heq | ⟨texts, heq, -⟩⟩
    · cases heq
      exact hread
    · cases heq
  · intro hread
    exact ⟨version, text, hread, Or.inl rfl⟩

theorem gives_changed_iff {version : Int} {texts : List String} :
    Gives settings uri events (.changed uri version texts) d ↔
      ∃ text, texts.getLast? = some text ∧ IsRead settings uri version text d ∧
        IsOpen settings uri events := by
  constructor
  · rintro ⟨v, text, hread, heq | ⟨texts, heq, hlast, hopen⟩⟩
    · cases heq
    · cases heq
      exact ⟨text, hlast, hread, hopen⟩
  · rintro ⟨text, hlast, hread, hopen⟩
    exact ⟨version, text, hread, Or.inr ⟨texts, rfl, hlast, hopen⟩⟩

/-- An event that ends a document or has nothing to do with it gives none. -/
theorem not_gives (h : Ends uri e ∨ e.concerns uri = false) :
    ¬Gives settings uri events e d := by
  rintro ⟨version, text, -, rfl | ⟨texts, rfl, -⟩⟩
  · rcases h with (h | h) | h
    · cases h
    · cases h
    · exact ne_of_beq_false h rfl
  · rcases h with (h | h) | h
    · cases h
    · cases h
    · exact ne_of_beq_false h rfl

theorem entryAfter_of_ends (h : Ends uri e) : entryAfter settings uri entry e = none := by
  rcases h with rfl | rfl
  · exact if_pos rfl
  · rfl

theorem not_ends_of_not_concerns (h : e.concerns uri = false) : ¬Ends uri e := by
  rintro (rfl | rfl)
  · exact ne_of_beq_false h rfl
  · cases h

theorem not_ends_opened {other : String} {version : Int} {text : String} :
    ¬Ends uri (.opened other version text) := by
  rintro (h | h) <;> cases h

theorem not_ends_changed {other : String} {version : Int} {texts : List String} :
    ¬Ends uri (.changed other version texts) := by
  rintro (h | h) <;> cases h

/-- A change neither opens nor closes a document. -/
theorem isSome_entryAfter_changed {other : String} {version : Int} {texts : List String} :
    (entryAfter settings uri entry (.changed other version texts)).isSome = entry.isSome := by
  rw [entryAfter]
  cases texts.getLast? with
  | none => rfl
  | some text =>
    dsimp only
    split
    · next h => rw [isSome_reread h.2, h.2]
    · rfl

/-- One event: what it gives is there afterwards, and otherwise what was there before unless the
event ends it. -/
theorem entryAfter_eq_some_iff (hopen : entry.isSome = true ↔ IsOpen settings uri events) :
    entryAfter settings uri entry e = some d ↔
      Gives settings uri events e d ∨
        (entry = some d ∧ ¬Ends uri e ∧ ∀ d', ¬Gives settings uri events e d') := by
  by_cases hconcerns : e.concerns uri = true
  · rcases concerns_cases hconcerns with ⟨version, text, rfl⟩ | ⟨version, texts, rfl⟩ | hends
    · rw [entryAfter, if_pos rfl, reread_eq_some_iff]
      simp only [gives_opened_iff, not_ends_opened, not_false_eq_true, true_and]
    · simp only [gives_changed_iff, not_ends_changed, not_false_eq_true, true_and]
      rw [entryAfter]
      cases hlast : texts.getLast? with
      | none => simp
      | some text =>
        by_cases hsome : entry.isSome = true
        · have hread := hopen.mp hsome
          simp [hsome, hread, reread_eq_some_iff]
        · have hnot : ¬IsOpen settings uri events := fun h => hsome (hopen.mpr h)
          simp [hsome, hnot]
    · rw [entryAfter_of_ends hends]
      simp [hends, not_gives (Or.inl hends)]
  · rw [Bool.not_eq_true] at hconcerns
    rw [entryAfter_of_not_concerns hconcerns]
    simp [not_gives (Or.inr hconcerns), not_ends_of_not_concerns hconcerns]

/-- One event: a document is open afterwards if the event opens it, or if it was open and the event
does not end it. -/
theorem isSome_entryAfter_iff : (entryAfter settings uri entry e).isSome = true ↔
    (∃ version text d, e = .opened uri version text ∧ IsRead settings uri version text d) ∨
      (entry.isSome = true ∧ ¬Ends uri e) := by
  by_cases hconcerns : e.concerns uri = true
  · rcases concerns_cases hconcerns with ⟨version, text, rfl⟩ | ⟨version, texts, rfl⟩ | hends
    · rw [entryAfter, if_pos rfl]
      by_cases hread : ∃ d, IsRead settings uri version text d
      · obtain ⟨d, hd⟩ := hread
        rw [reread_of_isRead hd]
        exact ⟨fun _ => Or.inl ⟨version, text, d, rfl, hd⟩, fun _ => rfl⟩
      · rw [reread_of_not_isRead (not_exists.mp hread)]
        constructor
        · exact fun h => Or.inr ⟨h, not_ends_opened⟩
        · rintro (⟨v, t, d, heq, hd⟩ | ⟨h, -⟩)
          · cases heq
            exact absurd ⟨d, hd⟩ hread
          · exact h
    · rw [isSome_entryAfter_changed]
      simp [not_ends_changed]
    · rw [entryAfter_of_ends hends]
      constructor
      · exact fun h => nomatch h
      · rintro (⟨v, t, d, rfl, -⟩ | ⟨-, hnot⟩)
        · rcases hends with h | h <;> cases h
        · exact absurd hends hnot
  · rw [Bool.not_eq_true] at hconcerns
    rw [entryAfter_of_not_concerns hconcerns]
    constructor
    · exact fun h => Or.inr ⟨h, not_ends_of_not_concerns hconcerns⟩
    · rintro (⟨v, t, d, rfl, -⟩ | ⟨h, -⟩)
      · exact absurd rfl (ne_of_beq_false hconcerns)
      · exact h

/-! ## Runs -/

/-- Where a list with a last member can be split. -/
theorem concat_eq_append_cons_iff {α : Type} {xs before after : List α} {x y : α} :
    xs ++ [x] = before ++ y :: after ↔
      (xs = before ∧ x = y ∧ after = []) ∨
        ∃ rest, after = rest ++ [x] ∧ xs = before ++ y :: rest := by
  constructor
  · intro h
    rcases after.eq_nil_or_concat with rfl | ⟨rest, z, rfl⟩
    · obtain ⟨hxs, hx⟩ := List.append_inj' h rfl
      exact Or.inl ⟨hxs, List.singleton_inj.mp hx, rfl⟩
    · rw [List.concat_eq_append] at h ⊢
      rw [← List.cons_append, ← List.append_assoc] at h
      obtain ⟨hxs, hx⟩ := List.append_inj' h rfl
      exact Or.inr ⟨rest, by rw [List.singleton_inj.mp hx], hxs⟩
  · rintro (⟨rfl, rfl, rfl⟩ | ⟨rest, rfl, rfl⟩)
    · rfl
    · rw [List.append_assoc, List.cons_append]

theorem isOpen_concat : IsOpen settings uri (events ++ [e]) ↔
    (∃ version text d, e = .opened uri version text ∧ IsRead settings uri version text d) ∨
      (IsOpen settings uri events ∧ ¬Ends uri e) := by
  constructor
  · rintro ⟨before, version, text, after, d, hsplit, hread, hafter⟩
    rcases concat_eq_append_cons_iff.mp hsplit with ⟨-, rfl, -⟩ | ⟨rest, rfl, rfl⟩
    · exact Or.inl ⟨version, text, d, rfl, hread⟩
    · refine Or.inr ⟨⟨before, version, text, rest, d, rfl, hread, ?_⟩, ?_⟩
      · exact fun x hx => hafter x (List.mem_append_left _ hx)
      · exact hafter e (List.mem_append_right _ List.mem_cons_self)
  · rintro (⟨version, text, d, rfl, hread⟩ | ⟨⟨before, version, text, after, d, rfl, hread, hafter⟩, he⟩)
    · exact ⟨events, version, text, [], d, rfl, hread, fun x hx => absurd hx List.not_mem_nil⟩
    · refine ⟨before, version, text, after ++ [e], d, ?_, hread, ?_⟩
      · rw [List.append_assoc, List.cons_append]
      · intro x hx
        rcases List.mem_append.mp hx with hx | hx
        · exact hafter x hx
        · rw [List.mem_singleton.mp hx]
          exact he

theorem isLast_concat : IsLast settings uri (events ++ [e]) d ↔
    Gives settings uri events e d ∨
      (IsLast settings uri events d ∧ ¬Ends uri e ∧
        ∀ d', ¬Gives settings uri events e d') := by
  constructor
  · rintro ⟨before, x, after, hsplit, hgives, hafter, hlast⟩
    rcases concat_eq_append_cons_iff.mp hsplit with ⟨rfl, rfl, -⟩ | ⟨rest, rfl, rfl⟩
    · exact Or.inl hgives
    · refine Or.inr ⟨⟨before, x, rest, rfl, hgives, ?_, ?_⟩, ?_, hlast rest e [] rfl⟩
      · exact fun y hy => hafter y (List.mem_append_left _ hy)
      · intro mid y tail hrest
        refine hlast mid y (tail ++ [e]) ?_
        rw [hrest, List.append_assoc, List.cons_append]
      · exact hafter e (List.mem_append_right _ List.mem_cons_self)
  · rintro (hgives | ⟨⟨before, x, after, rfl, hgives, hafter, hlast⟩, he, hnone⟩)
    · refine ⟨events, e, [], rfl, hgives, fun x hx => absurd hx List.not_mem_nil, ?_⟩
      intro mid x rest hsplit
      exact absurd hsplit.symm (by simp)
    · refine ⟨before, x, after ++ [e], ?_, hgives, ?_, ?_⟩
      · rw [List.append_assoc, List.cons_append]
      · intro y hy
        rcases List.mem_append.mp hy with hy | hy
        · exact hafter y hy
        · rw [List.mem_singleton.mp hy]
          exact he
      · intro mid y tail hsplit
        rcases concat_eq_append_cons_iff.mp hsplit with ⟨rfl, rfl, -⟩ | ⟨rest, -, rfl⟩
        · exact hnone
        · exact hlast mid y rest rfl

/-- The fold over the events has a document exactly while it is open, and the one given last. -/
theorem foldl_entryAfter (settings : Settings) (uri : String) (events : List Event) :
    let entry := events.foldl (entryAfter settings uri) none
    (entry.isSome = true ↔ IsOpen settings uri events) ∧
      ∀ d, entry = some d ↔ IsLast settings uri events d := by
  -- The last event decides, so events are added at the end.
  induction events using List.reverseRecOn with
  | nil =>
    constructor
    · refine ⟨fun h => absurd h (by simp), ?_⟩
      rintro ⟨before, version, text, after, d, hsplit, -⟩
      exact absurd hsplit (by simp)
    · intro d
      refine ⟨fun h => absurd h (by simp), ?_⟩
      rintro ⟨before, e, after, hsplit, -⟩
      exact absurd hsplit (by simp)
  | append_singleton events e ih =>
    obtain ⟨hopen, hlast⟩ := ih
    constructor
    · rw [List.foldl_concat, isSome_entryAfter_iff, isOpen_concat, hopen]
    · intro d
      rw [List.foldl_concat, entryAfter_eq_some_iff hopen, isLast_concat, hlast]

/-- Events that have nothing to do with a URI can be left out. -/
theorem foldl_filter_concerns (settings : Settings) (uri : String) (events : List Event)
    (entry : Option Document) :
    (events.filter (·.concerns uri)).foldl (entryAfter settings uri) entry =
      events.foldl (entryAfter settings uri) entry := by
  induction events generalizing entry with
  | nil => rfl
  | cons e events ih =>
    by_cases he : e.concerns uri = true
    · rw [List.filter_cons_of_pos he, List.foldl_cons, List.foldl_cons, ih]
    · rw [List.filter_cons_of_neg he, ih, List.foldl_cons,
        entryAfter_of_not_concerns (Bool.eq_false_iff.mpr he)]

/-! ## What is left unchanged -/

/-- An event that leaves nothing due is over once it is handled. -/
theorem step_of_quiet {reply : Except Failure Reply} (hhandle : s.handle e = (reply, t))
    (h : t.timers.loop.due = []) : s.step e = (reply, t) := by
  rw [step, hhandle]
  show (reply, t.settle) = _
  rw [settle_of_quiet h]

/-- A text that cannot be read changes nothing. -/
theorem step_of_markup (h : s.timers.loop.due = []) {version : Int} {text : String} {x : Yaml.Abort}
    (hversion : isVersion version = true)
    (hx : Document.create s.settings.limits uri version text s.settings.sequenceType = .error x) :
    s.step (.opened uri version text) = (.error (.markup x), s) ∧
      ∀ texts, texts.getLast? = some text → s.store.contains uri = true →
        s.step (.changed uri version texts) = (.error (.markup x), s) := by
  constructor
  · refine step_of_quiet ?_ h
    rw [handle, if_pos hversion, openDocument_of_error hx]
  · intro texts hlast hopen
    refine step_of_quiet ?_ h
    rw [handle, if_pos hversion, changeDocument_of_error hlast hopen hx]

/-- A change of a document that is not open leaves at most a note. -/
theorem step_changed_of_closed (h : s.timers.loop.due = []) (version : Int) (texts : List String)
    (hclosed : s.store.contains uri = false) :
    ∃ journal, (s.step (.changed uri version texts)).2 = { s with journal } := by
  by_cases hversion : isVersion version = true
  · obtain ⟨journal, hchange⟩ := changeDocument_of_closed s uri version texts hclosed
    have hhandle : s.handle (.changed uri version texts) = (.ok .done, { s with journal }) := by
      rw [handle, if_pos hversion, hchange]
    exact ⟨journal, congrArg Prod.snd (step_of_quiet hhandle h)⟩
  · have hhandle : s.handle (.changed uri version texts) =
        (.error (.version ⟨false, version⟩), s) := by
      rw [handle, if_neg hversion]
    exact ⟨s.journal, congrArg Prod.snd (step_of_quiet hhandle h)⟩

/-- **The store holds the latest readable text of each open document, and nothing else.**  After any
events a URI has an entry exactly if its document is open, and the entry is the document that was given
last.  Events of other URIs play no part in it.  A change of a document that is not open leaves at most
a note; and a message with a text that cannot be read leaves the whole session as it was. -/
theorem run_store_faithful (settings : Settings) (events : List Event) :
    let s := (start settings).run events
    (∀ uri, s.store.contains uri = true ↔ IsOpen settings uri events) ∧
    (∀ uri d, s.store.get? uri = some d ↔ IsLast settings uri events d) ∧
    (∀ uri others, others.filter (·.concerns uri) = events.filter (·.concerns uri) →
      ((start settings).run others).store.get? uri = s.store.get? uri) ∧
    (∀ uri version texts, s.store.contains uri = false →
      ∃ journal, (s.step (.changed uri version texts)).2 = { s with journal }) ∧
    ∀ uri version text x, isVersion version = true →
      Document.create settings.limits uri version text settings.sequenceType = .error x →
        s.step (.opened uri version text) = (.error (.markup x), s) ∧
          ∀ texts, texts.getLast? = some text → s.store.contains uri = true →
            s.step (.changed uri version texts) = (.error (.markup x), s) := by
  intro s
  have hget : ∀ uri evs, ((start settings).run evs).store.get? uri =
      evs.foldl (entryAfter settings uri) none :=
    fun uri evs => get?_run (start settings) evs uri
  have hquiet : s.timers.loop.due = [] := run_quiet rfl events
  have hsettings : s.settings = settings := settings_run (start settings) events
  refine ⟨?_, ?_, ?_, ?_, ?_⟩
  · intro uri
    rw [Store.contains, hget]
    exact (foldl_entryAfter settings uri events).1
  · intro uri d
    rw [hget]
    exact (foldl_entryAfter settings uri events).2 d
  · intro uri others hsame
    rw [hget, hget, ← foldl_filter_concerns, hsame, foldl_filter_concerns]
  · intro uri version texts hclosed
    exact step_changed_of_closed hquiet version texts hclosed
  · intro uri version text x hversion hx
    rw [← hsettings] at hx
    exact step_of_markup hquiet hversion hx

end Session
end TalkDeck

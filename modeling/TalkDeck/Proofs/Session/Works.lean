import TalkDeck.Proofs.Session.Stored

/-
What one event can do to a session.

Apart from its documents a session only ever publishes: `Works` closes over publications and over all
that plays no part in them, such as the journal, the timers and the index.  `step_cases` says once what
an event does to the documents before that: nothing, or one is read, or one is closed, or all are lost.
Invariants follow from it by cases; the one here is `Vetted`, that every document a session has or has
told the editor about is one that was sent.
-/

namespace TalkDeck
namespace Session

variable {r s t : Session} {e : Event} {events : List Event}

/-! ## Publishing -/

/-- What a session does while its documents stay as they are. -/
inductive Works (r : Session) : Session → Prop where
  | refl : Works r r
  | frame {s t : Session} (h : Works r s) (store : t.store = s.store) (catalog : t.catalog = s.catalog)
    (settings : t.settings = s.settings) (published : t.published = s.published) : Works r t
  | publish {s : Session} (h : Works r s) (uri : String) : Works r (s.publish uri)

namespace Works

theorem note (h : Works r s) (n : Note) : Works r (s.note n) := h.frame rfl rfl rfl rfl

theorem settle (h : Works r s) : Works r s.settle := by
  have hlater : Works r { s with timers := s.timers.settle.2 } := h.frame rfl rfl rfl rfl
  exact fire_of_publish (fun uri h => h.publish uri) _ hlater

theorem steady (r : Session) : Steady (Works r) :=
  steady_of_publish (fun uri h => h.publish uri) fun h store settings catalog published =>
    h.frame store catalog settings published

end Works

/-! ## One event -/

/-- An event brings a text for a URI. -/
inductive Event.Brings (uri : String) (version : Int) (text : String) : Event → Prop where
  | opened : Brings uri version text (.opened uri version text)
  | changed {texts : List String} (last : texts.getLast? = some text) :
    Brings uri version text (.changed uri version texts)

/-- What an event makes of a session before the session goes on working. -/
inductive Becomes (s : Session) (e : Event) : Session → Prop where
  | same : Becomes s e s
  | read {uri : String} {version : Int} {text : String} {d : Document}
    (brings : e.Brings uri version text)
    (isRead : IsRead s.settings uri version text d) :
    Becomes s e { s with store := s.store.insert d }
  | closed {uri : String} (event : e = .closed uri) :
    Becomes s e { s with store := s.store.erase uri, published := s.published ++ [⟨uri, none, []⟩] }
  | lost (event : e = .shutdown) : Becomes s e { s with store := .empty }

theorem openDocument_cases (s : Session) {uri : String} {version : Int} (text : String)
    (hversion : isVersion version = true) :
    ∃ r, Becomes s (.opened uri version text) r ∧ Works r (s.openDocument uri version text).2 := by
  cases hd : Document.create s.settings.limits uri version text s.settings.sequenceType with
  | error x =>
    rw [openDocument_of_error hd]
    exact ⟨s, .same, .refl⟩
  | ok d =>
    obtain ⟨n, hopen⟩ := openDocument_of_ok hd
    rw [hopen]
    exact ⟨_, .read .opened ⟨hversion, hd⟩, (Works.refl.note n).publish uri⟩

theorem changeDocument_cases (s : Session) {uri : String} {version : Int} (texts : List String)
    (hversion : isVersion version = true) :
    ∃ r, Becomes s (.changed uri version texts) r ∧
      Works r (s.changeDocument uri version texts).2 := by
  by_cases hopen : s.store.contains uri = true
  · cases hlast : texts.getLast? with
    | none =>
      rw [changeDocument, hlast]
      exact ⟨s, .same, .refl⟩
    | some text =>
      cases hd : Document.create s.settings.limits uri version text s.settings.sequenceType with
      | error x =>
        rw [changeDocument_of_error hlast hopen hd]
        exact ⟨s, .same, .refl⟩
      | ok d =>
        obtain ⟨n, hchange⟩ := changeDocument_of_ok hlast hopen hd
        rw [hchange]
        exact ⟨_, .read (.changed hlast) ⟨hversion, hd⟩, Works.refl.frame rfl rfl rfl rfl⟩
  · rw [Bool.not_eq_true] at hopen
    obtain ⟨journal, hchange⟩ := changeDocument_of_closed s uri version texts hopen
    rw [hchange]
    exact ⟨s, .same, Works.refl.frame rfl rfl rfl rfl⟩

theorem handle_cases (s : Session) (e : Event) : ∃ r, Becomes s e r ∧ Works r (s.handle e).2 := by
  have hsame : ∀ {t : Session}, Works s t → ∃ r, Becomes s e r ∧ Works r t := fun h => ⟨s, .same, h⟩
  have hself : Works s s := .refl
  cases e with
  | opened uri version text =>
    rw [handle]
    split
    · next hversion => exact openDocument_cases s text hversion
    · exact hsame hself
  | changed uri version texts =>
    rw [handle]
    split
    · next hversion => exact changeDocument_cases s texts hversion
    · exact hsame hself
  | closed uri => exact ⟨_, .closed rfl, Works.refl.frame rfl rfl rfl rfl⟩
  | shutdown => exact ⟨_, .lost rfl, Works.refl.frame rfl rfl rfl rfl⟩
  | configured => exact hsame (publishes_of_publish (fun uri h => h.publish uri) _ hself)
  | _ => exact hsame ((Works.steady s).handle hself trivial)

theorem step_cases (s : Session) (e : Event) : ∃ r, Becomes s e r ∧ Works r (s.step e).2 := by
  obtain ⟨r, hbecomes, hworks⟩ := handle_cases s e
  exact ⟨r, hbecomes, hworks.settle⟩

/-! ## Documents of a session -/

/-- A session with given settings and the standard catalog.  Of the documents it has, and of those it
has told the editor about, something is known. -/
structure Vetted (P : Document → Prop) (settings : Settings) (s : Session) : Prop where
  settings_eq : s.settings = settings
  catalog_eq : s.catalog = Catalog.standard settings.sequenceType
  stored : ∀ uri d, s.store.get? uri = some d → P d
  told : ∀ p ∈ s.published, p.diagnostics = [] ∨
    ∃ d, P d ∧ p.diagnostics = d.diagnostics (Catalog.standard settings.sequenceType) settings

variable {P : Document → Prop} {settings : Settings}

theorem start_vetted (P : Document → Prop) (settings : Settings) :
    Vetted P settings (start settings) where
  settings_eq := rfl
  catalog_eq := rfl
  stored := nofun
  told := nofun

theorem Vetted.publish (h : Vetted P settings s) (uri : String) :
    Vetted P settings (s.publish uri) := by
  unfold Session.publish
  split
  · exact h
  · next d hd =>
    refine ⟨h.settings_eq, h.catalog_eq, h.stored, ?_⟩
    intro p hp
    rcases List.mem_append.mp hp with hp | hp
    · exact h.told p hp
    · obtain rfl := List.mem_singleton.mp hp
      refine Or.inr ⟨d, h.stored uri d hd, ?_⟩
      show s.diagnosticsOf d = _
      rw [diagnosticsOf, h.catalog_eq, h.settings_eq]

theorem Works.vetted (h : Works r s) (hr : Vetted P settings r) : Vetted P settings s := by
  induction h with
  | refl => exact hr
  | publish h uri ih => exact ih.publish uri
  | frame h store catalog settings published ih =>
    constructor
    · rw [settings, ih.settings_eq]
    · rw [catalog, ih.catalog_eq]
    · rw [store]
      exact ih.stored
    · rw [published]
      exact ih.told

theorem Becomes.vetted (h : Becomes s e r) (hs : Vetted P settings s)
    (hsent : ∀ uri version text d, e.Brings uri version text →
      IsRead settings uri version text d → P d) : Vetted P settings r := by
  cases h with
  | same => exact hs
  | read brings isRead =>
    rw [hs.settings_eq] at isRead
    refine ⟨hs.settings_eq, hs.catalog_eq, ?_, hs.told⟩
    intro uri d hd
    rw [Store.get?_insert] at hd
    split at hd
    · obtain rfl := Option.some.inj hd
      exact hsent _ _ _ _ brings isRead
    · exact hs.stored uri d hd
  | closed event =>
    refine ⟨hs.settings_eq, hs.catalog_eq, ?_, ?_⟩
    · intro uri d hd
      rw [Store.get?_erase] at hd
      split at hd
      · cases hd
      · exact hs.stored uri d hd
    · intro p hp
      rcases List.mem_append.mp hp with hp | hp
      · exact hs.told p hp
      · obtain rfl := List.mem_singleton.mp hp
        exact Or.inl rfl
  | lost event => exact ⟨hs.settings_eq, hs.catalog_eq, nofun, hs.told⟩

theorem step_vetted (h : Vetted P settings s)
    (hsent : ∀ uri version text d, e.Brings uri version text →
      IsRead settings uri version text d → P d) : Vetted P settings (s.step e).2 := by
  obtain ⟨r, hbecomes, hworks⟩ := step_cases s e
  exact hworks.vetted (hbecomes.vetted h hsent)

theorem run_vetted (h : Vetted P settings s)
    (hsent : ∀ e ∈ events, ∀ uri version text d, e.Brings uri version text →
      IsRead settings uri version text d → P d) : Vetted P settings (s.run events) := by
  induction events generalizing s with
  | nil => exact h
  | cons e events ih =>
    refine ih (step_vetted h (hsent e List.mem_cons_self)) ?_
    exact fun e' he' => hsent e' (List.mem_cons_of_mem e he')

end Session
end TalkDeck

import TalkDeck.Proofs.Deck.Reading
import TalkDeck.Proofs.Session.Steady

/-
What the editor has been told about each document.

The invariant `Told` ties together the three parts of a session that have to agree: the store, the
timers and the publications.  Between the moment a timer falls due and the moment its document is
published the document is owed, and `Told` carries the list of those; `fire` pays it off one by one.
The third part of the invariant ends with a shutdown, which empties the store and publishes nothing,
so it stands under a proposition that says whether the session is still alive.

The theorem this file exists for is `run_publications_current`.
-/

namespace TalkDeck
namespace Session

/-- What the editor was last told is right, but for the documents of `owed`. -/
structure Told (s : Session) (owed : List String) (alive : Prop) : Prop where
  pending_open : ∀ uri, s.timers.isPending uri = true → s.store.contains uri = true
  open_current : ∀ uri d, s.store.get? uri = some d →
    s.timers.isPending uri = true ∨ uri ∈ owed ∨
      s.lastPublished? uri = some ⟨uri, some d.version, s.diagnosticsOf d⟩
  closed_clear : alive → ∀ uri p, s.store.get? uri = none → s.lastPublished? uri = some p →
    p.diagnostics = []

variable {s t : Session} {owed : List String} {alive : Prop}

theorem start_told (settings : Settings) : Told (start settings) [] True where
  pending_open := fun _ h => by simp [start, Debounce.isPending] at h
  open_current := fun _ _ h => by simp [start, Store.empty, Store.get?] at h
  closed_clear := fun _ _ _ _ h => by simp [start, lastPublished?] at h

/-- The journal, the index and the list of requests play no part. -/
theorem Told.frame (h : Told s owed alive) (hstore : t.store = s.store)
    (htimers : t.timers = s.timers) (hpublished : t.published = s.published)
    (hcatalog : t.catalog = s.catalog) (hsettings : t.settings = s.settings) :
    Told t owed alive := by
  have hlast : ∀ uri, t.lastPublished? uri = s.lastPublished? uri := by
    intro uri
    rw [lastPublished?, hpublished, lastPublished?]
  have hdiag : ∀ d, t.diagnosticsOf d = s.diagnosticsOf d := by
    intro d
    rw [diagnosticsOf, hcatalog, hsettings, diagnosticsOf]
  refine ⟨?_, ?_, ?_⟩
  · rw [hstore, htimers]
    exact h.pending_open
  · intro uri d hd
    rw [hstore] at hd
    rw [htimers, hlast, hdiag]
    exact h.open_current uri d hd
  · intro ha uri p hnone hp
    rw [hstore] at hnone
    rw [hlast] at hp
    exact h.closed_clear ha uri p hnone hp

theorem Told.note (h : Told s owed alive) (n : Note) : Told (s.note n) owed alive :=
  h.frame rfl rfl rfl rfl rfl

theorem Told.weaken (h : Told s owed alive) {more : List String} {dead : Prop}
    (hsub : ∀ uri ∈ owed, uri ∈ more) (hdead : dead → alive) : Told s more dead where
  pending_open := h.pending_open
  open_current := by
    intro uri d hd
    rcases h.open_current uri d hd with hp | ho | hl
    · exact Or.inl hp
    · exact Or.inr (Or.inl (hsub uri ho))
    · exact Or.inr (Or.inr hl)
  closed_clear := fun hd => h.closed_clear (hdead hd)

/-! ## Publications -/

/-- The latest publication is the one that counts for its document. -/
theorem lastPublished?_append {p : Publication} (hp : t.published = s.published ++ [p])
    (uri : String) :
    t.lastPublished? uri = if p.uri = uri then some p else s.lastPublished? uri := by
  rw [lastPublished?, hp, List.reverse_append, List.reverse_singleton, List.singleton_append]
  by_cases h : p.uri = uri
  · rw [if_pos h, List.find?_cons_of_pos (by simp [h])]
  · rw [if_neg h, List.find?_cons_of_neg (by simp [h]), lastPublished?]

/-- Publishing pays off what is owed for a document. -/
theorem publish_told {uri : String} (h : Told s (uri :: owed) alive) :
    Told (s.publish uri) owed alive := by
  unfold publish
  split
  · next hnone =>
    -- Nothing is published for a document that is not open, and nothing is owed for it.
    refine ⟨h.pending_open, ?_, h.closed_clear⟩
    intro other d hd
    rcases h.open_current other d hd with hp | ho | hl
    · exact Or.inl hp
    · rcases List.mem_cons.mp ho with rfl | ho
      · rw [hnone] at hd
        cases hd
      · exact Or.inr (Or.inl ho)
    · exact Or.inr (Or.inr hl)
  · next d hd =>
    refine ⟨h.pending_open, ?_, ?_⟩
    · intro other e he
      rw [lastPublished?_append rfl]
      by_cases hu : uri = other
      · subst hu
        have hde : d = e := Option.some.inj (hd.symm.trans he)
        subst hde
        exact Or.inr (Or.inr (if_pos rfl))
      · rcases h.open_current other e he with hp | ho | hl
        · exact Or.inl hp
        · rcases List.mem_cons.mp ho with rfl | ho
          · exact absurd rfl hu
          · exact Or.inr (Or.inl ho)
        · exact Or.inr (Or.inr (by rw [if_neg hu]; exact hl))
    · intro ha other p hnone hp
      have hu : uri ≠ other := by
        intro hu
        subst hu
        rw [show s.store.get? uri = none from hnone] at hd
        cases hd
      rw [lastPublished?_append rfl, if_neg hu] at hp
      exact h.closed_clear ha other p hnone hp

theorem publishes_told (uris : List String) (h : Told s (uris ++ owed) alive) :
    Told (uris.foldl publish s) owed alive := by
  induction uris generalizing s with
  | nil => exact h
  | cons uri uris ih => exact ih (publish_told h)

theorem publishAll_told (h : Told s [] alive) : Told s.publishAll [] alive :=
  publishes_told s.store.uris (h.weaken (fun _ hu => nomatch hu) id)

/-! ## Timers -/

theorem fire_told (due : List (Timer Unit)) (h : Told s (due.map (·.key)) alive) :
    Told (s.fire due) [] alive := by
  have hfold : s.fire due = (due.map (·.key)).foldl publish s := by
    rw [fire, List.foldl_map]
  rw [hfold]
  exact publishes_told (due.map (·.key)) (by rw [List.append_nil]; exact h)

/-- A timer that falls due leaves its document owed, and firing publishes it. -/
theorem settle_told (h : Told s [] alive) : Told s.settle [] alive := by
  refine fire_told s.timers.settle.1 ⟨?_, ?_, h.closed_clear⟩
  · intro uri hp
    exact h.pending_open uri (Debounce.isPending_of_settle hp)
  · intro uri d hd
    rcases h.open_current uri d hd with hp | ho | hl
    · rcases Debounce.isPending_settle hp with hdue | hwait
      · exact Or.inr (Or.inl hdue)
      · exact Or.inl hwait
    · cases ho
    · exact Or.inr (Or.inr hl)

/-- Which timers wait does not hang on the time. -/
theorem wait_told (h : Told s [] alive) (n : Nat) : Told (s.wait n) [] alive := by
  let loop : Loop Unit := { s.timers.loop with now := s.timers.loop.now + n }
  let later : Session := { s with timers := { s.timers with loop } }
  have hlater : Told later [] alive := ⟨h.pending_open, h.open_current, h.closed_clear⟩
  exact settle_told hlater

/-! ## Documents -/

/-- A document that has just been read is owed. -/
theorem insert_told (h : Told s [] alive) (d : Document) :
    Told { s with store := s.store.insert d } [d.uri] alive := by
  refine ⟨?_, ?_, ?_⟩
  · intro uri hp
    have hold := h.pending_open uri hp
    rw [Store.contains, Store.get?_insert]
    split
    · rfl
    · exact hold
  · intro uri e he
    by_cases hu : d.uri = uri
    · exact Or.inr (Or.inl (by rw [hu]; exact List.mem_singleton_self uri))
    · rw [Store.get?_insert, if_neg hu] at he
      rcases h.open_current uri e he with hp | ho | hl
      · exact Or.inl hp
      · cases ho
      · exact Or.inr (Or.inr hl)
  · intro ha uri p hnone hp
    rw [Store.get?_insert] at hnone
    split at hnone
    · cases hnone
    · exact h.closed_clear ha uri p hnone hp

/-- A timer for an open document stands for what is owed. -/
theorem schedule_told {uri : String} (h : Told s [uri] alive)
    (hopen : s.store.contains uri = true) : Told (s.schedule uri) [] alive := by
  refine ⟨?_, ?_, h.closed_clear⟩
  · intro other hp
    rcases (s.timers.isPending_schedule uri other ()).mp hp with rfl | hp
    · exact hopen
    · exact h.pending_open other hp
  · intro other d hd
    rcases h.open_current other d hd with hp | ho | hl
    · exact Or.inl ((s.timers.isPending_schedule uri other ()).mpr (Or.inr hp))
    · have hu : uri = other := (List.mem_singleton.mp ho).symm
      exact Or.inl ((s.timers.isPending_schedule uri other ()).mpr (Or.inl hu))
    · exact Or.inr (Or.inr hl)

theorem openDocument_told (h : Told s [] alive) (uri : String) (version : Int) (text : String) :
    Told (s.openDocument uri version text).2 [] alive := by
  unfold openDocument Store.load
  cases hd : Document.create s.settings.limits uri version text s.settings.sequenceType with
  | error e => exact h
  | ok d =>
    have huri : d.uri = uri := (Document.create_eq_ok_iff.mp hd).1
    have hread := insert_told h d
    rw [huri] at hread
    exact publish_told (hread.note _)

theorem changeDocument_told (h : Told s [] alive) (uri : String) (version : Int)
    (texts : List String) : Told (s.changeDocument uri version texts).2 [] alive := by
  unfold changeDocument
  cases texts.getLast? with
  | none => exact h
  | some text =>
    simp only [Store.change]
    by_cases hopen : s.store.contains uri = true
    · rw [if_pos hopen]
      cases hd : Document.create s.settings.limits uri version text s.settings.sequenceType with
      | error e => exact h
      | ok d =>
        have huri : d.uri = uri := (Document.create_eq_ok_iff.mp hd).1
        have hread := insert_told h d
        rw [huri] at hread
        refine schedule_told (hread.note _) ?_
        show ((s.store.insert d).get? uri).isSome = true
        rw [Store.get?_insert, if_pos huri]
        rfl
    · rw [if_neg hopen]
      exact h.note _

theorem closeDocument_told (h : Told s [] alive) (uri : String) :
    Told (s.closeDocument uri) [] alive := by
  have hget : ∀ other, (s.closeDocument uri).store.get? other =
      if uri = other then none else s.store.get? other := s.store.get?_erase uri
  have hlast : ∀ other, (s.closeDocument uri).lastPublished? other =
      if uri = other then some ⟨uri, none, []⟩ else s.lastPublished? other :=
    lastPublished?_append (s := s) (t := s.closeDocument uri) rfl
  refine ⟨?_, ?_, ?_⟩
  · intro other hp
    obtain ⟨hu, hp⟩ := (s.timers.isPending_cancel uri other).mp hp
    have hold := h.pending_open other hp
    rw [Store.contains, hget, if_neg hu]
    exact hold
  · intro other d hd
    rw [hget] at hd
    split at hd
    · cases hd
    · next hu =>
      rcases h.open_current other d hd with hp | ho | hl
      · exact Or.inl ((s.timers.isPending_cancel uri other).mpr ⟨hu, hp⟩)
      · cases ho
      · exact Or.inr (Or.inr (by rw [hlast, if_neg hu]; exact hl))
  · intro ha other p hnone hp
    rw [hget] at hnone
    rw [hlast] at hp
    split at hp
    · cases hp
      rfl
    · next hu =>
      rw [if_neg hu] at hnone
      exact h.closed_clear ha other p hnone hp

/-- A shutdown empties the store and leaves every publication standing. -/
theorem dispose_told (s : Session) : Told s.dispose [] False where
  pending_open := fun _ hp => by
    simp [dispose, Debounce.dispose, Debounce.cancelAll, Debounce.isPending] at hp
  open_current := fun _ _ hd => by simp [dispose, Store.empty, Store.get?] at hd
  closed_clear := False.elim

/-! ## Events -/

theorem steady_told (alive : Prop) : Steady fun s => Told s [] alive where
  frame h store settings catalog timers published := h.frame store timers published catalog settings
  wait h n := wait_told h n

theorem handle_told (h : Told s [] alive) (e : Event) :
    Told (s.handle e).2 [] (alive ∧ e ≠ .shutdown) := by
  have hkeep : ∀ {t : Session}, Told t [] alive → Told t [] (alive ∧ e ≠ .shutdown) :=
    fun ht => ht.weaken (fun _ hu => hu) And.left
  -- Only a shutdown ends the third part; every other event keeps all three.
  cases e with
  | shutdown => exact (dispose_told s).weaken (fun _ hu => hu) fun ha => ha.2 rfl
  | opened uri version text =>
    rw [handle]
    split
    · exact hkeep (openDocument_told h uri version text)
    · exact hkeep h
  | changed uri version texts =>
    rw [handle]
    split
    · exact hkeep (changeDocument_told h uri version texts)
    · exact hkeep h
  | closed uri => exact hkeep (closeDocument_told h uri)
  | configured => exact hkeep (publishAll_told h)
  | _ => exact hkeep ((steady_told alive).handle h trivial)

theorem step_told (h : Told s [] alive) (e : Event) :
    Told (s.step e).2 [] (alive ∧ e ≠ .shutdown) :=
  settle_told (handle_told h e)

theorem run_told (h : Told s [] alive) (events : List Event) :
    Told (s.run events) [] (alive ∧ ∀ e ∈ events, e ≠ .shutdown) := by
  induction events generalizing s alive with
  | nil => exact h.weaken (fun _ hu => hu) And.left
  | cons e events ih =>
    -- The proposition that the session is alive grows with each event, so it is generalized.
    refine (ih (step_told h e)).weaken (fun _ hu => hu) ?_
    rintro ⟨ha, hall⟩
    exact ⟨⟨ha, hall e List.mem_cons_self⟩, fun e' he' => hall e' (List.mem_cons_of_mem e he')⟩

/-- Publications are never silently stale.  After any events, a timer waits for open documents only;
what was last published for an open document is its version and its diagnostics, unless a timer
waits for it; and, without a shutdown, what was last published for any other document is empty. -/
theorem run_publications_current (settings : Settings) (events : List Event) :
    let s := (start settings).run events
    (∀ uri, s.timers.isPending uri = true → s.store.contains uri = true) ∧
    (∀ uri d, s.store.get? uri = some d →
      s.timers.isPending uri = true ∨
        s.lastPublished? uri = some ⟨uri, some d.version, d.diagnostics s.catalog s.settings⟩) ∧
    ((∀ e ∈ events, e ≠ .shutdown) → ∀ uri p, s.store.get? uri = none →
      s.lastPublished? uri = some p → p.diagnostics = []) := by
  have h := run_told (start_told settings) events
  refine ⟨h.pending_open, ?_, fun hlive => h.closed_clear ⟨trivial, hlive⟩⟩
  intro uri d hd
  rcases h.open_current uri d hd with hp | ho | hl
  · exact Or.inl hp
  · cases ho
  · exact Or.inr hl

end Session
end TalkDeck

import TalkDeck.Session.Step

/-
What lasts while a session is busy with other things than its documents.

The work on the workspace, the answers to requests and the passing of time change the index, the journal
and the list of requests, and publish what falls due.  A property that the first three play no part in,
and that lasts while time passes (`Steady`), outlasts every event that leaves the documents alone
(`Steady.handle`).  A property that a publication preserves, and that the timers play no part in either,
lasts while time passes (`steady_of_publish`).
-/

namespace TalkDeck
namespace Session

variable {P : Session → Prop} {s : Session}

/-- A property in which the index, the journal and the list of requests play no part, and that lasts
while time passes. -/
structure Steady (P : Session → Prop) : Prop where
  frame {s t : Session} (h : P s) (store : t.store = s.store) (settings : t.settings = s.settings)
    (catalog : t.catalog = s.catalog) (timers : t.timers = s.timers)
    (published : t.published = s.published) : P t
  wait {s : Session} (h : P s) (n : Nat) : P (s.wait n)

/-! ## Publications -/

section Publish

variable (hpublish : ∀ {s : Session} (uri : String), P s → P (s.publish uri))
include hpublish

theorem publishes_of_publish (uris : List String) (h : P s) : P (uris.foldl publish s) := by
  induction uris generalizing s with
  | nil => exact h
  | cons uri uris ih => exact ih (hpublish uri h)

theorem fire_of_publish (due : List (Timer Unit)) (h : P s) : P (s.fire due) := by
  have hkeys := publishes_of_publish hpublish (due.map (·.key)) h
  rw [List.foldl_map] at hkeys
  exact hkeys

end Publish

theorem steady_of_publish (hpublish : ∀ {s : Session} (uri : String), P s → P (s.publish uri))
    (hframe : ∀ {s t : Session}, P s → t.store = s.store → t.settings = s.settings →
      t.catalog = s.catalog → t.published = s.published → P t) : Steady P where
  frame h store settings catalog _ published := hframe h store settings catalog published
  wait h _ := fire_of_publish hpublish _ (hframe h rfl rfl rfl rfl)

/-! ## Events -/

theorem ofListing_snd (r : Except Workspace.ListingFault Unit × Session) :
    (ofListing r).2 = r.2 := by
  obtain ⟨outcome, after⟩ := r
  cases outcome <;> rfl

/-- An event that changes no document and asks for no publication. -/
def Event.SparesDocuments : Event → Prop
  | .opened .. | .changed .. | .closed _ | .shutdown | .configured => False
  | _ => True

namespace Steady

variable (hP : Steady P)
include hP

theorem note (h : P s) (n : Note) : P (s.note n) := hP.frame h rfl rfl rfl rfl rfl

theorem noteAll (h : P s) (ns : Journal) : P (s.noteAll ns) := hP.frame h rfl rfl rfl rfl rfl

theorem request (h : P s) (method : String) (answer : Answer) : P (s.request method answer).2 := by
  unfold Session.request
  split
  · exact hP.note h _
  · have hasked : P { s with requested := s.requested ++ [method] } :=
      hP.frame h rfl rfl rfl rfl rfl
    cases answer with
    | value p => exact hasked
    | refused message => exact hP.note hasked _
    | silent => exact hP.note (hP.wait hasked _) _

theorem refreshLaunch (h : P s) (launch : Answer) : P (s.refreshLaunch launch).2 := by
  unfold Session.refreshLaunch
  cases s.index with
  | none => exact h
  | some i =>
    have hasked := hP.request h launchRequest launch
    dsimp only
    split
    · exact hP.noteAll hasked _
    · exact hP.frame hasked rfl rfl rfl rfl rfl

theorem refresh (h : P s) (files launch : Answer) : P (s.refresh files launch).2 := by
  unfold Session.refresh
  cases s.index with
  | none => exact h
  | some i =>
    have hasked := hP.request h filesRequest files
    dsimp only
    split
    · exact hP.noteAll hasked _
    · next i' notes _ =>
      have hloaded : P { (s.request filesRequest files).2.noteAll notes with index := some i' } :=
        hP.frame hasked rfl rfl rfl rfl rfl
      have hlaunch := hP.refreshLaunch hloaded launch
      split
      · next heq =>
        rw [heq] at hlaunch
        exact hlaunch
      · next heq =>
        rw [heq] at hlaunch
        exact hP.note hlaunch _

theorem watch (h : P s) (events : List FileEvent) (launch : Answer) :
    P (s.watch events launch).2 := by
  unfold Session.watch
  cases s.index with
  | none => exact h
  | some i =>
    have hseen : P { s with index := some (events.foldl indexAfter i) } :=
      hP.frame h rfl rfl rfl rfl rfl
    dsimp only
    split
    · exact hP.refreshLaunch hseen launch
    · exact hseen

theorem takeRoot (h : P s) (folders : List String) (root : Option String) :
    P (s.takeRoot folders root) := by
  unfold Session.takeRoot
  refine hP.note ?_ _
  split
  · exact hP.frame h rfl rfl rfl rfl rfl
  · exact h

/-- What is steady outlasts an event that leaves the documents alone. -/
theorem handle (h : P s) {e : Event} (he : e.SparesDocuments) : P (s.handle e).2 := by
  cases e with
  | begun folders root => exact hP.takeRoot h folders root
  | ready files launch =>
    rw [Session.handle, ofListing_snd]
    exact hP.refresh h files launch
  | watched events launch =>
    rw [Session.handle, ofListing_snd]
    exact hP.watch h events launch
  | definition uri p =>
    rw [Session.handle]
    split
    · exact h
    · exact h
    · exact h
  | codeActions uri =>
    rw [Session.handle]
    split
    · exact hP.noteAll h _
    · exact hP.noteAll h _
  | elapsed n => exact hP.wait h n
  | completion | hover | symbols | folds => exact h
  | opened | changed | closed | shutdown | configured => exact he.elim

end Steady
end Session
end TalkDeck

import Mathlib.Data.List.Nodup
import TalkDeck.Proofs.Workspace.Listing

/-
What file events make of a workspace index.

One event touches the entries of its own URI and no other: a file that is created below the root is
added at the end unless it is there already, and a file that is deleted is gone.  Each fact about a list
of events is proved for one event first and then by induction on the list from its end, since it is the
last event of a URI that decides whether the URI is listed (`lists_foldl`).  The theorem this file
exists for is `step_watched`.
-/

namespace TalkDeck

open Workspace

namespace Workspace
namespace Index

variable {i : Index} {u : String}

/-- Whether some entry of the index has the URI. -/
def Lists (i : Index) (u : String) : Prop := ∃ f ∈ i.files, f.uri = u

/-- How many entries of the index have the URI. -/
def count (i : Index) (u : String) : Nat := (i.files.map (·.uri)).count u

theorem relative?_eq_some {path : String} : i.relative? u = some path ↔ i.root ++ path = u := by
  rw [relative?, Option.map_eq_some_iff]
  constructor
  · rintro ⟨rest, hrest, rfl⟩
    rw [← String.toList_inj, String.toList_append, String.toList_ofList]
    exact (Text.strip?_eq_some_iff.mp hrest).symm
  · rintro rfl
    refine ⟨path.toList, Text.strip?_eq_some_iff.mpr (String.toList_append ..), ?_⟩
    exact String.ofList_toList

theorem isPrefix_root_iff : i.root.toList <+: u.toList ↔ ∃ path, i.root ++ path = u := by
  constructor
  · rintro ⟨rest, hrest⟩
    refine ⟨String.ofList rest, ?_⟩
    rw [← String.toList_inj, String.toList_append, String.toList_ofList, hrest]
  · rintro ⟨path, rfl⟩
    rw [String.toList_append]
    exact List.prefix_append _ _

theorem any_iff : i.files.any (·.uri == u) = true ↔ i.Lists u := by
  simp [Lists]

theorem count_pos_iff : 0 < i.count u ↔ i.Lists u := by
  simp [count, Lists]

end Index
end Workspace

namespace Session

variable {s : Session} {i j : Index} {e : FileEvent} {events : List FileEvent} {u : String}

/-- Whether an event creates or deletes the file of a URI. -/
def FileEvent.concerns (u : String) : FileEvent → Bool
  | .created v => v == u
  | .changed _ => false
  | .deleted v => v == u

/-! ## One event -/

/-- All that an event can do to an index. -/
theorem indexAfter_cases (i : Index) (e : FileEvent) :
    (∃ path v, e = .created v ∧ i.root ++ path = v ∧ ¬i.Lists v ∧
      indexAfter i e = { i with files := i.files ++ [⟨path, v⟩] }) ∨
    (∃ v, e = .created v ∧ (i.root.toList <+: v.toList → i.Lists v) ∧ indexAfter i e = i) ∨
    (∃ v, e = .changed v ∧ indexAfter i e = i) ∨
    (∃ v, e = .deleted v ∧ indexAfter i e = { i with files := i.files.filter (·.uri != v) }) := by
  cases e with
  | created v =>
    rw [indexAfter]
    cases hpath : i.relative? v with
    | none =>
      refine Or.inr (Or.inl ⟨v, rfl, fun hroot => ?_, rfl⟩)
      obtain ⟨path, hv⟩ := Index.isPrefix_root_iff.mp hroot
      rw [Index.relative?_eq_some.mpr hv] at hpath
      cases hpath
    | some path =>
      by_cases hany : i.files.any (·.uri == v) = true
      · exact Or.inr (Or.inl ⟨v, rfl, fun _ => Index.any_iff.mp hany, if_pos hany⟩)
      · exact Or.inl ⟨path, v, rfl, Index.relative?_eq_some.mp hpath,
          fun hlists => hany (Index.any_iff.mpr hlists), if_neg hany⟩
  | changed v => exact Or.inr (Or.inr (Or.inl ⟨v, rfl, rfl⟩))
  | deleted v => exact Or.inr (Or.inr (Or.inr ⟨v, rfl, rfl⟩))

theorem root_indexAfter (i : Index) (e : FileEvent) : (indexAfter i e).root = i.root := by
  obtain ⟨path, v, -, -, -, h⟩ | ⟨v, -, -, h⟩ | ⟨v, -, h⟩ | ⟨v, -, h⟩ := indexAfter_cases i e
  all_goals rw [h]

theorem lists_indexAfter : (indexAfter i e).Lists u ↔
    e = .created u ∧ (i.root.toList <+: u.toList ∨ i.Lists u) ∨ e.concerns u = false ∧ i.Lists u := by
  obtain ⟨path, v, rfl, hv, -, h⟩ | ⟨v, rfl, hold, h⟩ | ⟨v, rfl, h⟩ | ⟨v, rfl, h⟩ :=
    indexAfter_cases i e
  · have hadded : (indexAfter i (.created v)).Lists u ↔ i.Lists u ∨ v = u := by
      rw [h]
      simp [Index.Lists, or_and_right, exists_or]
    rw [hadded]
    by_cases heq : v = u
    · have hbelow : i.root.toList <+: u.toList := Index.isPrefix_root_iff.mpr ⟨path, heq ▸ hv⟩
      simp [heq, hbelow]
    · simp [FileEvent.concerns, heq]
  · rw [h]
    by_cases heq : v = u
    · subst heq
      simpa [FileEvent.concerns] using hold
    · simp [FileEvent.concerns, heq]
  · rw [h]
    simp [FileEvent.concerns]
  · have hleft : (indexAfter i (.deleted v)).Lists u ↔ i.Lists u ∧ v ≠ u := by
      rw [h]
      constructor
      · rintro ⟨f, hf, rfl⟩
        obtain ⟨hf, hne⟩ := List.mem_filter.mp hf
        exact ⟨⟨f, hf, rfl⟩, Ne.symm (bne_iff_ne.mp hne)⟩
      · rintro ⟨⟨f, hf, rfl⟩, hne⟩
        exact ⟨f, List.mem_filter.mpr ⟨hf, bne_iff_ne.mpr (Ne.symm hne)⟩, rfl⟩
    rw [hleft]
    simp [FileEvent.concerns, and_comm]

theorem count_indexAfter_le (i : Index) (e : FileEvent) (u : String) :
    (indexAfter i e).count u ≤ max 1 (i.count u) := by
  obtain ⟨path, v, -, -, hnew, h⟩ | ⟨v, -, -, h⟩ | ⟨v, -, h⟩ | ⟨v, -, h⟩ := indexAfter_cases i e
  · have hadded : (indexAfter i e).count u = i.count u + if v = u then 1 else 0 := by
      rw [h]
      simp [Index.count, List.count_singleton]
    have hnone : v = u → i.count u = 0 := by
      rintro rfl
      exact Nat.eq_zero_of_not_pos fun hpos => hnew (Index.count_pos_iff.mp hpos)
    rw [hadded]
    split
    · next heq =>
      have hzero := hnone heq
      omega
    · omega
  · rw [h]
    exact Nat.le_max_right _ _
  · rw [h]
    exact Nat.le_max_right _ _
  · rw [h]
    exact Nat.le_trans ((List.filter_sublist.map _).count_le u) (Nat.le_max_right _ _)

/-! ## A list of events -/

theorem root_foldl (events : List FileEvent) (i : Index) :
    (events.foldl indexAfter i).root = i.root := by
  induction events generalizing i with
  | nil => rfl
  | cons e events ih => exact (ih _).trans (root_indexAfter i e)

theorem count_foldl_le (events : List FileEvent) (i : Index) (u : String) :
    (events.foldl indexAfter i).count u ≤ max 1 (i.count u) := by
  induction events generalizing i with
  | nil => exact Nat.le_max_right _ _
  | cons e events ih =>
    have hfirst := count_indexAfter_le i e u
    have hrest := ih (indexAfter i e)
    rw [List.foldl_cons]
    omega

/-- The last event of a URI decides whether it is listed. -/
theorem lists_foldl (events : List FileEvent) (i : Index) (u : String) :
    (events.foldl indexAfter i).Lists u ↔
      (∃ before after, events = before ++ .created u :: after ∧
        (∀ e ∈ after, e.concerns u = false) ∧
        (i.root.toList <+: u.toList ∨ (before.foldl indexAfter i).Lists u)) ∨
      (∀ e ∈ events, e.concerns u = false) ∧ i.Lists u := by
  induction events using List.reverseRecOn with
  | nil => simp
  | append_singleton events e ih =>
    have hall : ∀ es : List FileEvent, (∀ x ∈ es ++ [e], x.concerns u = false) ↔
        (∀ x ∈ es, x.concerns u = false) ∧ e.concerns u = false := by
      intro es
      rw [List.forall_mem_append, List.forall_mem_singleton]
    rw [List.foldl_append, List.foldl_cons, List.foldl_nil, lists_indexAfter, root_foldl, hall]
    constructor
    · rintro (⟨rfl, hlisted⟩ | ⟨hother, hlists⟩)
      · exact Or.inl ⟨events, [], rfl, nofun, hlisted⟩
      · rcases ih.mp hlists with ⟨before, after, rfl, hafter, hlisted⟩ | ⟨hevents, hlists⟩
        · refine Or.inl ⟨before, after ++ [e], ?_, (hall after).mpr ⟨hafter, hother⟩, hlisted⟩
          rw [List.append_assoc, List.cons_append]
        · exact Or.inr ⟨⟨hevents, hother⟩, hlists⟩
    · rintro (⟨before, after, hsplit, hafter, hlisted⟩ | ⟨⟨hevents, hother⟩, hlists⟩)
      · rcases concat_eq_append_cons_iff.mp hsplit with ⟨rfl, rfl, -⟩ | ⟨rest, rfl, rfl⟩
        · exact Or.inl ⟨rfl, hlisted⟩
        · obtain ⟨hrest, hother⟩ := (hall rest).mp hafter
          exact Or.inr ⟨hother, ih.mpr (Or.inl ⟨before, rest, rfl, hrest, hlisted⟩)⟩
      · exact Or.inr ⟨hother, ih.mpr (Or.inr ⟨hevents, hlists⟩)⟩

/-- Some entries are left of those before, in their order, and behind them stand new ones. -/
theorem files_foldl (events : List FileEvent) (i : Index) : ∃ added,
    (events.foldl indexAfter i).files =
      i.files.filter (fun f => .deleted f.uri ∉ events) ++ added ∧
    ∀ f ∈ added, i.root ++ f.relativePath = f.uri ∧ .created f.uri ∈ events := by
  induction events using List.reverseRecOn with
  | nil => exact ⟨[], by simp, nofun⟩
  | append_singleton events e ih =>
    obtain ⟨added, hfiles, hadded⟩ := ih
    have hmore : ∀ f ∈ added, i.root ++ f.relativePath = f.uri ∧ .created f.uri ∈ events ++ [e] :=
      fun f hf => ⟨(hadded f hf).1, List.mem_append_left _ (hadded f hf).2⟩
    have hsame : (∀ v, e ≠ .deleted v) → i.files.filter (fun f => .deleted f.uri ∉ events ++ [e]) =
        i.files.filter (fun f => .deleted f.uri ∉ events) := by
      intro hne
      refine List.filter_congr fun f _ => ?_
      simp [Ne.symm (hne f.uri)]
    rw [List.foldl_append, List.foldl_cons, List.foldl_nil]
    obtain ⟨path, v, rfl, hv, -, h⟩ | ⟨v, rfl, -, h⟩ | ⟨v, rfl, h⟩ | ⟨v, rfl, h⟩ :=
      indexAfter_cases (events.foldl indexAfter i) e
    · refine ⟨added ++ [⟨path, v⟩], ?_, ?_⟩
      · rw [h, hsame nofun, ← List.append_assoc, ← hfiles]
      · rw [root_foldl] at hv
        rw [List.forall_mem_append, List.forall_mem_singleton]
        exact ⟨hmore, hv, List.mem_append_right _ List.mem_cons_self⟩
    · rw [h, hsame nofun]
      exact ⟨added, hfiles, hmore⟩
    · rw [h, hsame nofun]
      exact ⟨added, hfiles, hmore⟩
    · refine ⟨added.filter (·.uri != v), ?_, fun f hf => hmore f (List.mem_of_mem_filter hf)⟩
      rw [h]
      show List.filter _ (events.foldl indexAfter i).files = _
      rw [hfiles, List.filter_append, List.filter_filter]
      congr 1
      refine List.filter_congr fun f _ => ?_
      by_cases hf : f.uri = v
      · simp [hf]
      · simp [hf]

/-- The entries whose URIs no event is about stay as they are. -/
theorem filter_files_foldl (events : List FileEvent) (i : Index) :
    (events.foldl indexAfter i).files.filter (fun f => events.all (!·.concerns f.uri)) =
      i.files.filter (fun f => events.all (!·.concerns f.uri)) := by
  obtain ⟨added, hfiles, hadded⟩ := files_foldl events i
  have hnone : added.filter (fun f => events.all (!·.concerns f.uri)) = [] := by
    rw [List.filter_eq_nil_iff]
    intro f hf hall
    have hcreated := List.all_eq_true.mp hall _ (hadded f hf).2
    simp [FileEvent.concerns] at hcreated
  rw [hfiles, List.filter_append, hnone, List.append_nil, List.filter_filter]
  refine List.filter_congr fun f _ => ?_
  by_cases hdeleted : FileEvent.deleted f.uri ∈ events
  · have hnot : events.all (!·.concerns f.uri) = false := by
      rw [List.all_eq_false]
      exact ⟨_, hdeleted, by simp [FileEvent.concerns]⟩
    rw [hnot]
    rfl
  · simp [hdeleted]

/-! ## A session -/

/-- What file events make of an index. -/
structure Watched (events : List FileEvent) (i j : Index) : Prop where
  root : j.root = i.root
  /-- A URI is listed if the last event that concerns it created it, below the root or where it was
  listed already, or if there is no such event and it was listed before. -/
  lists : ∀ u, j.Lists u ↔
    (∃ before after, events = before ++ .created u :: after ∧ (∀ e ∈ after, e.concerns u = false) ∧
      (i.root.toList <+: u.toList ∨ (before.foldl indexAfter i).Lists u)) ∨
    (∀ e ∈ events, e.concerns u = false) ∧ i.Lists u
  /-- No event makes a URI listed more than once where it was not before. -/
  count : ∀ before e after, events = before ++ e :: after → ∀ u,
    ((before ++ [e]).foldl indexAfter i).count u ≤ max 1 ((before.foldl indexAfter i).count u)
  nodup : (i.files.map (·.uri)).Nodup → (j.files.map (·.uri)).Nodup
  /-- The entries whose URIs no event concerns are the same ones in the same order. -/
  others : j.files.filter (fun f => events.all (!·.concerns f.uri)) =
    i.files.filter (fun f => events.all (!·.concerns f.uri))
  /-- An entry is one that no event deleted, or it is new and its path follows the root in its URI. -/
  added : ∃ added, j.files = i.files.filter (fun f => .deleted f.uri ∉ events) ++ added ∧
    ∀ f ∈ added, i.root ++ f.relativePath = f.uri ∧ .created f.uri ∈ events

theorem watched_of_files (hroot : j.root = i.root)
    (hfiles : j.files = (events.foldl indexAfter i).files) : Watched events i j where
  root := hroot
  lists := by
    intro u
    rw [← lists_foldl, Index.Lists, hfiles]
    rfl
  count := by
    intro before e after _ u
    rw [List.foldl_append, List.foldl_cons, List.foldl_nil]
    exact count_indexAfter_le _ e u
  nodup := by
    intro h
    rw [List.nodup_iff_count_le_one] at h ⊢
    intro u
    rw [hfiles]
    exact Nat.le_trans (count_foldl_le events i u) (Nat.max_le.mpr ⟨Nat.le_refl 1, h u⟩)
  others := by
    rw [hfiles]
    exact filter_files_foldl events i
  added := by
    rw [hfiles]
    exact files_foldl events i

/-- Whatever comes of asking for the launch configurations again, the files are those after the
events. -/
theorem index_watch (hi : s.index = some i) (events : List FileEvent) (launch : Answer) :
    ∃ configs, (s.watch events launch).2.index =
      some { events.foldl indexAfter i with launch := configs } := by
  have hseen : ({ s with index := some (events.foldl indexAfter i) } : Session).index =
      some (events.foldl indexAfter i) := rfl
  unfold watch
  simp only [hi]
  split
  · by_cases hloads :
        ({ s with index := some (events.foldl indexAfter i) } : Session).LoadsLaunch launch
    · obtain ⟨configs, -, hlisted, -⟩ := refreshLaunch_of_loads hseen hloads
      exact ⟨configs, hlisted⟩
    · obtain ⟨f, -, -, hkept⟩ := refreshLaunch_of_not_loads hseen hloads
      exact ⟨_, hkept⟩
  · exact ⟨_, rfl⟩

theorem index_step_watched (hi : s.index = some i) (events : List FileEvent) (launch : Answer) :
    ∃ configs, (s.step (.watched events launch)).2.index =
      some { events.foldl indexAfter i with launch := configs } := by
  obtain ⟨configs, hconfigs⟩ := index_watch hi events launch
  refine ⟨configs, (index_step s _).trans ?_⟩
  exact (congrArg index (ofListing_snd _)).trans hconfigs

/-- **File events keep the index in step.** -/
theorem step_watched (hi : s.index = some i) (events : List FileEvent) (launch : Answer) :
    ∃ j, (s.step (.watched events launch)).2.index = some j ∧ Watched events i j := by
  obtain ⟨configs, hconfigs⟩ := index_step_watched hi events launch
  exact ⟨_, hconfigs, watched_of_files (root_foldl events i) rfl⟩

/-- One file more and one less, a file outside the root, and a change to launch configurations. -/
def mixedEvents : List FileEvent :=
  [.created "file:///work/src/new.py", .deleted "file:///work/old.py",
    .created "file:///elsewhere/x.py", .changed "file:///work/.vscode/launch.json"]

theorem step_watched_mixedEvents :
    ∃ j, (listed.step (.watched mixedEvents .silent)).2.index = some j ∧
      Watched mixedEvents listedIndex j :=
  step_watched index_listed mixedEvents .silent

example : (mixedEvents.foldl indexAfter listedIndex).files =
    [⟨"src/new.py", "file:///work/src/new.py"⟩] := by
  decide +kernel

end Session
end TalkDeck

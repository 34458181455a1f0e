import TalkDeck.Command.Lint
import TalkDeck.Proofs.Lint.Glob

/-
What the stages of a run come to.

Only two things about work matter here: how it ends, and the tree it leaves.  `Work.Gives` says both of
any world with a given tree, whatever was noted and said before, with one rule for each way to put work
together.  A `Plan` is what a run finds before it reads a deck; on a plan that fits, each stage is a step
with one outcome, and the whole run is `gives_runAll` if every deck is read, and
`gives_runAll_unreadable` if one is not.
-/

namespace TalkDeck
namespace Lint

namespace Work

/-! ## Work by its result and its tree -/

variable {α β : Type} {x : Work α} {f : α → Work β} {t u v : FileTree} {a : α} {e : Halt}
  {r : Except Halt β}

/-- From any world with the tree `t` work ends in `r` and leaves the tree `u`. -/
def Gives (x : Work α) (t : FileTree) (r : Except Halt α) (u : FileTree) : Prop :=
  ∀ w : World, w.tree = t → ∃ w', x.outcome w = (r, w') ∧ w'.tree = u

theorem outcome_bind (x : Work α) (f : α → Work β) (w : World) :
    (x >>= f).outcome w =
      match x.outcome w with
      | (.ok a, w') => (f a).outcome w'
      | (.error e, w') => (.error e, w') := by
  show (ExceptT.bindCont f (x.outcome w).1).run (x.outcome w).2 = _
  cases x.outcome w with
  | mk r w' => cases r <;> rfl

theorem gives_pure (a : α) (t : FileTree) : Gives (pure a) t (.ok a) t :=
  fun w hw => ⟨w, rfl, hw⟩

theorem Gives.bind (hx : Gives x t (.ok a) u) (hf : Gives (f a) u r v) : Gives (x >>= f) t r v := by
  intro w hw
  obtain ⟨w', hx, hw'⟩ := hx w hw
  rw [outcome_bind, hx]
  exact hf w' hw'

theorem Gives.stop (hx : Gives x t (.error e) u) : Gives (x >>= f) t (.error e) u := by
  intro w hw
  obtain ⟨w', hx, hw'⟩ := hx w hw
  rw [outcome_bind, hx]
  exact ⟨w', rfl, hw'⟩

theorem gives_note (level : Int) (text : String) (t : FileTree) :
    Gives (note level text) t (.ok ()) t :=
  fun _ hw => ⟨_, rfl, hw⟩

theorem gives_refuse (text : String) (t : FileTree) :
    Gives (refuse text : Work α) t (.error (.exit 1)) t :=
  fun _ hw => ⟨_, rfl, hw⟩

theorem gives_throw (e : Halt) (t : FileTree) : Gives (throw e : Work α) t (.error e) t :=
  fun w hw => ⟨w, rfl, hw⟩

theorem gives_tree (t : FileTree) : Gives tree t (.ok t) t := by
  intro w hw
  exact ⟨w, by rw [← hw]; rfl, hw⟩

theorem gives_setTree (t u : FileTree) : Gives (setTree u) t (.ok ()) u :=
  fun _ _ => ⟨_, rfl, rfl⟩

theorem gives_pass (a : α) (t : FileTree) : Gives (pass (.ok a)) t (.ok a) t := gives_pure a t

/-- Work on the tree itself. -/
theorem Gives.on_tree {f : FileTree → Work β} (h : Gives (f t) t r v) : Gives (tree >>= f) t r v :=
  (gives_tree t).bind h

theorem Gives.noted {level : Int} {text : String} {y : Work β} (h : Gives y t r v) :
    Gives (note level text >>= fun _ => y) t r v :=
  (gives_note level text t).bind h

theorem Gives.noted_if {c : Prop} [Decidable c] {level : Int} {text : String} {y : Work β}
    (h : Gives y t r v) : Gives (if c then note level text >>= fun _ => y else y) t r v := by
  split
  · exact h.noted
  · exact h

theorem gives_makeDirectory {p : Path} {keep : Bool} (hnul : p.hasNul = false)
    (h : t.makeDirectory p keep = (u, none)) : Gives (makeDirectory p keep) t (.ok ()) u := by
  unfold makeDirectory
  rw [hnul]
  refine Gives.on_tree ?_
  rw [h]
  exact (gives_setTree t u).bind (gives_pure () u)

end Work

open Work

/-! ## What a run starts from -/

/-- What a run finds: its directories, the decks, the tree once both directories are there, and where
the report goes. -/
structure Plan where
  input : Path
  output : Path
  decks : List Path
  report : Path
  tree : FileTree
  place : Place

/-- The output directory is there already, or can be made. -/
inductive Plan.Opens (k : Plan) (t : FileTree) : Prop where
  | there (found : t.find? k.output = .ok (some .directory)) (same : k.tree = t)
  | made (absent : t.find? k.output = .ok none) (nul : k.output.hasNul = false)
    (makes : t.makeDirectory k.output false = (k.tree, none))

/-- A plan for a run from a state on a tree: the input is a directory, at least one deck is found, and
the report can be written. -/
structure Plan.Fits (k : Plan) (s : State) (t : FileTree) : Prop where
  input : s.input = some k.input
  output : s.output = some k.output
  report : ∃ name, s.reportFile = some name ∧ k.report = k.output.join name
  opens : k.Opens t
  directory : k.tree.isDirectory k.input = .ok true
  decks : ∃ selectors, Glob.selectors s.pattern = .ok selectors ∧
    Glob.files k.tree k.input selectors = .ok k.decks
  found : k.decks ≠ []
  nul : k.report.hasNul = false
  place : k.tree.placeOf k.report = .ok k.place
  free : k.tree.entryAt k.place ≠ some .directory

/-- A deck is read as a document. -/
def Reads (settings : Settings) (t : FileTree) (p : Path) (d : Document) : Prop :=
  ∃ text, readText t p = .ok text ∧
    Document.create settings.limits (deckUri t p) 1 text settings.sequenceType = .ok d

variable {settings : Settings} {s : State} {t u : FileTree} {k : Plan} {p : Path}

namespace Plan.Fits

theorem outputDirectory (h : k.Fits s t) : k.tree.isDirectory k.output = .ok true := by
  cases h.opens with
  | there found same =>
    rw [same, FileTree.isDirectory, found]
    rfl
  | made absent nul makes => exact (FileTree.makes_of_makeDirectory makes).directory nul

theorem grows (h : k.Fits s t) : t.Grows k.tree := by
  cases h.opens with
  | there found same =>
    rw [same]
    exact .refl t
  | made absent nul makes => exact (FileTree.makes_of_makeDirectory makes).grows

theorem wellFormed (h : k.Fits s t) (hparts : ∀ part ∈ k.output.parts, Path.IsPart part)
    (ht : t.WellFormed) : k.tree.WellFormed := by
  cases h.opens with
  | there found same =>
    rw [same]
    exact ht
  | made absent nul makes =>
    exact (FileTree.makes_of_makeDirectory makes).wellFormed hparts ht

end Plan.Fits

/-! ## The stages -/

theorem gives_mustBeDirectory (h : t.isDirectory p = .ok true) :
    Gives (mustBeDirectory p) t (.ok ()) t := by
  refine Gives.on_tree ?_
  rw [h]
  exact (gives_pass true t).bind (gives_pure () t)

theorem gives_openDirectories (h : k.Fits s t) :
    Gives (openDirectories k.input k.output) t (.ok ()) k.tree := by
  refine Gives.on_tree ?_
  cases h.opens with
  | there found same =>
    rw [found, ← same]
    refine (gives_pass _ k.tree).bind ?_
    exact (gives_mustBeDirectory h.outputDirectory).bind (gives_mustBeDirectory h.directory)
  | made absent nul makes =>
    rw [absent]
    refine (gives_pass _ t).bind ?_
    exact (gives_makeDirectory nul makes).bind (gives_mustBeDirectory h.directory)

theorem gives_inputOf (h : k.Fits s t) : Gives (inputOf s) k.tree (.ok k.input) k.tree := by
  unfold inputOf
  rw [h.input]
  refine Gives.on_tree ?_
  rw [h.directory]
  exact (gives_pass true k.tree).bind (gives_pure k.input k.tree)

theorem gives_check (h : k.Fits s t) :
    Gives (check s) k.tree (.ok { s with decks := k.decks, ready := true }) k.tree := by
  obtain ⟨selectors, hselectors, hdecks⟩ := h.decks
  obtain ⟨houtput, -⟩ := FileTree.exists_of_isDirectory h.outputDirectory
  refine Gives.noted_if (Gives.noted ((gives_inputOf h).bind ?_))
  rw [hselectors]
  refine Gives.on_tree ?_
  rw [hdecks]
  refine (gives_pass k.decks k.tree).bind ?_
  rw [if_neg (by rw [List.isEmpty_iff]; exact h.found)]
  refine Gives.noted ?_
  rw [h.output]
  refine (gives_makeDirectory houtput (FileTree.makeDirectory_again h.outputDirectory)).bind ?_
  exact Gives.noted (gives_pure _ k.tree)

theorem gives_readDeck {d : Document} (h : Reads settings t p d) :
    Gives (readDeck settings p) t (.ok d) t := by
  obtain ⟨text, htext, hd⟩ := h
  refine Gives.on_tree ?_
  rw [htext]
  dsimp only
  rw [hd]
  exact Gives.noted (gives_pure d t)

/-- A deck that cannot be read ends the run. -/
theorem gives_readDeck_unreadable {e : Unreadable} (h : readText t p = .error e) :
    Gives (readDeck settings p) t (.error (.exit 1)) t := by
  refine Gives.on_tree ?_
  rw [h]
  exact gives_refuse _ t

theorem gives_readDecks {documents : List (Path × Document)}
    (h : ∀ q ∈ documents, Reads settings t q.1 q.2) :
    Gives (readDecks settings (documents.map (·.1))) t (.ok documents) t := by
  induction documents with
  | nil => exact gives_pure [] t
  | cons q documents ih =>
    refine (gives_readDeck (h q List.mem_cons_self)).bind ?_
    exact (ih fun q hq => h q (List.mem_cons_of_mem _ hq)).bind (gives_pure _ t)

/-- Whatever stands before it, as long as nothing there fails. -/
theorem gives_readDecks_unreadable {before after : List Path} {e : Unreadable}
    (hbefore : ∀ q ∈ before, ∀ text, readText t q = .ok text →
      ∃ d, Document.create settings.limits (deckUri t q) 1 text settings.sequenceType = .ok d)
    (h : readText t p = .error e) :
    Gives (readDecks settings (before ++ p :: after)) t (.error (.exit 1)) t := by
  induction before with
  | nil => exact (gives_readDeck_unreadable h).stop
  | cons q before ih =>
    have hrest := ih fun q hq => hbefore q (List.mem_cons_of_mem _ hq)
    cases hq : readText t q with
    | error e => exact (gives_readDeck_unreadable hq).stop
    | ok text =>
      obtain ⟨d, hd⟩ := hbefore q List.mem_cons_self text hq
      exact (gives_readDeck ⟨text, hq, hd⟩).bind hrest.stop

theorem gives_parse {documents : List (Path × Document)}
    (h : Gives (readDecks settings s.decks) t (.ok documents) t) :
    Gives (parse settings s) t (.ok { s with documents }) t :=
  Gives.noted (h.bind (gives_pure _ t))

theorem gives_parse_stop {e : Halt}
    (h : Gives (readDecks settings s.decks) t (.error e) t) :
    Gives (parse settings s) t (.error e) t :=
  Gives.noted h.stop

theorem gives_inspect (t : FileTree) (s : State) :
    Gives (inspect settings s) t
      (.ok { s with findings := some (findingsOf settings s.documents) }) t := by
  have hnotes : ∀ found : Findings, Gives (forIn found PUnit.unit fun f _ => do
      Work.note 2 (f.1.name ++ ": " ++ toString f.2.length ++ " diagnostic(s)")
      return ForInStep.yield PUnit.unit) t (.ok PUnit.unit) t := by
    intro found
    induction found with
    | nil => exact gives_pure PUnit.unit t
    | cons f found ih =>
      rw [List.forIn_cons]
      exact (Gives.noted (gives_pure _ t)).bind ih
  exact Gives.noted ((hnotes _).bind (gives_pure _ t))

/-- The report on findings of a run that starts from a state. -/
def Plan.text (k : Plan) (s : State) (found : Findings) : String :=
  (Lint.report k.input found (s.errors + found.count .error) (s.warnings + found.count .warning)).pretty

/-- The tree with a text where the report goes. -/
def Plan.written (k : Plan) (text : String) : FileTree :=
  k.tree.put k.place (.file (Text.Utf8.encode text.toList))

/-- The state of a run that has read documents. -/
def Plan.parsed (k : Plan) (s : State) (documents : List (Path × Document)) : State :=
  { s with decks := k.decks, ready := true, documents }

/-- The state of a run that has written its report. -/
def Plan.reported (k : Plan) (s : State) (documents : List (Path × Document)) (found : Findings) :
    State :=
  { k.parsed s documents with
    findings := some found
    errors := s.errors + found.count .error
    warnings := s.warnings + found.count .warning
    reportPath := k.report }

theorem gives_writeReport (h : k.Fits s t) (documents : List (Path × Document)) (found : Findings) :
    Gives (writeReport { k.parsed s documents with findings := some found }) k.tree
      (.ok (k.reported s documents found)) (k.written (k.text s found)) := by
  obtain ⟨name, hname, hreport⟩ := h.report
  have hwrite : ∀ octets, k.tree.write k.report octets = .ok (k.tree.put k.place (.file octets)) := by
    intro octets
    rw [FileTree.write, h.place]
    dsimp only
    split
    · next hdirectory => exact absurd hdirectory h.free
    · rfl
  unfold writeReport Plan.reported Plan.parsed
  dsimp only
  rw [h.output, hname, h.input]
  dsimp only
  rw [← hreport, h.nul]
  refine Gives.on_tree ?_
  rw [hwrite]
  exact (gives_setTree k.tree _).bind (Gives.noted (gives_pure _ _))

theorem gives_summarize (s : State) (t : FileTree) :
    Gives (summarize s) t (if s.failed then .error (.exit 1) else .ok s) t := by
  refine Gives.noted (Gives.noted (Gives.noted (Gives.noted ?_)))
  dsimp only
  split
  · exact (gives_throw (.exit 1) t).stop
  · exact Gives.noted (gives_pure s t)

/-! ## The whole run -/

theorem gives_lastStage {stage : Stage} {r : Except Halt State}
    (h : Gives (stage.run settings s) t r u) : Gives (runStages settings [stage] s) t r u := by
  cases r with
  | ok s' => exact h.bind (gives_pure s' u)
  | error e => exact h.stop

/-- Before the decks are read. -/
theorem Plan.Fits.runAll {r : Except Halt State} (h : k.Fits s t)
    (hr : Gives (runStages settings [.parse, .inspect, .writeReport, .summarize]
      { s with decks := k.decks, ready := true }) k.tree r u) : Gives (runAll settings s) t r u := by
  unfold Lint.runAll
  rw [h.input, h.output]
  exact (gives_openDirectories h).bind ((gives_check h).bind hr)

theorem gives_runAll (h : k.Fits s t) {documents : List (Path × Document)}
    (hdecks : documents.map (·.1) = k.decks)
    (hreads : ∀ q ∈ documents, Reads settings k.tree q.1 q.2) :
    Gives (runAll settings s) t
      (if (k.reported s documents (findingsOf settings documents)).failed then .error (.exit 1)
        else .ok (k.reported s documents (findingsOf settings documents)))
      (k.written (k.text s (findingsOf settings documents))) := by
  have hread := gives_readDecks hreads
  rw [hdecks] at hread
  refine h.runAll ?_
  refine (gives_parse (s := { s with decks := k.decks, ready := true }) hread).bind ?_
  refine (gives_inspect k.tree (k.parsed s documents)).bind ?_
  refine (gives_writeReport h documents (findingsOf settings documents)).bind ?_
  exact gives_lastStage (gives_summarize _ _)

theorem gives_runAll_unreadable (h : k.Fits s t) {before after : List Path} {e : Unreadable}
    (hdecks : k.decks = before ++ p :: after)
    (hbefore : ∀ q ∈ before, ∀ text, readText k.tree q = .ok text →
      ∃ d, Document.create settings.limits (deckUri k.tree q) 1 text settings.sequenceType = .ok d)
    (he : readText k.tree p = .error e) :
    Gives (runAll settings s) t (.error (.exit 1)) k.tree := by
  have hread : Gives (readDecks settings (before ++ p :: after)) k.tree
      (.error (.exit 1)) k.tree := gives_readDecks_unreadable hbefore he
  rw [← hdecks] at hread
  exact h.runAll (gives_parse_stop (s := { s with decks := k.decks, ready := true }) hread).stop

end Lint
end TalkDeck

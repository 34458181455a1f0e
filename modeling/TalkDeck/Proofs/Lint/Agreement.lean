import TalkDeck.Proofs.Lint.Report
import TalkDeck.Proofs.Session.Works
import TalkDeck.Proofs.Text.Percent

/-
The report of a run against what a session publishes.

Both read a deck in the same way, and the diagnostics of a deck hang neither on its URI nor on its
version (`Document.create_again`), so the two can differ only in the text they start from.  A file is
read with its line ends unified, and a session takes a text as it comes: the report agrees with a
session that is sent the unified text (`report_agrees`), which is the text itself unless it holds a
carriage return, and with one it may not agree (`report_differs_crlf`).
-/

namespace TalkDeck

/-! ## Texts -/

theorem Text.Utf8.decode_encode (cs : List Char) : decode (encode cs) = .ok cs := by
  have hall : (cs.map fun c => (.ok c : Except Fault Char)).mapM id = .ok cs := by
    refine mapM_eq_ok_iff.mpr (List.forall₂_map_left_iff.mpr ?_)
    exact List.forall₂_same.mpr fun _ _ => rfl
  rw [decode, scan_encode, hall]

theorem Text.unifyNewlines_of_not_mem {cs : List Char} (h : '\r' ∉ cs) : unifyNewlines cs = cs := by
  induction cs with
  | nil => rfl
  | cons c cs ih =>
    have hc : c ≠ '\r' := fun hc => h (hc ▸ List.mem_cons_self)
    rw [unifyNewlines, ih fun hmem => h (List.mem_cons_of_mem c hmem)]
    · exact fun _ hc' _ => hc hc'
    · exact fun hc' => hc hc'

/-- A text with all its line ends unified. -/
def Text.unified (text : String) : String := String.ofList (unifyNewlines text.toList)

theorem Text.unified_of_not_mem {text : String} (h : '\r' ∉ text.toList) : unified text = text := by
  rw [unified, unifyNewlines_of_not_mem h, String.ofList_toList]

/-! ## Documents -/

/-- What a deck holds does not hang on its URI and its version. -/
theorem Document.create_again {limits : Limits} {uri uri' content sequenceType : String}
    {version version' : Int} {d : Document}
    (h : create limits uri version content sequenceType = .ok d) :
    create limits uri' version' content sequenceType =
      .ok { d with uri := uri', version := version' } := by
  obtain ⟨-, -, rfl, hfrontmatter, hslides⟩ := create_eq_ok_iff.mp h
  exact create_eq_ok_iff.mpr ⟨rfl, rfl, rfl, hfrontmatter, hslides⟩

namespace Session

theorem published_publish {s : Session} {uri : String} {d : Document}
    (h : s.store.get? uri = some d) :
    (s.publish uri).published = s.published ++ [⟨uri, some d.version, s.diagnosticsOf d⟩] := by
  rw [publish, h]

/-- A session publishes the diagnostics of a document when it opens it. -/
theorem published_opened {settings : Settings} {s : Session} {P : Document → Prop}
    (hs : Vetted P settings s) {uri text : String} {version : Int} {d : Document}
    (hread : IsRead settings uri version text d) :
    (s.handle (.opened uri version text)).2.published = s.published ++ [⟨uri, some version,
      d.diagnostics (Catalog.standard settings.sequenceType) settings⟩] := by
  obtain ⟨hversion, hd⟩ := hread
  obtain ⟨huri, hdversion, -⟩ := Document.create_eq_ok_iff.mp hd
  rw [← hs.settings_eq] at hd
  obtain ⟨n, hopen⟩ := openDocument_of_ok hd
  have hget : (s.store.insert d).get? uri = some d := by rw [Store.get?_insert, if_pos huri]
  rw [handle, if_pos hversion, hopen, published_publish hget, diagnosticsOf, hdversion]
  show s.published ++ [⟨uri, some version, d.diagnostics s.catalog s.settings⟩] = _
  rw [hs.catalog_eq, hs.settings_eq]

end Session

namespace Lint

variable {settings : Settings} {args : List String} {g : Given} {t : FileTree} {k : Plan}

/-! ## The report and the session -/

theorem readText_encode {p : Path} {place : Place} {text : String}
    (hplace : t.placeOf p = .ok place)
    (hfile : t.entryAt place = some (.file (Text.Utf8.encode text.toList))) :
    readText t p = .ok (Text.unified text) := by
  rw [readText, hplace]
  dsimp only
  rw [hfile]
  dsimp only
  rw [Text.Utf8.decode_encode]
  rfl

/-- A run that reads all its decks, one of which is the file of a text.  The report has one entry for
this deck, and its diagnostics are those that a session under the same settings publishes when it opens a
document with the unified text, whatever it has done before; a text without carriage returns is unified
as it is. -/
theorem report_agrees (hargs : command.parse args = .ok g) (ht : t.WellFormed)
    (h : k.Fits (stateOf settings g) t) (hreads : ∀ p ∈ k.decks, ∃ d, Reads settings k.tree p d)
    {p : Path} {place : Place} {text : String} (hp : p ∈ k.decks)
    (hplace : k.tree.placeOf p = .ok place)
    (hfile : k.tree.entryAt place = some (.file (Text.Utf8.encode text.toList)))
    (events : List Session.Event) (uri : String) {version : Int}
    (hversion : Session.isVersion version = true) :
    ∃ (report : Json) (entries : List (String × Json)) (ds : List Diagnostic),
      (execute settings args t).tree.entryAt k.place =
        some (.file (Text.Utf8.encode report.pretty.toList)) ∧
      report.get? "decks" = some (.obj entries) ∧ (entries.map (·.1)).Nodup ∧
      (k.input.relativeTo p, .arr (ds.map Wire.diagnostic)) ∈ entries ∧
      (((Session.start settings).run events).handle
        (.opened uri version (Text.unified text))).2.published =
          ((Session.start settings).run events).published ++ [⟨uri, some version, ds⟩] ∧
      ('\r' ∉ text.toList → Text.unified text = text) := by
  obtain ⟨documents, hdecks, hall⟩ := exists_documents hreads
  obtain ⟨report, htells⟩ := tells_of_reads hargs ht h hdecks hall
  -- The document of the deck is the one that the session reads, but for its URI and version.
  have hmem : ∃ q ∈ documents, q.1 = p := List.mem_map.mp (hdecks ▸ hp)
  obtain ⟨⟨_, d⟩, hd, rfl⟩ := hmem
  obtain ⟨read, hread, hcreate⟩ := hall _ hd
  obtain rfl := Except.ok.inj (hread.symm.trans (readText_encode hplace hfile))
  have hvetted : Session.Vetted (fun _ => True) settings ((Session.start settings).run events) :=
    Session.run_vetted (Session.start_vetted _ settings) fun _ _ _ _ _ _ _ _ => trivial
  have hagain : Document.create settings.limits uri version (Text.unified text) settings.sequenceType =
      .ok { d with uri, version } := Document.create_again hcreate
  have hpublished := Session.published_opened hvetted ⟨hversion, hagain⟩
  refine ⟨report, _, _, htells.written, htells.entries, ?_, List.mem_map.mpr ⟨_, hd, rfl⟩,
    hpublished, Text.unified_of_not_mem⟩
  have hdistinct := htells.distinct
  rw [List.map_map]
  exact hdistinct

def crlfText : String := "\x60\x60\x60action\r\nlabel: x\r\n\x60\x60\x60"

/-- A directory with one deck whose lines end in two characters. -/
def crlfTree : FileTree where
  here := []
  entries :=
    [(["in"], .directory), (["in", "a.md"], .file (Text.Utf8.encode crlfText.toList))]

def crlfGiven : Given where
  options := [("--pattern", some "a.md")]
  positionals := [some "in", some "out"]

def crlfPlan : Plan where
  input := Path.of "in"
  output := Path.of "out"
  decks := [⟨"", ["in", "a.md"]⟩]
  report := ⟨"", ["out", "diagnostics.json"]⟩
  tree := crlfTree.put ["out"] .directory
  place := ["out", "diagnostics.json"]

theorem parse_crlf : command.parse ["in", "out", "--pattern", "a.md"] = .ok crlfGiven := by
  decide +kernel

theorem wellFormed_crlf : crlfTree.WellFormed where
  nodup := by decide
  names := by decide
  here := nofun

theorem fits_crlf : crlfPlan.Fits (stateOf {} crlfGiven) crlfTree where
  input := rfl
  output := rfl
  report := ⟨"diagnostics.json", rfl, by decide +kernel⟩
  opens := .made (by decide +kernel) (by decide +kernel) (by decide +kernel)
  directory := by decide +kernel
  decks := ⟨[.name "a.md"], by decide +kernel, Glob.files_of_select (by decide +kernel)
    (by decide +kernel) (List.pairwise_singleton _ _)⟩
  found := List.cons_ne_nil _ _
  nul := by decide +kernel
  place := by decide +kernel
  free := by decide +kernel

theorem reads_crlf : ∃ d, Reads {} crlfPlan.tree ⟨"", ["in", "a.md"]⟩ d ∧
    (d.diagnostics (Catalog.standard "sequence") {}).map (·.range) = [Range.onLine 1 0 8] := by
  obtain ⟨d, hd, hranges⟩ := exists_eq_ok_of_any
    (x := Document.create .usual "file:///in/a.md" 1 (Text.unified crlfText) "sequence")
    (p := fun d => (d.diagnostics (Catalog.standard "sequence") {}).map (·.range) ==
      [Range.onLine 1 0 8]) (by decide +kernel)
  exact ⟨d, ⟨Text.unified crlfText, by decide +kernel, hd⟩, eq_of_beq hranges⟩

theorem report_agrees_crlf :
    ∃ (report : Json) (entries : List (String × Json)) (ds : List Diagnostic),
      (execute {} ["in", "out", "--pattern", "a.md"] crlfTree).tree.entryAt crlfPlan.place =
        some (.file (Text.Utf8.encode report.pretty.toList)) ∧
      report.get? "decks" = some (.obj entries) ∧ (entries.map (·.1)).Nodup ∧
      ("a.md", .arr (ds.map Wire.diagnostic)) ∈ entries ∧
      ((Session.start {}).handle (.opened "file:///a.md" 7 (Text.unified crlfText))).2.published =
        [⟨"file:///a.md", some 7, ds⟩] := by
  have hreads : ∀ p ∈ crlfPlan.decks, ∃ d, Reads {} crlfPlan.tree p d := by
    intro p hp
    obtain rfl := List.mem_singleton.mp hp
    obtain ⟨d, hd, -⟩ := reads_crlf
    exact ⟨d, hd⟩
  have hplace : crlfPlan.tree.placeOf ⟨"", ["in", "a.md"]⟩ = .ok ["in", "a.md"] := by decide +kernel
  have hfile : crlfPlan.tree.entryAt ["in", "a.md"] =
      some (.file (Text.Utf8.encode crlfText.toList)) := by decide +kernel
  have hversion : Session.isVersion 7 = true := by decide
  obtain ⟨report, entries, ds, hwritten, hdecks, hnodup, hentry, hpublished, -⟩ :=
    report_agrees parse_crlf wellFormed_crlf fits_crlf hreads List.mem_cons_self hplace hfile []
      "file:///a.md" hversion
  exact ⟨report, entries, ds, hwritten, hdecks, hnodup, hentry, hpublished⟩

/-- The report ends the diagnostic before the carriage return, the session after it. -/
theorem report_differs_crlf :
    (∃ (report : Json) (ds : List Diagnostic),
      (execute {} ["in", "out", "--pattern", "a.md"] crlfTree).tree.entryAt crlfPlan.place =
        some (.file (Text.Utf8.encode report.pretty.toList)) ∧
      report.get? "decks" = some (.obj [("a.md", .arr (ds.map Wire.diagnostic))]) ∧
      ds.map (·.range) = [Range.onLine 1 0 8]) ∧
    ∃ ds : List Diagnostic,
      ((Session.start {}).handle (.opened "file:///a.md" 7 crlfText)).2.published =
        [⟨"file:///a.md", some 7, ds⟩] ∧ ds.map (·.range) = [Range.onLine 1 0 9] := by
  constructor
  · obtain ⟨d, hd, hranges⟩ := reads_crlf
    have hdecks : [((⟨"", ["in", "a.md"]⟩ : Path), d)].map (·.1) = crlfPlan.decks := rfl
    obtain ⟨report, htells⟩ := tells_of_reads parse_crlf wellFormed_crlf fits_crlf hdecks
      fun q hq => List.mem_singleton.mp hq ▸ hd
    exact ⟨report, _, htells.written, htells.entries, hranges⟩
  · obtain ⟨d, hd, hranges⟩ := exists_eq_ok_of_any
      (x := Document.create .usual "file:///a.md" 7 crlfText "sequence")
      (p := fun d => (d.diagnostics (Catalog.standard "sequence") {}).map (·.range) ==
        [Range.onLine 1 0 9]) (by decide +kernel)
    have hvetted := Session.start_vetted (fun _ => True) {}
    exact ⟨_, Session.published_opened hvetted ⟨by decide, hd⟩, eq_of_beq hranges⟩

end Lint
end TalkDeck

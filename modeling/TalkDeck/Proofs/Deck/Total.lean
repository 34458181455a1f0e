import TalkDeck.Proofs.Deck.Raws
import TalkDeck.Proofs.Yaml.Stops

/-
Reading a deck succeeds unless a block holds something that may stop it (`create_total`): every fault
of a block's text then ends up on that block.
-/

namespace TalkDeck

theorem Fragment.exists_read (limits : Limits) {t : List Char} (h : Yaml.mayStop t = false) :
    ∃ o, read limits t = .ok o ∧
      ∀ f, Yaml.Value.ofText limits t = .error f → o.error?.isSome = true := by
  have hgives : Yaml.Gives (Yaml.From t (Yaml.mayStop t = true)) (fun _ => True)
      (Yaml.Value.ofText limits t) := Yaml.Value.gives_ofText t
  rw [h] at hgives
  unfold read
  cases htext : Yaml.Value.ofText limits t with
  | ok v =>
    cases v with
    | none => exact ⟨_, rfl, nofun⟩
    | some v =>
      simp only
      split
      · exact ⟨_, rfl, nofun⟩
      · split
        · exact ⟨_, rfl, nofun⟩
        · exact ⟨_, rfl, nofun⟩
  | error f =>
    cases f with
    | marked p m => exact ⟨_, rfl, fun _ _ => rfl⟩
    | unmarked p => exact ⟨_, rfl, fun _ _ => rfl⟩
    | tooDeep => exact ⟨_, rfl, fun _ _ => rfl⟩
    | abort a =>
      have hstops : false = true := hgives.of_eq_error htext
      cases hstops

theorem Block.isSome_error?_ofOutcome {sequenceType : String} {r : Raw} {o : Fragment.Outcome}
    (h : o.error?.isSome = true) : (ofOutcome sequenceType r o).error?.isSome = true := by
  cases o with
  | empty => exact absurd h (by decide)
  | mapping v => exact absurd h (by simp [Fragment.Outcome.error?])
  | broken e => rfl

namespace Document

variable {limits : Limits} {content sequenceType : String}

/-- A deck in which no block holds something that may stop the reading is read, and each block with
it: what its text holds, or the fault that its text has.  The deck is taken to have no line or character
beyond `Position.limit`, as in `create`. -/
theorem create_total (uri : String) (version : Int)
    (h : ∀ r ∈ raws (Text.lines content.toList), Yaml.mayStop (Text.unlines r.content) = false) :
    ∃ d, create limits uri version content sequenceType = .ok d ∧
      List.Forall₂ (fun r b => (∃ o, Fragment.read limits (Text.unlines r.content) = .ok o ∧
          b = Block.ofOutcome sequenceType r o) ∧
        ∀ f, Yaml.Value.ofText limits (Text.unlines r.content) = .error f → b.error?.isSome = true)
        (raws (Text.lines content.toList)) d.blocks := by
  obtain ⟨d, hd⟩ : ∃ d, create limits uri version content sequenceType = .ok d := by
    refine exists_create uri version fun r hr => ?_
    obtain ⟨o, ho, -⟩ := Fragment.exists_read limits (h r hr)
    exact ⟨_, bind_eq_ok_iff.mpr ⟨o, ho, rfl⟩⟩
  have hlines : d.lines = Text.lines content.toList := by
    rw [Document.lines, (create_eq_ok_iff.mp hd).2.2.1]
  have hblocks := blocks_of_create hd
  rw [hlines] at hblocks
  refine ⟨d, hd, ((List.forall₂_and_left _ _).mpr ⟨h, hblocks⟩).imp fun r b hrb => ?_⟩
  obtain ⟨hr, hb⟩ := hrb
  obtain ⟨o, ho, herror⟩ := Fragment.exists_read limits hr
  obtain ⟨o', ho', hb⟩ := bind_eq_ok_iff.mp hb
  cases ho.symm.trans ho'
  cases hb
  exact ⟨⟨o, ho, rfl⟩, fun f hf => Block.isSome_error?_ofOutcome (herror f hf)⟩

/-- A bracket left open, an impossible date, a tag that nothing is known of, and an alias of no
anchor. -/
def faultsDeck : String :=
  "\x60\x60\x60action\ntype: [\n\x60\x60\x60\n\x60\x60\x60action\nwhen: 2024-13-40\n\x60\x60\x60\n" ++
    "\x60\x60\x60action\ntype: !nope x\n\x60\x60\x60\n\x60\x60\x60action\ntype: *a\n\x60\x60\x60"

theorem create_total_faults :
    ∃ d, create .usual "a" 1 faultsDeck "sequence" = .ok d ∧ d.blocks.length = 4 ∧
      ∀ b ∈ d.blocks, b.error?.isSome = true := by
  have hraws : (raws (Text.lines faultsDeck.toList)).length = 4 ∧
      ∀ r ∈ raws (Text.lines faultsDeck.toList), Yaml.mayStop (Text.unlines r.content) = false ∧
        (Yaml.Value.ofText .usual (Text.unlines r.content)).toOption.isNone = true := by
    decide +kernel
  obtain ⟨d, hd, hblocks⟩ :=
    @create_total .usual faultsDeck "sequence" "a" 1 fun r hr => (hraws.2 r hr).1
  refine ⟨d, hd, by rw [← hblocks.length_eq, hraws.1], fun b hb => ?_⟩
  rw [List.forall₂_iff_get] at hblocks
  obtain ⟨i, hi, rfl⟩ := List.getElem_of_mem hb
  have hfault := (hraws.2 _ (List.get_mem _ ⟨i, hblocks.1 ▸ hi⟩)).2
  have herror := (hblocks.2 i (hblocks.1 ▸ hi) hi).2
  cases htext : Yaml.Value.ofText .usual
      (Text.unlines ((raws (Text.lines faultsDeck.toList)).get ⟨i, hblocks.1 ▸ hi⟩).content) with
  | ok v => rw [htext] at hfault; cases hfault
  | error f => exact herror f htext

/-- A truth value that is none. -/
def unknownTruthDeck : String := "\x60\x60\x60action\ntype: !!bool maybe\n\x60\x60\x60"

/-- The whole deck is lost. -/
theorem not_total_unknownTruth :
    create .usual "a" 1 unknownTruthDeck "sequence" = .error (.unknownTruth "maybe".toList) := by
  decide +kernel

end Document
end TalkDeck

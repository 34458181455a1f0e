import TalkDeck.Proofs.Yaml.Place
import TalkDeck.Yaml.Token

/-
What the outcome of reading may be.  A result has the property wanted, and a fault another (`Gives`).
The faults of a text have their marks in it, and the ones that stop the whole document come with a
reason (`From`).  The lemmas follow the ways in which readers are put together, so that each reader's
own lemma follows its definition.
-/

namespace TalkDeck
namespace Yaml

/-- A result satisfies `P`, and a fault satisfies `E`. -/
structure Gives {α : Type} (E : Fault → Prop) (P : α → Prop) (x : Except Fault α) : Prop where
  of_eq_ok : ∀ {a}, x = .ok a → P a
  of_eq_error : ∀ {f}, x = .error f → E f

/-- A fault of the text `t`, which stops the document only with the reason `R`. -/
def From (t : List Char) (R : Prop) : Fault → Prop
  | .marked _ m => Marks t m
  | .abort _ => R
  | .unmarked _ | .tooDeep => True

theorem From.weaken {t : List Char} {R S : Prop} {f : Fault} (hf : From t R f) (h : R → S) :
    From t S f := by
  cases f with
  | marked p m => exact hf
  | unmarked p => trivial
  | tooDeep => trivial
  | abort a => exact h hf

/-- The marks of a token are the text's. -/
structure Token.Placed (t : List Char) (k : Token) : Prop where
  start : Marks t k.start
  stop : Marks t k.stop

namespace Gives

variable {α β : Type} {E : Fault → Prop} {P : α → Prop} {Q : β → Prop}

theorem of_ok {a : α} (h : P a) : Gives E P (.ok a) :=
  ⟨fun ha => Except.ok.inj ha ▸ h, nofun⟩

theorem of_pure {a : α} (h : P a) : Gives E P (pure a) := of_ok h

theorem of_error {f : Fault} (h : E f) : Gives E P (.error f) :=
  ⟨nofun, fun hf => Except.error.inj hf ▸ h⟩

theorem of_fail {p : Problem} {c : Cursor} (h : E (.marked p c.mark)) : Gives E P (fail p c) :=
  of_error h

/-- Of a fault that may be any, nothing is asked. -/
theorem of_any {x : Except Fault α} : Gives (fun _ => True) (fun _ => True) x :=
  ⟨fun _ => trivial, fun _ => trivial⟩

theorem error {f : Fault} (h : Gives E P (.error f)) : Gives E Q (.error f) :=
  of_error (h.of_eq_error rfl)

theorem bind {x : Except Fault α} {f : α → Except Fault β} (hx : Gives E P x)
    (hf : ∀ a, P a → Gives E Q (f a)) : Gives E Q (x >>= f) := by
  cases x with
  | ok a => exact hf a (hx.of_eq_ok rfl)
  | error e => exact hx.error

theorem mono {R : α → Prop} {x : Except Fault α} (hx : Gives E P x) (h : ∀ a, P a → R a) :
    Gives E R x :=
  ⟨fun ha => h _ (hx.of_eq_ok ha), hx.of_eq_error⟩

theorem weaken {t : List Char} {R S : Prop} {x : Except Fault α} (hx : Gives (From t R) P x)
    (h : R → S) : Gives (From t S) P x :=
  ⟨hx.of_eq_ok, fun hf => (hx.of_eq_error hf).weaken h⟩

theorem map {f : α → β} {x : Except Fault α} (hx : Gives E P x) (h : ∀ a, P a → Q (f a)) :
    Gives E Q (f <$> x) := by
  cases x with
  | ok a => exact of_ok (h a (hx.of_eq_ok rfl))
  | error e => exact hx.error

theorem ite {p : Prop} [Decidable p] {x y : Except Fault α} (hx : p → Gives E P x)
    (hy : ¬p → Gives E P y) : Gives E P (if p then x else y) := by
  split
  · next h => exact hx h
  · next h => exact hy h

theorem foldlM {f : β → α → Except Fault β} {as : List α} {b : β} (hb : Q b)
    (hf : ∀ b a, Q b → a ∈ as → Gives E Q (f b a)) : Gives E Q (as.foldlM f b) := by
  induction as generalizing b with
  | nil => exact of_pure hb
  | cons a as ih =>
    rw [List.foldlM_cons]
    refine bind (hf b a hb List.mem_cons_self) ?_
    intro b' hb'
    exact ih hb' fun b a h ha => hf b a h (List.mem_cons_of_mem _ ha)

theorem length_mapM {f : α → Except Fault β} {as : List α}
    (hf : ∀ a ∈ as, Gives E (fun _ => True) (f a)) :
    Gives E (fun bs => bs.length = as.length) (as.mapM f) := by
  induction as with
  | nil => exact of_pure rfl
  | cons a as ih =>
    rw [List.mapM_cons]
    refine bind (hf a List.mem_cons_self) fun b _ => ?_
    refine bind (ih fun a ha => hf a (List.mem_cons_of_mem _ ha)) fun bs hbs => ?_
    exact of_pure (by rw [List.length_cons, List.length_cons, hbs])

end Gives

/-- What is fed satisfies `P`, and the fault that ends it satisfies `E`. -/
structure Feed.Gives {α : Type} (E : Fault → Prop) (P : α → Prop) (f : Feed α) : Prop where
  items : ∀ a ∈ f.items, P a
  fault : ∀ e, f.fault = some e → E e

namespace Feed.Gives

variable {α β : Type} {E : Fault → Prop} {P : α → Prop} {Q : β → Prop} {done : List α}

theorem of_none (h : ∀ a ∈ done, P a) : (⟨done.reverse, none⟩ : Feed α).Gives E P :=
  ⟨fun a ha => h a (List.mem_reverse.mp ha), nofun⟩

theorem of_error {f : Fault} {x : Except Fault β} (h : ∀ a ∈ done, P a) (hx : Yaml.Gives E Q x)
    (hf : x = .error f) : (⟨done.reverse, some f⟩ : Feed α).Gives E P :=
  ⟨fun a ha => h a (List.mem_reverse.mp ha),
    fun _ he => hx.of_eq_error (hf.trans (congrArg _ (Option.some.inj he)))⟩

theorem weaken {t : List Char} {R S : Prop} {f : Feed α} (hf : f.Gives (From t R) P) (h : R → S) :
    f.Gives (From t S) P :=
  ⟨hf.items, fun e he => (hf.fault e he).weaken h⟩

end Feed.Gives

end Yaml
end TalkDeck

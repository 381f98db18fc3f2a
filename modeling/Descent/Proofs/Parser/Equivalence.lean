import Mathlib.Data.List.Forall2
import Descent.Parser.Token
import Descent.Proofs.Computation.Bases
import Descent.Proofs.Parser.Observation

/-! # Parsers that cannot be told apart

Two parsers are equivalent when the same is seen of them from every state: the same effects in the
same order, the same tag and the same reply. How they distribute effects over their two layers does
not count. Every combinator respects this, since what is seen of it depends only on what is seen of
its parts. -/

namespace Descent.Parser

variable {m n : Type → Type} [Computation m] [Computation n] {σ τ υ : Type}

/-- The same is seen of both parsers from every state. Through `Transfer.refl` this says that
`observe` gives equal computations. -/
def Equivalent (φ : Transfer m n) {α : Type} (p p' : Parser m σ υ α) : Prop :=
  ∀ s, p.view φ s = p'.view φ s

/-- The same parser with the effects of both layers in the outer one. -/
def outward {α : Type} (p : Parser m σ υ α) : Parser m σ υ α := fun s => do
  let t ← p.observe s
  reply t.consumed t.value

theorem equivalent_outward [LawfulComputation n] (φ : Transfer m n) {α : Type}
    (p : Parser m σ υ α) : Equivalent φ p p.outward := by
  intro s
  rw [view_eq φ p.outward, outward, φ.carry_bind, bind_assoc]
  simp only [reply, φ.carry_pure, pure_bind]
  exact (bind_pure (p.view φ s)).symm

/-- A relation of parsers that every combinator respects. -/
structure Compatible [Source σ τ]
    (R : {α : Type} → Parser m σ υ α → Parser m σ υ α → Prop) : Prop where
  bind {α β : Type} {p p' : Parser m σ υ α} {f f' : α → Parser m σ υ β} :
    R p p' → (∀ a, R (f a) (f' a)) → R (p.bind f) (p'.bind f')
  map {α β : Type} {p p' : Parser m σ υ α} (f : α → β) : R p p' → R (p.map f) (p'.map f)
  andThen {α β : Type} {p p' : Parser m σ υ α} {q q' : Parser m σ υ β} :
    R p p' → R q q' → R (p.andThen q) (p'.andThen q')
  skip {α β : Type} {p p' : Parser m σ υ α} {q q' : Parser m σ υ β} :
    R p p' → R q q' → R (p.skip q) (p'.skip q')
  between {α β γ : Type} {opening opening' : Parser m σ υ α} {closing closing' : Parser m σ υ β}
    {p p' : Parser m σ υ γ} : R opening opening' → R closing closing' → R p p' →
    R (between opening closing p) (between opening' closing' p')
  orElse {α : Type} {p p' q q' : Parser m σ υ α} :
    R p p' → R q q' → R (p.orElse q) (p'.orElse q')
  choice {α : Type} {ps ps' : List (Parser m σ υ α)} :
    List.Forall₂ R ps ps' → R (choice ps) (choice ps')
  attempt {α : Type} {p p' : Parser m σ υ α} : R p p' → R p.attempt p'.attempt
  label {α : Type} {p p' : Parser m σ υ α} (name : Bytes) :
    R p p' → R (p.label name) (p'.label name)
  option {α : Type} {p p' : Parser m σ υ α} (a : α) : R p p' → R (p.option a) (p'.option a)
  optional {α : Type} {p p' : Parser m σ υ α} : R p p' → R p.optional p'.optional
  lookAhead {α : Type} {p p' : Parser m σ υ α} : R p p' → R p.lookAhead p'.lookAhead
  many {α : Type} {p p' : Parser m σ υ α} (rounds : Nat) :
    R p p' → R (many rounds p) (many rounds p')
  many1 {α : Type} {p p' : Parser m σ υ α} (rounds : Nat) :
    R p p' → R (many1 rounds p) (many1 rounds p')
  skipMany {α : Type} {p p' : Parser m σ υ α} (rounds : Nat) :
    R p p' → R (skipMany rounds p) (skipMany rounds p')
  sepBy {α β : Type} {p p' : Parser m σ υ α} {sep sep' : Parser m σ υ β} (rounds : Nat) :
    R p p' → R sep sep' → R (sepBy rounds p sep) (sepBy rounds p' sep')
  sepBy1 {α β : Type} {p p' : Parser m σ υ α} {sep sep' : Parser m σ υ β} (rounds : Nat) :
    R p p' → R sep sep' → R (sepBy1 rounds p sep) (sepBy1 rounds p' sep')
  count {α : Type} {p p' : Parser m σ υ α} (rounds times : Nat) :
    R p p' → R (count rounds times p) (count rounds times p')
  manyTill {α β : Type} {p p' : Parser m σ υ α} {stop stop' : Parser m σ υ β} (rounds : Nat) :
    R p p' → R stop stop' → R (manyTill rounds p stop) (manyTill rounds p' stop')
  chainl1 {α : Type} {p p' : Parser m σ υ α} {op op' : Parser m σ υ (α → α → α)} (rounds : Nat) :
    R p p' → R op op' → R (chainl1 rounds p op) (chainl1 rounds p' op')
  traced {α : Type} {p p' : Parser m σ υ α} (name : Bytes) :
    R p p' → R (p.traced name) (p'.traced name)

namespace Equivalent

variable {φ : Transfer m n} {α β : Type}

theorem refl (p : Parser m σ υ α) : Equivalent φ p p := fun _ => rfl

variable [LawfulComputation n] {p p' q q' : Parser m σ υ α}

theorem bind (hp : Equivalent φ p p') {f f' : α → Parser m σ υ β}
    (hf : ∀ a, Equivalent φ (f a) (f' a)) : Equivalent φ (p.bind f) (p'.bind f') := by
  intro s
  rw [view_bind, view_bind, hp s]
  congr 1
  funext ⟨consumed, r⟩
  cases r with
  | error h => rfl
  | ok a s' h => exact congrArg _ (hf a s')

theorem map (hp : Equivalent φ p p') (f : α → β) : Equivalent φ (p.map f) (p'.map f) := by
  intro s
  rw [view_map, view_map, hp s]

theorem orElse (hp : Equivalent φ p p') (hq : Equivalent φ q q') :
    Equivalent φ (p.orElse q) (p'.orElse q') := by
  intro s
  rw [view_orElse, view_orElse, hp s, hq s]

theorem attempt (hp : Equivalent φ p p') : Equivalent φ p.attempt p'.attempt := by
  intro s
  rw [view_attempt, view_attempt, hp s]

theorem label (hp : Equivalent φ p p') (name : Bytes) :
    Equivalent φ (p.label name) (p'.label name) := by
  intro s
  rw [view_label, view_label, hp s]

theorem choice {ps ps' : List (Parser m σ υ α)} [Source σ τ]
    (h : List.Forall₂ (Equivalent φ) ps ps') :
    Equivalent φ (Parser.choice ps) (Parser.choice ps') := by
  induction h with
  | nil => exact refl _
  | cons hp hRest ih =>
    cases hRest with
    | nil => exact hp
    | cons _ _ => exact hp.orElse ih

variable [Source σ τ]

theorem lookAhead (hp : Equivalent φ p p') : Equivalent φ p.lookAhead p'.lookAhead := by
  intro s
  rw [view_lookAhead, view_lookAhead, hp s]

theorem traced (hp : Equivalent φ p p') (name : Bytes) :
    Equivalent φ (p.traced name) (p'.traced name) := by
  intro s
  rw [view_traced, view_traced, hp s]

theorem gather (rounds : Nat) (rule : Repetition) {p p' : Parser m σ υ (Yield α)}
    (hp : Equivalent φ p p') : Equivalent φ (gather rounds rule p) (gather rounds rule p') := by
  intro s
  rw [view_gather, view_gather, funext hp]

theorem many (rounds : Nat) (hp : Equivalent φ p p') :
    Equivalent φ (Parser.many rounds p) (Parser.many rounds p') :=
  gather rounds .untilFailure (hp.map Yield.value)

theorem andThen {q q' : Parser m σ υ β} (hp : Equivalent φ p p') (hq : Equivalent φ q q') :
    Equivalent φ (p.andThen q) (p'.andThen q') :=
  hp.bind fun _ => hq

theorem skip {q q' : Parser m σ υ β} (hp : Equivalent φ p p') (hq : Equivalent φ q q') :
    Equivalent φ (p.skip q) (p'.skip q') :=
  hp.bind fun a => hq.map fun _ => a

theorem sepBy1 {sep sep' : Parser m σ υ β} (rounds : Nat) (hp : Equivalent φ p p')
    (hSep : Equivalent φ sep sep') :
    Equivalent φ (Parser.sepBy1 rounds p sep) (Parser.sepBy1 rounds p' sep') :=
  hp.bind fun a => (many rounds (hSep.andThen hp)).map (a :: ·)

theorem count (rounds times : Nat) (hp : Equivalent φ p p') :
    Equivalent φ (Parser.count rounds times p) (Parser.count rounds times p') := by
  unfold Parser.count
  split
  · exact refl _
  · exact gather rounds (.times times) (hp.map Yield.value)

theorem chainl1 {op op' : Parser m σ υ (α → α → α)} (rounds : Nat) (hp : Equivalent φ p p')
    (hOp : Equivalent φ op op') :
    Equivalent φ (Parser.chainl1 rounds p op) (Parser.chainl1 rounds p' op') :=
  hp.bind fun _ => (many rounds (hOp.bind fun f => hp.map fun y => (f, y))).map _

end Equivalent

theorem equivalent_compatible [LawfulComputation n] [Source σ τ] (φ : Transfer m n) :
    Compatible (m := m) (σ := σ) (υ := υ) (Equivalent φ) where
  bind hp hf := hp.bind hf
  map f hp := hp.map f
  andThen hp hq := hp.andThen hq
  skip hp hq := hp.skip hq
  between hOpening hClosing hp := hOpening.andThen (hp.skip hClosing)
  orElse hp hq := hp.orElse hq
  choice h := .choice h
  attempt hp := hp.attempt
  label name hp := hp.label name
  option _ hp := hp.orElse (.refl _)
  optional hp := (hp.map fun _ => ()).orElse (.refl _)
  lookAhead hp := hp.lookAhead
  many rounds hp := .many rounds hp
  many1 rounds hp := hp.bind fun a => (Equivalent.many rounds hp).map (a :: ·)
  skipMany rounds hp := (Equivalent.many rounds hp).map fun _ => ()
  sepBy rounds hp hSep := (Equivalent.sepBy1 rounds hp hSep).orElse (.refl _)
  sepBy1 rounds hp hSep := .sepBy1 rounds hp hSep
  count rounds times hp := .count rounds times hp
  manyTill rounds hp hStop :=
    .gather rounds .untilOver ((hStop.map fun _ => Yield.over).orElse (hp.map Yield.value))
  chainl1 rounds hp hOp := .chainl1 rounds hp hOp
  traced name hp := hp.traced name

/-- Reading runes of `ab` one by one and recording each, with the end of each round in its inner
layer or in its outer one. -/
theorem equivalent_compatible_traced :
    let p : Parser Trace Text Unit Rune := anyToken.traced [120]
    Equivalent Transfer.events (many 9 p) (many 9 p.outward) ∧
      (p ⟨.ofBytes [] [97, 98], ()⟩).toOption.map (fun x => x.2.toList.length) = some 1 ∧
      (p.outward ⟨.ofBytes [] [97, 98], ()⟩).toOption.map (fun x => x.2.toList.length) = some 2 :=
  ⟨(equivalent_compatible Transfer.events).many 9 (equivalent_outward _ _), rfl, rfl⟩

end Descent.Parser

import Descent.Proofs.Computation.SingleCall
import Descent.Proofs.Parser.Simulation

/-! # Grammars without effects

What a grammar without effects comes to does not depend on the base computation: where plain
evaluation delivers a tagged reply, every other base delivers that reply and does nothing else, and
where it stops at a repetition of nothing, so do they. -/

namespace Descent

/-- The grammar neither performs effects nor records events. -/
def Grammar.EffectFree {τ υ : Type} {ε ρ : Type → Type} {α : Type} (g : Grammar τ υ ε ρ α) : Prop :=
  g.Asks (fun _ => False) False

/-- The computation by continuation that does what plain evaluation comes to: a single call of the
continuation, or a fault without any. -/
def Cont.IsPlain {ν ω α : Type} (x : Cont ν ω α) : Plain α → Prop
  | .ok a => x.Calls a
  | .error f => x.Faults f

theorem Cont.Follows.isPlain {ν ω α : Type} {x : Cont ν ω α} {outcome : Plain α}
    (h : Cont.Follows Eq (Computation.ofPlain outcome) x) : x.IsPlain outcome := by
  cases outcome with
  | ok a =>
    cases h with
    | right h hCalls => exact h ▸ hCalls
  | error f =>
    cases h with
    | error hFault => exact hFault

variable {σ τ υ : Type} [Source σ τ] [Shown τ] {ε ρ : Type → Type}
  {rules : {α : Type} → ρ α → Grammar τ υ ε ρ α}

theorem Rulebook.related_of_effectFree {m : Type → Type} [Computation m] {S : Simulation Plain m}
    (perform : {α : Type} → ε α → Plain α) (perform' : {α : Type} → ε α → m α) {bound : Nat}
    (hBound : S.bounds bound bound)
    (hRules : ∀ {α : Type} (name : ρ α), (rules name).EffectFree) {α : Type}
    {g : Grammar τ υ ε ρ α} (hg : g.EffectFree) :
    Parser.Related S (Rulebook.parser (σ := σ) perform bound (ofGrammars rules) g)
      (Rulebook.parser perform' bound (ofGrammars rules) g) :=
  Rulebook.parser_related (fun _ h => h.elim) (fun h => h.elim) hBound hRules g hg

/-- Among the lawful bases are plain evaluation and evaluation with aborts. -/
theorem effectFree_observe (perform : {α : Type} → ε α → Plain α)
    (rules : {α : Type} → ρ α → Grammar τ υ ε ρ α)
    (hRules : ∀ {α : Type} (name : ρ α), (rules name).EffectFree) {α : Type}
    {g : Grammar τ υ ε ρ α} (hg : g.EffectFree) {s : State σ υ} {bound : Nat}
    {outcome : Plain (Tagged (Reply σ υ α))}
    (hOutcome : (Rulebook.parser perform bound (Rulebook.ofGrammars rules) g).observe s = outcome)
    (hEnds : outcome ≠ .error .exhausted) {bound' : Nat} (hBound : bound ≤ bound') :
    (∀ (m : Type → Type) [Computation m] [LawfulComputation m] (perform' : {α : Type} → ε α → m α),
      (Rulebook.parser perform' bound' (Rulebook.ofGrammars rules) g).observe s =
        Computation.ofPlain outcome) ∧
    (∀ perform' : {α : Type} → ε α → Trace α,
      (Rulebook.parser perform' bound' (Rulebook.ofGrammars rules) g).observe s =
        outcome.map fun t => (t, .empty)) ∧
    ∀ (ν ω : Type) (perform' : {α : Type} → ε α → Cont ν ω α),
      ((Rulebook.parser perform' bound' (Rulebook.ofGrammars rules) g).observe s).IsPlain
        outcome := by
  have hPlain : (Rulebook.parser perform bound' (Rulebook.ofGrammars rules) g).observe s =
      outcome := by
    rw [← hOutcome] at hEnds ⊢
    exact Rulebook.observe_eq_of_le perform rules g s hBound hEnds
  have hRelated {m : Type → Type} [Computation m] (S : Simulation Plain m)
      (perform' : {α : Type} → ε α → m α) (hBound : S.bounds bound' bound') :
      S.rel Eq outcome
        ((Rulebook.parser perform' bound' (Rulebook.ofGrammars rules) g).observe s) := by
    rw [← hPlain]
    exact (Rulebook.related_of_effectFree perform perform' hBound hRules hg).observe s
  refine ⟨fun m _ _ perform' => ?_, fun perform' => ?_, fun ν ω perform' => ?_⟩
  · exact (hRelated (.ofPlain m) perform' rfl).eq_ofPlain
  · have hTrace := (hRelated (.ofPlain Trace) perform' rfl).eq_ofPlain
    rw [hTrace]
    cases outcome <;> rfl
  · exact (hRelated (.byContinuation ν ω) perform' rfl).isPlain

/-- Two runes are read from `ab`, with two rounds to spare. -/
theorem effectFree_observe_repeated :
    let g : Grammar Rune Unit (fun _ => Empty) (fun _ => Empty) (List Rune) := Grammar.anyToken.many
    let start : State Text Unit := ⟨.ofBytes [] [97, 98], ()⟩
    let p (m : Type → Type) [Computation m] (bound : Nat) : Parser m Text Unit (List Rune) :=
      Rulebook.parser nofun bound (Rulebook.ofGrammars nofun) g
    ∃ t, (p Plain 3).observe start = .ok t ∧ t.consumed = true ∧
      (p Maybe 5).observe start = .just t ∧ (p (Either Bytes) 5).observe start = .right t ∧
      (p Trace 5).observe start = .ok (t, .empty) ∧
      Cont.Calls t ((p (Cont Unit Unit) 5).observe start) := by
  intro g start p
  have hBound : 3 ≤ 5 := by decide
  have hRead : (p Plain 3).observe start = .ok _ := rfl
  obtain ⟨hLawful, hTrace, hCont⟩ :=
    effectFree_observe (g := g) nofun nofun nofun trivial hRead nofun hBound
  exact ⟨_, hRead, rfl, hLawful Maybe nofun, hLawful (Either Bytes) nofun, hTrace nofun,
    hCont Unit Unit nofun⟩

end Descent

import Descent.Proofs.Computation.Bases
import Descent.Proofs.Computation.Coupling

/-! # Simulations between base computations

A simulation relates the computations of two bases: it is closed under values, sequencing, faults
and loops, so that one program run in both is related step by step. What the relation says is left
to each simulation. Here are those that start from plain evaluation, with more rounds or in another
base, and the one that reads the log of a trace. -/

namespace Descent

variable {α α' β β' : Type}

/-- A relation of computations that the operations of a base respect. Bounds on rounds may differ
between the two sides. -/
structure Simulation (m n : Type → Type) [Computation m] [Computation n] where
  rel {α α' : Type} : (α → α' → Prop) → m α → n α' → Prop
  bounds : Nat → Nat → Prop
  pure {α α' : Type} {r : α → α' → Prop} {a : α} {a' : α'} : r a a' → rel r (pure a) (pure a')
  bind {α α' β β' : Type} {r : α → α' → Prop} {q : β → β' → Prop} {x : m α} {x' : n α'}
    {f : α → m β} {f' : α' → n β'} : rel r x x' → (∀ a a', r a a' → rel q (f a) (f' a')) →
    rel q (x >>= f) (x' >>= f')
  fault {α α' : Type} {r : α → α' → Prop} (f : Fault) :
    rel r (Computation.fault f) (Computation.fault f)
  loop {α α' β β' : Type} {r : α → α' → Prop} {q : β → β' → Prop} {step : β → m (Turn β α)}
    {step' : β' → n (Turn β' α')} {rounds rounds' : Nat} : bounds rounds rounds' →
    (∀ b b', q b b' → rel (Turn.Related q r) (step b) (step' b')) → ∀ {b : β} {b' : β'}, q b b' →
    rel r (Computation.loop rounds step b) (Computation.loop rounds' step' b')

namespace Simulation

variable {m n : Type → Type} [Computation m] [Computation n] (S : Simulation m n)

theorem bind_eq {q : β → β' → Prop} {x : m α} {x' : n α} {f : α → m β} {f' : α → n β'}
    (hx : S.rel Eq x x') (hf : ∀ a, S.rel q (f a) (f' a)) : S.rel q (x >>= f) (x' >>= f') := by
  apply S.bind hx
  rintro a _ rfl
  exact hf a

/-- Both sides record related events, or neither records any. -/
def Tells : Prop :=
  Option.Rel (fun tell tell' => ∀ e, S.rel Eq (tell e) (tell' e))
    (Computation.tell? : Option (Event → m Unit)) (Computation.tell? : Option (Event → n Unit))

end Simulation

/-- What the computations of a base are carried to, simulated in place of them. -/
def Simulation.along {m n o : Type → Type} [Computation m] [Computation n] [Computation o]
    (φ : Transfer m n) (S : Simulation n o) : Simulation m o where
  rel r x y := S.rel r (φ.carry x) y
  bounds := S.bounds
  pure h := by
    rw [φ.carry_pure]
    exact S.pure h
  bind hx hf := by
    rw [φ.carry_bind]
    exact S.bind hx hf
  fault f := by
    rw [φ.carry_fault]
    exact S.fault f
  loop hRounds hStep _ _ hSeed := by
    rw [φ.carry_loop]
    exact S.loop hRounds hStep hSeed

/-! ## More rounds -/

namespace Plain

/-- Whatever the first evaluation comes to, short of its bound, the second comes to as well. -/
inductive Approximates (r : α → α' → Prop) : Plain α → Plain α' → Prop where
  | exhausted (x' : Plain α') : Approximates r (.error .exhausted) x'
  | ok {a : α} {a' : α'} : r a a' → Approximates r (.ok a) (.ok a')
  | error (f : Fault) : Approximates r (.error f) (.error f)

namespace Approximates

variable {r : α → α' → Prop} {q : β → β' → Prop}

theorem bind {x : Plain α} {x' : Plain α'} {f : α → Plain β} {f' : α' → Plain β'}
    (hx : Approximates r x x') (hf : ∀ a a', r a a' → Approximates q (f a) (f' a')) :
    Approximates q (x >>= f) (x' >>= f') := by
  cases hx with
  | exhausted x' => exact .exhausted _
  | ok h => exact hf _ _ h
  | error f => exact .error f

theorem loop {step : β → Plain (Turn β α)} {step' : β' → Plain (Turn β' α')}
    {rounds rounds' : Nat} (hRounds : rounds ≤ rounds')
    (hStep : ∀ b b', q b b' → Approximates (Turn.Related q r) (step b) (step' b')) {b : β} {b' : β'}
    (hSeed : q b b') : Approximates r (Plain.loop rounds step b) (Plain.loop rounds' step' b') := by
  induction rounds generalizing rounds' b b' with
  | zero => exact .exhausted _
  | succ rounds ih =>
    obtain ⟨more, rfl⟩ : ∃ more, rounds' = more + 1 := ⟨rounds' - 1, by omega⟩
    rw [Plain.loop, Plain.loop]
    have hRound := hStep b b' hSeed
    generalize step b = turn at hRound
    generalize step' b' = turn' at hRound
    cases hRound with
    | exhausted _ => exact .exhausted _
    | error f => exact .error f
    | ok hTurn =>
      cases hTurn with
      | next hSeed => exact ih (by omega) hSeed
      | done hResult => exact .ok hResult

theorem eq {x x' : Plain α} (hx : Approximates Eq x x') (hEnds : x ≠ .error .exhausted) :
    x' = x := by
  cases hx with
  | exhausted _ => exact absurd rfl hEnds
  | ok h => rw [h]
  | error f => rfl

end Approximates

end Plain

def Simulation.moreRounds : Simulation Plain Plain where
  rel := Plain.Approximates
  bounds := (· ≤ ·)
  pure := .ok
  bind := .bind
  fault := .error
  loop := .loop

/-! ## From plain evaluation to another base -/

/-- The computation of a value or a fault, without any effect. -/
def Computation.ofPlain {m : Type → Type} [Computation m] : Plain α → m α
  | .ok a => pure a
  | .error f => Computation.fault f

/-- A base computation in which values and faults pass as in plain evaluation. Nothing is asked of
computations with effects. -/
class Conservative (m : Type → Type) [Computation m] : Prop where
  ok_bind {α β : Type} (a : α) (f : α → m β) : pure a >>= f = f a
  error_bind {α β : Type} (f : Fault) (k : α → m β) :
    (Computation.fault f : m α) >>= k = Computation.fault f
  loop_zero {α β : Type} (step : β → m (Turn β α)) (seed : β) :
    Computation.loop 0 step seed = Computation.fault .exhausted
  loop_next {α β : Type} {step : β → m (Turn β α)} {seed seed' : β} (rounds : Nat) :
    step seed = pure (.next seed') →
    Computation.loop (rounds + 1) step seed = Computation.loop rounds step seed'
  loop_done {α β : Type} {step : β → m (Turn β α)} {seed : β} {result : α} (rounds : Nat) :
    step seed = pure (.done result) → Computation.loop (rounds + 1) step seed = pure result
  loop_fault {α β : Type} {step : β → m (Turn β α)} {seed : β} {f : Fault} (rounds : Nat) :
    step seed = Computation.fault f →
    Computation.loop (rounds + 1) step seed = Computation.fault f

section

variable {m : Type → Type} [Computation m] [LawfulComputation m]

instance (priority := low) : Conservative m where
  ok_bind a f := pure_bind a f
  error_bind := fault_bind
  loop_zero _ _ := LawfulComputation.loop_zero
  loop_next rounds h := by
    rw [LawfulComputation.loop_succ, h, pure_bind, Turn.proceed]
  loop_done rounds h := by
    rw [LawfulComputation.loop_succ, h, pure_bind, Turn.proceed]
  loop_fault rounds h := by
    rw [LawfulComputation.loop_succ, h, fault_bind]

end

theorem Trace.pure_bind (a : α) (f : α → Trace β) : pure a >>= f = f a := by
  change Trace.bind (.ok (a, .empty)) f = f a
  unfold Trace.bind
  dsimp only
  rcases f a with fault | ⟨b, log⟩ <;> rfl

instance : Conservative Trace where
  ok_bind := Trace.pure_bind
  error_bind _ _ := rfl
  loop_zero _ _ := rfl
  loop_next {α β step seed seed'} rounds h := by
    change Trace.loopAfter step (rounds + 1) .empty seed = Trace.loopAfter step rounds .empty seed'
    rw [Trace.loopAfter, h]
    rfl
  loop_done {α β step seed result} rounds h := by
    change Trace.loopAfter step (rounds + 1) .empty seed = _
    rw [Trace.loopAfter, h]
    rfl
  loop_fault {α β step seed f} rounds h := by
    change Trace.loopAfter step (rounds + 1) .empty seed = _
    rw [Trace.loopAfter, h]
    rfl

/-- Values are carried over as values without effects, and faults as the same faults. -/
inductive Plain.CarriedTo {m : Type → Type} [Computation m] (r : α → α' → Prop) :
    Plain α → m α' → Prop where
  | ok {a : α} {a' : α'} : r a a' → CarriedTo r (.ok a) (pure a')
  | error (f : Fault) : CarriedTo r (.error f) (Computation.fault f)

namespace Plain.CarriedTo

variable {m : Type → Type} [Computation m]

theorem eq_ofPlain {x : Plain α} {y : m α} (h : CarriedTo Eq x y) : y = Computation.ofPlain x := by
  cases h with
  | ok h => exact congrArg _ h.symm
  | error f => rfl

variable [Conservative m] {r : α → α' → Prop} {q : β → β' → Prop}

theorem bind {x : Plain α} {y : m α'} {f : α → Plain β} {g : α' → m β'}
    (hx : CarriedTo r x y) (hf : ∀ a a', r a a' → CarriedTo q (f a) (g a')) :
    CarriedTo q (x >>= f) (y >>= g) := by
  cases hx with
  | ok h =>
    rw [Conservative.ok_bind]
    exact hf _ _ h
  | error f =>
    rw [Conservative.error_bind]
    exact .error f

theorem loop {step : β → Plain (Turn β α)} {step' : β' → m (Turn β' α')}
    (hStep : ∀ b b', q b b' → CarriedTo (Turn.Related q r) (step b) (step' b')) (rounds : Nat)
    {b : β} {b' : β'} (hSeed : q b b') :
    CarriedTo r (Plain.loop rounds step b) (Computation.loop rounds step' b') := by
  induction rounds generalizing b b' with
  | zero =>
    rw [Conservative.loop_zero]
    exact .error .exhausted
  | succ rounds ih =>
    rw [Plain.loop]
    have hRound := hStep b b' hSeed
    generalize step b = turn at hRound
    generalize hTurn' : step' b' = turn' at hRound
    cases hRound with
    | error f =>
      rw [Conservative.loop_fault rounds hTurn']
      exact .error f
    | ok hTurn =>
      cases hTurn with
      | next hSeed =>
        rw [Conservative.loop_next rounds hTurn']
        exact ih hSeed
      | done hResult =>
        rw [Conservative.loop_done rounds hTurn']
        exact .ok hResult

end Plain.CarriedTo

def Simulation.ofPlain (m : Type → Type) [Computation m] [Conservative m] : Simulation Plain m where
  rel := Plain.CarriedTo
  bounds := Eq
  pure := .ok
  bind := .bind
  fault := .error
  loop {_ _ _ _ _ _ _ _ rounds _} hRounds hStep _ _ hSeed := hRounds ▸ .loop hStep rounds hSeed

/-! ## Through what is read -/

/-- What is read of both sides in a third base is coupled. -/
def Simulation.through {m n o : Type → Type} [Computation m] [Computation n] [Computation o]
    [UniformComputation o] (φ : Transfer m o) (ψ : Transfer n o) : Simulation m n where
  rel r x y := Coupled r (φ.carry x) (ψ.carry y)
  bounds := Eq
  pure h := by
    rw [φ.carry_pure, ψ.carry_pure]
    exact .pure h
  bind hx hf := by
    rw [φ.carry_bind, ψ.carry_bind]
    exact hx.bind hf
  fault f := by
    rw [φ.carry_fault, ψ.carry_fault]
    exact .fault f
  loop hRounds hStep _ _ hSeed := by
    cases hRounds
    rw [φ.carry_loop, ψ.carry_loop]
    exact .loop hStep _ hSeed

/-- Related values behind the same events, or the same fault. -/
abbrev Writer.Alike (r : α → α' → Prop) (x : Writer α) (y : Writer α') : Prop := Coupled r x y

/-- The events of a trace, read off its log, are those of the writer. -/
def Simulation.events : Simulation Trace Writer := .through Transfer.events (.refl Writer)

theorem Simulation.events_tells : events.Tells := .some fun e => Coupled.refl (Writer.tell e)

end Descent

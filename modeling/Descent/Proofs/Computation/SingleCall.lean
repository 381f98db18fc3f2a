import Descent.Proofs.Computation.Ledger
import Descent.Proofs.Computation.Simulation

/-! # Evaluation by continuation

A computation by continuation whose only effects are aborts calls its continuation once and returns
what it returns, through all the rounds that it has started on the way, or it ends without calling
it, in an escape or in a fault. Which of these, and with which value, is what evaluation with aborts
says. Plain evaluation is the case without aborts. -/

namespace Descent

open Ledger

variable {α α' β β' ν ω : Type}

/-- The signal unwinds to no round from `number` on. -/
def Signal.UnwindsBelow (number : Nat) : Signal ν ω → Prop
  | .rewind target _ => target < number
  | .answer _ | .fault _ => True

theorem Signal.UnwindsBelow.mono {number number' : Nat} {signal : Signal ν ω}
    (h : signal.UnwindsBelow number) (hLe : number ≤ number') : signal.UnwindsBelow number' := by
  cases signal with
  | rewind target rest => exact Nat.lt_of_lt_of_le h hLe
  | answer a => trivial
  | fault f => trivial

def Ledger.markAllReturned (l : Ledger) (rounds : List Nat) : Ledger :=
  rounds.foldl markReturned l

theorem Ledger.Extends.markAllReturned {l l' : Ledger} (h : Extends l l') {rounds : List Nat}
    (hRounds : ∀ number ∈ rounds, l.size ≤ number) : Extends l (l'.markAllReturned rounds) := by
  induction rounds generalizing l' with
  | nil => exact h
  | cons number rounds ih =>
    rw [List.forall_mem_cons] at hRounds
    exact ih (h.markReturned hRounds.1) hRounds.2

namespace Cont

/-- The one thing the computation does is to call its continuation with `a`, in a ledger with
further rounds; the signal is passed on, and the rounds have returned. A continuation that comes
after the computation cannot unwind to these rounds. -/
def Calls (a : α) (x : Cont ν ω α) : Prop :=
  ∀ l, ∃ later rounds, Extends l later ∧ (∀ number ∈ rounds, l.size ≤ number) ∧
    ∀ k, (k a later).1.UnwindsBelow l.size →
      x k l = ((k a later).1, (k a later).2.markAllReturned rounds)

/-- The computation ends with a signal of its own and never calls its continuation. -/
def Ends (signal : Signal ν ω) (x : Cont ν ω α) : Prop := ∀ l, ∃ later, ∀ k, x k l = (signal, later)

/-- The computation ends in a fault and never calls its continuation. -/
def Faults (f : Fault) (x : Cont ν ω α) : Prop := ∀ l, ∃ later, ∀ k, x k l = (.fault f, later)

/-- The computation leaves with a value and never calls its continuation. -/
def Escapes (value : ν) (x : Cont ν ω α) : Prop := x.Ends (.answer (.escaped value))

theorem calls_pure (a : α) : Calls a (pure a : Cont ν ω α) :=
  fun l => ⟨l, [], .refl l, nofun, fun _ _ => rfl⟩

theorem faults_fault (f : Fault) : Faults f (Computation.fault f : Cont ν ω α) :=
  fun l => ⟨l, fun _ => rfl⟩

theorem escapes_escape (value : ν) : Escapes value (escape value : Cont ν ω α) :=
  fun l => ⟨l, fun _ => rfl⟩

theorem Calls.bind {a : α} {b : β} {x : Cont ν ω α} {f : α → Cont ν ω β} (hx : x.Calls a)
    (hf : (f a).Calls b) : (x >>= f).Calls b := by
  intro l
  obtain ⟨middle, rounds, hMiddle, hRounds, hx⟩ := hx l
  obtain ⟨later, rounds', hLater, hRounds', hf⟩ := hf middle
  refine ⟨later, rounds' ++ rounds, hMiddle.trans hLater, ?_, fun k hk => ?_⟩
  · intro number hNumber
    rcases List.mem_append.mp hNumber with h | h
    · exact hMiddle.size_le.trans (hRounds' number h)
    · exact hRounds number h
  · have hInner := hf k (hk.mono hMiddle.size_le)
    have hOuter := hx (fun a => f a k) (by rwa [hInner])
    rw [hInner] at hOuter
    change x (fun a => f a k) l = _
    rw [hOuter, markAllReturned, markAllReturned, markAllReturned, List.foldl_append]

theorem Calls.bind_ends {a : α} {signal : Signal ν ω} {x : Cont ν ω α} {f : α → Cont ν ω β}
    (hx : x.Calls a) (hf : (f a).Ends signal) (hSignal : signal.UnwindsBelow 0) :
    (x >>= f).Ends signal := by
  intro l
  obtain ⟨middle, rounds, -, -, hx⟩ := hx l
  obtain ⟨later, hf⟩ := hf middle
  refine ⟨later.markAllReturned rounds, fun k => ?_⟩
  have hOuter := hx (fun a => f a k) (by rw [hf]; exact hSignal.mono (Nat.zero_le _))
  rwa [hf] at hOuter

theorem Ends.bind {signal : Signal ν ω} {x : Cont ν ω α} (hx : x.Ends signal)
    (f : α → Cont ν ω β) : (x >>= f).Ends signal := by
  intro l
  obtain ⟨later, hx⟩ := hx l
  exact ⟨later, fun k => hx fun a => f a k⟩

/-! ## Rounds -/

variable {step : β → Cont ν ω (Turn β α)} {seed seed' : β}

/-- A round that goes on unwinds to its loop and is followed there by the next. -/
theorem loop_of_calls_next (rounds : Nat) (h : (step seed).Calls (.next seed')) (l : Ledger) :
    ∃ later, Extends l later ∧
      ∀ k, loop (rounds + 1) step seed k l = loop rounds step seed' k later := by
  obtain ⟨later, returned, hLater, hReturned, hStep⟩ := h l.start
  have hNew : l.size < l.start.size := by simp
  have hOpen : later.isContinued l.size = false := by
    rw [hLater.isContinued l.size hNew, isContinued_start]
  have hRunning : later.isRunning l.size = true := by
    rw [hLater.isRunning l.size hNew, isRunning_start]
  refine ⟨((later.markContinued l.size).markAllReturned returned).markReturned l.size, ?_, ?_⟩
  · have hReturned' : ∀ number ∈ returned, l.size ≤ number :=
      fun number hMem => hNew.le.trans (hReturned number hMem)
    exact ((((Extends.start l).trans hLater).markContinued le_rfl).markAllReturned
      hReturned').markReturned le_rfl
  · intro k
    have hContinued :
        continuation (round step k rounds) k rounds l.size (.next seed') later =
          (.rewind l.size (round step k rounds seed'), later.markContinued l.size) := by
      simp [continuation, hOpen, hRunning]
    have hRound := hStep (continuation (round step k rounds) k rounds l.size)
      (by rw [hContinued]; exact hNew)
    rw [hContinued] at hRound
    simp [loop, drive, round_succ, hRound]

theorem calls_loop_of_done {a : α} (rounds : Nat) (h : (step seed).Calls (.done a)) :
    (loop (rounds + 1) step seed).Calls a := by
  intro l
  obtain ⟨later, returned, hLater, hReturned, hStep⟩ := h l.start
  have hNew : l.size < l.start.size := by simp
  have hOpen : later.isContinued l.size = false := by
    rw [hLater.isContinued l.size hNew, isContinued_start]
  refine ⟨later.markContinued l.size, returned ++ [l.size],
    ((Extends.start l).trans hLater).markContinued le_rfl, ?_, fun k hk => ?_⟩
  · intro number hMem
    rcases List.mem_append.mp hMem with h | h
    · exact hNew.le.trans (hReturned number h)
    · exact (List.mem_singleton.mp h).ge
  · have hContinued : continuation (round step k rounds) k rounds l.size (.done a) later =
        k a (later.markContinued l.size) := by
      simp [continuation, hOpen]
    have hRound := hStep (continuation (round step k rounds) k rounds l.size)
      (by rw [hContinued]; exact hk.mono hNew.le)
    rw [hContinued] at hRound
    rw [markAllReturned, List.foldl_append]
    change drive (rounds + 1) (round step k (rounds + 1) seed) l = _
    rw [drive, round_succ, hRound]
    -- The continuation does not unwind to this loop, so that its signal is passed on.
    generalize k a (later.markContinued l.size) = result at hk
    obtain ⟨signal, after⟩ := result
    cases signal with
    | rewind target rest => simp [Nat.ne_of_lt hk, markAllReturned]
    | answer a => simp [markAllReturned]
    | fault f => simp [markAllReturned]

theorem ends_loop {signal : Signal ν ω} (rounds : Nat) (h : (step seed).Ends signal)
    (hSignal : signal.UnwindsBelow 0) : (loop (rounds + 1) step seed).Ends signal := by
  intro l
  obtain ⟨later, hStep⟩ := h l.start
  refine ⟨later.markReturned l.size, fun k => ?_⟩
  cases signal with
  | rewind target rest => exact absurd hSignal (Nat.not_lt_zero target)
  | answer a => simp [loop, drive, round_succ, hStep]
  | fault f => simp [loop, drive, round_succ, hStep]

/-- What evaluation with aborts comes to, done by continuation. -/
inductive Follows (r : α → α' → Prop) : Either ν α → Cont ν ω α' → Prop where
  | right {a : α} {a' : α'} {x : Cont ν ω α'} : r a a' → x.Calls a' → Follows r (.right a) x
  | left {reason : ν} {x : Cont ν ω α'} : x.Escapes reason → Follows r (.left reason) x
  | error {f : Fault} {x : Cont ν ω α'} : x.Faults f → Follows r (.error f) x

namespace Follows

variable {r : α → α' → Prop} {q : β → β' → Prop}

theorem of_later {outcome : Either ν α} {x y : Cont ν ω α'} (hy : Follows r outcome y)
    (hx : ∀ l, ∃ middle, Extends l middle ∧ ∀ k, x k l = y k middle) : Follows r outcome x := by
  have hEnds : ∀ {signal : Signal ν ω}, y.Ends signal → x.Ends signal := by
    intro signal hy l
    obtain ⟨middle, -, hx⟩ := hx l
    obtain ⟨later, hy⟩ := hy middle
    exact ⟨later, fun k => (hx k).trans (hy k)⟩
  cases hy with
  | error hFault => exact .error (hEnds hFault)
  | left hEscape => exact .left (hEnds hEscape)
  | right hResult hCalls =>
    refine .right hResult fun l => ?_
    obtain ⟨middle, hMiddle, hx⟩ := hx l
    obtain ⟨later, rounds, hLater, hRounds, hCalls⟩ := hCalls middle
    refine ⟨later, rounds, hMiddle.trans hLater,
      fun number hMem => hMiddle.size_le.trans (hRounds number hMem), fun k hk => ?_⟩
    exact (hx k).trans (hCalls k (hk.mono hMiddle.size_le))

theorem bind {x : Either ν α} {y : Cont ν ω α'} {f : α → Either ν β}
    {g : α' → Cont ν ω β'} (hx : Follows r x y) (hf : ∀ a a', r a a' → Follows q (f a) (g a')) :
    Follows q (x >>= f) (y >>= g) := by
  cases hx with
  | error hFault => exact .error (Ends.bind hFault g)
  | left hEscape => exact .left (Ends.bind hEscape g)
  | @right a a' _ h hCalls =>
    change Follows q (f a) (y >>= g)
    have hNext := hf a a' h
    generalize f a = next at hNext
    cases hNext with
    | right hResult hNext => exact .right hResult (hCalls.bind hNext)
    | left hNext => exact .left (hCalls.bind_ends hNext trivial)
    | error hNext => exact .error (hCalls.bind_ends hNext trivial)

theorem loop {step : β → Either ν (Turn β α)} {step' : β' → Cont ν ω (Turn β' α')}
    (hStep : ∀ b b', q b b' → Follows (Turn.Related q r) (step b) (step' b')) (rounds : Nat) {b : β}
    {b' : β'} (hSeed : q b b') :
    Follows r (Either.loop rounds step b) (Cont.loop rounds step' b') := by
  induction rounds generalizing b b' with
  | zero => exact .error (faults_fault .exhausted)
  | succ rounds ih =>
    rw [Either.loop]
    have hRound := hStep b b' hSeed
    generalize step b = turn at hRound
    cases hRound with
    | error hFault => exact .error (ends_loop rounds hFault trivial)
    | left hEscape => exact .left (ends_loop rounds hEscape trivial)
    | right hTurn hCalls =>
      cases hTurn with
      | done hResult => exact .right hResult (calls_loop_of_done rounds hCalls)
      | next hSeed => exact (ih hSeed).of_later (loop_of_calls_next rounds hCalls)

end Follows

end Cont

/-- Evaluation with aborts, where an abort is an escape. -/
def Simulation.escaping (ν ω : Type) : Simulation (Either ν) (Cont ν ω) where
  rel := Cont.Follows
  bounds := Eq
  pure h := .right h (Cont.calls_pure _)
  bind := .bind
  fault f := .error (Cont.faults_fault f)
  loop {_ _ _ _ _ _ _ _ rounds _} hRounds hStep _ _ hSeed := hRounds ▸ .loop hStep rounds hSeed

/-- Plain evaluation as evaluation without aborts. -/
def Transfer.unaborted (ν : Type) : Transfer Plain (Either ν) where
  carry := Computation.ofPlain
  carry_pure _ := rfl
  carry_bind x f := by cases x <;> rfl
  carry_fault _ := rfl
  carry_loop rounds step seed := by
    induction rounds generalizing seed with
    | zero => rfl
    | succ rounds ih =>
      change Computation.ofPlain (Plain.loop (rounds + 1) step seed) =
        Either.loop (rounds + 1) (fun b => Computation.ofPlain (step b)) seed
      rw [Plain.loop, Either.loop]
      rcases step seed with f | next | result
      · rfl
      · exact ih next
      · rfl

def Simulation.byContinuation (ν ω : Type) : Simulation Plain (Cont ν ω) :=
  .along (.unaborted ν) (.escaping ν ω)

end Descent

import Descent.Proofs.Computation.Bases
import Descent.Proofs.Computation.Simulation

/-! # Loops are nested sequencing

Evaluation with and without aborts and the writer of event trees run their loops round by round,
each by a recursion of its own that carries the seed, and for the writer the log. Wherever such a
loop ends, it is its first round followed by the same loop from the next seed, so it is the nested
unrolling too. A round that aborts ends the loop as it stands, and the events of an ended loop are
those of its rounds in order. -/

namespace Descent

variable {α β : Type}

/-- A loop is its first round followed by itself. -/
structure LoopLaw (m : Type → Type) [Computation m] (alike : {α : Type} → m α → m α → Prop) :
    Prop where
  round {α β : Type} {step : β → m (Turn β α)} {rounds : Nat} {seed : β} :
    Computation.loop rounds step seed ≠ Computation.fault .exhausted →
    alike (Computation.loop rounds step seed)
      (step seed >>= Turn.proceed (Computation.loop rounds step))
  nested {α β : Type} (step : β → m (Turn β α)) (rounds : Nat) (seed : β) :
    alike (Computation.loop rounds step seed)
      (unrolled (Computation.fault .exhausted) step rounds seed)
  /-- The bound does not matter once it is large enough. -/
  settled {α β : Type} {step : β → m (Turn β α)} {rounds more : Nat} {seed : β} :
    Computation.loop rounds step seed ≠ Computation.fault .exhausted → rounds ≤ more →
    alike (Computation.loop more step seed) (Computation.loop rounds step seed)

/-! ## Bounds -/

/-- A base computation that does not hide a reached bound: where the whole has not reached it, what
follows counts only at values from which it does not reach it either. -/
class BoundedComputation (m : Type → Type) [Computation m] : Prop where
  bind_congr {α β : Type} {x : m α} {f g : α → m β} :
    x >>= f ≠ Computation.fault .exhausted →
    (∀ a, f a ≠ Computation.fault .exhausted → g a = f a) → x >>= g = x >>= f

open LawfulComputation

section

variable {m : Type → Type} [Computation m] [LawfulComputation m] [BoundedComputation m]
  {step : β → m (Turn β α)} {rounds : Nat} {seed : β}

theorem loop_succ_eq
    (hEnds : Computation.loop rounds step seed ≠ Computation.fault .exhausted) :
    Computation.loop (rounds + 1) step seed = Computation.loop rounds step seed := by
  induction rounds generalizing seed with
  | zero => exact absurd loop_zero hEnds
  | succ rounds ih =>
    rw [loop_succ] at hEnds
    rw [loop_succ, loop_succ]
    apply BoundedComputation.bind_congr hEnds
    intro turn hTurn
    cases turn with
    | next seed => exact ih hTurn
    | done result => rfl

theorem loop_settled {more : Nat}
    (hEnds : Computation.loop rounds step seed ≠ Computation.fault .exhausted)
    (hMore : rounds ≤ more) :
    Computation.loop more step seed = Computation.loop rounds step seed := by
  induction hMore with
  | refl => rfl
  | step _ ih =>
    rw [← ih] at hEnds
    rw [loop_succ_eq hEnds, ih]

theorem loop_round
    (hEnds : Computation.loop rounds step seed ≠ Computation.fault .exhausted) :
    Computation.loop rounds step seed =
      step seed >>= Turn.proceed (Computation.loop rounds step) := by
  rw [← loop_succ_eq hEnds, loop_succ]

end

/-- The law holds up to what a translation to a lawful computation tells, if that tells whether the
bound was reached. -/
theorem Transfer.loopLaw {m n : Type → Type} [Computation m] [Computation n] [LawfulComputation n]
    [BoundedComputation n] (φ : Transfer m n)
    (hTells : ∀ {α : Type} {x : m α},
      φ.carry x = Computation.fault .exhausted → x = Computation.fault .exhausted) :
    LoopLaw m fun x y => φ.carry x = φ.carry y where
  round {α β step rounds seed} hEnds := by
    have hCarried := hEnds ∘ hTells
    rw [φ.carry_loop] at hCarried
    rw [φ.carry_loop, loop_round hCarried, φ.carry_bind]
    congr 1
    funext turn
    cases turn with
    | next seed => exact (φ.carry_loop rounds step seed).symm
    | done result => exact (φ.carry_pure result).symm
  nested {α β} step rounds seed := by
    rw [φ.carry_loop]
    induction rounds generalizing seed with
    | zero => rw [loop_zero, unrolled, φ.carry_fault]
    | succ rounds ih =>
      rw [loop_succ, unrolled, φ.carry_bind]
      congr 1
      funext turn
      cases turn with
      | next seed => exact ih seed
      | done result => exact (φ.carry_pure result).symm
  settled {α β step rounds more seed} hEnds hMore := by
    have hCarried := hEnds ∘ hTells
    rw [φ.carry_loop] at hCarried
    rw [φ.carry_loop, φ.carry_loop, loop_settled hCarried hMore]

theorem loopLaw {m : Type → Type} [Computation m] [LawfulComputation m] [BoundedComputation m] :
    LoopLaw m Eq :=
  (Transfer.refl m).loopLaw id

instance : BoundedComputation Plain where
  bind_congr {_ _ x f g} hQuiet hSame := by
    rcases x with fault | a
    · rfl
    · exact hSame a hQuiet

instance : BoundedComputation Maybe where
  bind_congr {_ _ x f g} hQuiet hSame := by
    rcases x with fault | _ | a
    · rfl
    · rfl
    · exact hSame a hQuiet

instance {ε : Type} : BoundedComputation (Either ε) where
  bind_congr {_ _ x f g} hQuiet hSame := by
    rcases x with fault | reason | a
    · rfl
    · rfl
    · exact hSame a hQuiet

instance : BoundedComputation Writer where
  bind_congr {_ _ x f g} hQuiet hSame := by
    rcases x with fault | ⟨a, events⟩
    · rfl
    · change Writer.after events (f a) ≠ _ at hQuiet
      change Writer.after events (g a) = Writer.after events (f a)
      rw [hSame a]
      intro hFault
      rw [hFault] at hQuiet
      exact hQuiet rfl

theorem Trace.eq_fault_of_toWriter {x : Trace α} {f : Fault}
    (h : x.toWriter = Computation.fault f) : x = Computation.fault f := by
  rcases x with g | ⟨a, log⟩
  · cases h
    rfl
  · cases h

/-! ## The rounds of a loop -/

/-- Rounds that are followed by another one: their seeds, from the first one on, and the seed after
them. -/
inductive Leads (follows : β → β → Prop) : β → List β → β → Prop where
  | stay (seed : β) : Leads follows seed [] seed
  | next {seed after last : β} {seeds : List β} :
    follows seed after → Leads follows after seeds last → Leads follows seed (seed :: seeds) last

theorem Leads.congr {follows follows' : β → β → Prop} {seed last : β} {seeds : List β}
    (h : Leads follows seed seeds last)
    (hSame : ∀ b ∈ seeds, ∀ c, follows b c → follows' b c) : Leads follows' seed seeds last := by
  induction h with
  | stay seed => exact .stay seed
  | next hFollows _ ih =>
    rw [List.forall_mem_cons] at hSame
    exact .next (hSame.1 _ hFollows) (ih hSame.2)

theorem Leads.loop_eq {m : Type → Type} [Computation m] [Conservative m]
    {step : β → m (Turn β α)} {seed last : β} {seeds : List β}
    (h : Leads (fun b c => step b = pure (.next c)) seed seeds last) (more : Nat) :
    Computation.loop (more + seeds.length) step seed = Computation.loop more step last := by
  induction h with
  | stay seed => rfl
  | next hNext _ ih =>
    rw [List.length_cons, ← Nat.add_assoc, Conservative.loop_next _ hNext, ih]

/-- A round that comes to `x` ends the loop with `x`, whatever rounds from other seeds would come
to. -/
def EndsLoops (m : Type → Type) [Computation m] (x : (α : Type) → m α) : Prop :=
  ∀ (α β : Type) (step step' : β → m (Turn β α)) (seed last : β) (seeds : List β) (rounds : Nat),
    Leads (fun b c => step b = pure (.next c)) seed seeds last → step last = x (Turn β α) →
    seeds.length < rounds → (∀ b ∈ seeds ++ [last], step' b = step b) →
    Computation.loop rounds step' seed = x α

theorem endsLoops {m : Type → Type} [Computation m] [LawfulComputation m]
    {x : (α : Type) → m α} (hStops : ∀ (α β : Type) (f : α → m β), x α >>= f = x β) :
    EndsLoops m x := by
  intro α β step step' seed last seeds rounds hLeads hLast hRounds hSame
  rw [List.forall_mem_append, List.forall_mem_singleton] at hSame
  have hLeads' : Leads (fun b c => step' b = pure (.next c)) seed seeds last :=
    hLeads.congr fun b hb c hNext => (hSame.1 b hb).trans hNext
  obtain ⟨more, rfl⟩ : ∃ more, rounds = more + 1 + seeds.length :=
    ⟨rounds - seeds.length - 1, by omega⟩
  rw [hLeads'.loop_eq, loop_succ, hSame.2, hLast]
  exact hStops _ _ _

namespace Trace

/-- The events recorded by a computation that delivers a value. -/
def events : Trace α → List Event
  | .ok (_, log) => log.toList
  | .error _ => []

def GoesOn (step : β → Trace (Turn β α)) (b c : β) : Prop := ∃ log, step b = .ok (.next c, log)

theorem loopAfter_eq_ok {step : β → Trace (Turn β α)} {rounds : Nat} {before whole : EventLog}
    {seed : β} {result : α} (h : loopAfter step rounds before seed = .ok (result, whole)) :
    ∃ seeds last, Leads (GoesOn step) seed seeds last ∧ seeds.length < rounds ∧
      (∃ log, step last = .ok (.done result, log)) ∧
      whole.toList = before.toList ++ (seeds ++ [last]).flatMap fun b => (step b).events := by
  induction rounds generalizing before seed with
  | zero => cases h
  | succ rounds ih =>
    rw [loopAfter] at h
    rcases hRound : step seed with fault | ⟨after | final, log⟩
    · rw [hRound] at h
      cases h
    · rw [hRound] at h
      obtain ⟨seeds, last, hLeads, hLength, hDone, hEvents⟩ := ih h
      refine ⟨seed :: seeds, last, .next ⟨log, hRound⟩ hLeads, Nat.succ_lt_succ hLength, hDone, ?_⟩
      rw [hEvents, EventLog.toList_append, List.append_assoc, List.cons_append, List.flatMap_cons,
        hRound]
      rfl
    · rw [hRound] at h
      cases h
      refine ⟨[], seed, .stay seed, Nat.succ_pos rounds, ⟨log, hRound⟩, ?_⟩
      rw [EventLog.toList_append, List.nil_append, List.flatMap_singleton, hRound]
      rfl

end Trace

/-- The loops that run round by round obey the law of loops; aborts end them as they stand, and they
record the events of all their rounds in order. -/
theorem loops_nested :
    LoopLaw Plain Eq ∧
      (LoopLaw Maybe Eq ∧ EndsLoops Maybe fun _ => .nothing) ∧
      (∀ ε : Type, LoopLaw (Either ε) Eq ∧
        ∀ reason : ε, EndsLoops (Either ε) fun _ => .left reason) ∧
      (LoopLaw Trace fun x y => x.toWriter = y.toWriter) ∧
      ∀ {α β : Type} (step : β → Trace (Turn β α)) (rounds : Nat) (seed : β) (result : α)
        (log : EventLog), Computation.loop rounds step seed = .ok (result, log) →
        ∃ seeds last, Leads (Trace.GoesOn step) seed seeds last ∧ seeds.length < rounds ∧
          (∃ more, step last = .ok (.done result, more)) ∧
          log.toList = (seeds ++ [last]).flatMap fun b => (step b).events := by
  refine ⟨loopLaw, ⟨loopLaw, endsLoops fun _ _ _ => rfl⟩, ?_, ?_, ?_⟩
  · exact fun ε => ⟨loopLaw, fun reason => endsLoops fun _ _ _ => rfl⟩
  · exact Transfer.events.loopLaw Trace.eq_fault_of_toWriter
  · exact fun step rounds seed result log h => Trace.loopAfter_eq_ok h

/-- A countdown that finds nothing at two, whatever it would come to beyond, and a trace of its
numbers down to two. -/
theorem loops_nested_countdown :
    let search (n : Nat) : Maybe (Turn Nat Nat) := if n = 2 then .nothing else .just (.next (n - 1))
    let beyond (n : Nat) : Maybe (Turn Nat Nat) :=
      if n < 2 then Computation.fault .emptyRound else search n
    let report (n : Nat) : Trace (Turn Nat Nat) := do
      Trace.tell (.enter [n.toUInt8] .zero)
      pure (if n = 2 then .done n else .next (n - 1))
    Computation.loop 9 beyond 4 = (.nothing : Maybe Nat) ∧
      Computation.loop 3 search 4 = search 4 >>= Turn.proceed (Computation.loop 3 search) ∧
      ∃ log, Computation.loop 3 report 4 = .ok (2, log) ∧
        log.toList = [.enter [4] .zero, .enter [3] .zero, .enter [2] .zero] := by
  intro search beyond report
  obtain ⟨-, ⟨hMaybe, hNothing⟩, -, -, hTrace⟩ := loops_nested
  have hLeads : Leads (fun b c => search b = pure (.next c)) 4 [4, 3] 2 :=
    .next rfl (.next rfl (.stay 2))
  have hSame : ∀ b ∈ [4, 3] ++ [2], beyond b = search b := by
    intro b hb
    have hAtLeast : ¬ b < 2 := by
      revert b
      decide
    exact if_neg hAtLeast
  refine ⟨hNothing _ _ search beyond 4 2 _ 9 hLeads rfl (by decide) hSame, hMaybe.round nofun, ?_⟩
  have hEnds : ∃ log, Computation.loop 3 report 4 = .ok (2, log) := ⟨_, rfl⟩
  obtain ⟨log, hLog⟩ := hEnds
  refine ⟨log, hLog, ?_⟩
  obtain ⟨seeds, last, hRounds, -, ⟨more, hLast⟩, hEvents⟩ := hTrace report 3 4 2 log hLog
  -- Each number but two is followed by the one below it.
  obtain - | ⟨⟨_, hFour⟩, hRounds⟩ := hRounds
  · cases hLast
  cases hFour
  obtain - | ⟨⟨_, hThree⟩, hRounds⟩ := hRounds
  · cases hLast
  cases hThree
  obtain - | ⟨⟨_, hTwo⟩, hRounds⟩ := hRounds
  · exact hEvents
  · cases hTwo

end Descent

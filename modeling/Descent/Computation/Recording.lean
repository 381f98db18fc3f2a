import Descent.Computation.Basic
import Descent.EventLog

/-! # Computations that record events

Two writers. `Trace` keeps its events in a tree and runs loops round by round; `Writer` keeps a
list and sequences rounds by nesting. They record the same events. -/

namespace Descent

/-- A value and the log of the events before it. -/
def Trace (α : Type) := Except Fault (α × EventLog)

namespace Trace

protected def pure {α : Type} (a : α) : Trace α := .ok (a, .empty)

protected def bind {α β : Type} (x : Trace α) (f : α → Trace β) : Trace β :=
  match x with
  | .error fault => .error fault
  | .ok (a, before) =>
    match f a with
    | .error fault => .error fault
    | .ok (b, after) => .ok (b, before ++ after)

instance : Monad Trace where
  pure := Trace.pure
  bind := Trace.bind

def tell (e : Event) : Trace Unit := .ok ((), .single e)

/-- Runs rounds until one is done, behind the log of the rounds before. -/
def loopAfter {α β : Type} (step : β → Trace (Turn β α)) : Nat → EventLog → β → Trace α
  | 0, _, _ => .error .exhausted
  | rounds + 1, log, seed =>
    match step seed with
    | .error f => .error f
    | .ok (.done result, more) => .ok (result, log ++ more)
    | .ok (.next seed, more) => loopAfter step rounds (log ++ more) seed

instance : Computation Trace where
  fault := .error
  loop rounds step seed := loopAfter step rounds .empty seed
  tell? := some tell

end Trace

def Writer (α : Type) := Except Fault (α × List Event)

namespace Writer

protected def pure {α : Type} (a : α) : Writer α := .ok (a, [])

protected def bind {α β : Type} (x : Writer α) (f : α → Writer β) : Writer β :=
  match x with
  | .error fault => .error fault
  | .ok (a, before) =>
    match f a with
    | .error fault => .error fault
    | .ok (b, after) => .ok (b, before ++ after)

instance : Monad Writer where
  pure := Writer.pure
  bind := Writer.bind

def tell (e : Event) : Writer Unit := .ok ((), [e])

instance : Computation Writer where
  fault := .error
  loop rounds step seed := unrolled (.error .exhausted) step rounds seed
  tell? := some tell

end Writer

end Descent

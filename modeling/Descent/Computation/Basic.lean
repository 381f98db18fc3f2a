import Descent.Event

/-! # Base computations

A parser runs inside a base computation: plain evaluation, failure, choice among several results,
a trace, or a continuation. Each can raise a fault, which no parser recovers from, can run a loop of
rounds, and may be able to record events.

A loop takes a bound on its rounds. The bound is there to make every definition total; a loop that
reaches it raises the fault `exhausted`. -/

namespace Descent

/-- What ends a whole run, beyond any parser's reach. -/
inductive Fault where
  /-- A repeated parser succeeded without consuming input. -/
  | emptyRound
  | resumedTwice
  /-- A bound on rounds or on the depth of rules was reached. -/
  | exhausted
  | unsupported
  | undefinedRule
  | strayRound
  deriving DecidableEq

def Fault.message : Fault → String
  | emptyRound => "parsec: many is applied to a parser that accepts an empty input"
  | resumedTwice => "parsec: loop continuation resumed twice"
  | exhausted => "bound on rounds or rules reached"
  | unsupported => "effect not supported by the base computation"
  | undefinedRule => "rule without a definition"
  | strayRound => "round continued outside its loop"

/-- How a round of a loop ends: with the seed of the next round, or with the loop's result. -/
inductive Turn (β α : Type) where
  | next (seed : β)
  | done (result : α)

class Computation (m : Type → Type) extends Monad m where
  fault {α : Type} : Fault → m α
  /-- Runs at most so many rounds of a step from a seed on. -/
  loop {α β : Type} : Nat → (β → m (Turn β α)) → β → m α
  /-- Records an event, where events can be recorded. -/
  tell? : Option (Event → m Unit)

/-- A loop by nested sequencing: each round runs inside the continuation of the one before. -/
def unrolled {m : Type → Type} [Monad m] {α β : Type} (exhausted : m α)
    (step : β → m (Turn β α)) : Nat → β → m α
  | 0, _ => exhausted
  | rounds + 1, seed => do
    match ← step seed with
    | .next seed => unrolled exhausted step rounds seed
    | .done result => pure result

end Descent

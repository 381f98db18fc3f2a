import Descent.Computation.Basic

/-! # Computations without a choice of results

Plain evaluation, evaluation that may find nothing, and evaluation that may be aborted with a
reason. Their loops keep no round alive once the next one starts. -/

namespace Descent

/-- Evaluation with nothing but faults. -/
abbrev Plain (α : Type) := Except Fault α

namespace Plain

def loop {α β : Type} : Nat → (β → Plain (Turn β α)) → β → Plain α
  | 0, _, _ => .error .exhausted
  | rounds + 1, step, seed =>
    match step seed with
    | .error f => .error f
    | .ok (.done result) => .ok result
    | .ok (.next seed) => loop rounds step seed

instance : Computation Plain where
  fault := .error
  loop := loop
  tell? := none

end Plain

/-- Evaluation that may find nothing. -/
def Maybe (α : Type) := Except Fault (Option α)

namespace Maybe

def just {α : Type} (a : α) : Maybe α := .ok (some a)

def nothing {α : Type} : Maybe α := .ok none

def isJust {α : Type} : Maybe α → Bool
  | .ok (some _) => true
  | _ => false

def isNothing {α : Type} : Maybe α → Bool
  | .ok none => true
  | _ => false

protected def bind {α β : Type} (x : Maybe α) (f : α → Maybe β) : Maybe β :=
  match x with
  | .error fault => .error fault
  | .ok none => .ok none
  | .ok (some a) => f a

instance : Monad Maybe where
  pure := just
  bind := Maybe.bind

def loop {α β : Type} : Nat → (β → Maybe (Turn β α)) → β → Maybe α
  | 0, _, _ => .error .exhausted
  | rounds + 1, step, seed =>
    match step seed with
    | .error f => .error f
    | .ok none => .ok none
    | .ok (some (.done result)) => .ok (some result)
    | .ok (some (.next seed)) => loop rounds step seed

instance : Computation Maybe where
  fault := .error
  loop := loop
  tell? := none

end Maybe

/-- Evaluation that may be aborted with a reason. -/
def Either (ε α : Type) := Except Fault (Except ε α)

namespace Either

variable {ε : Type}

def right {α : Type} (a : α) : Either ε α := .ok (.ok a)

def left {α : Type} (reason : ε) : Either ε α := .ok (.error reason)

def isLeft {α : Type} : Either ε α → Bool
  | .ok (.error _) => true
  | _ => false

protected def bind {α β : Type} (x : Either ε α) (f : α → Either ε β) : Either ε β :=
  match x with
  | .error fault => .error fault
  | .ok (.error reason) => .ok (.error reason)
  | .ok (.ok a) => f a

instance : Monad (Either ε) where
  pure := right
  bind := Either.bind

def loop {α β : Type} : Nat → (β → Either ε (Turn β α)) → β → Either ε α
  | 0, _, _ => .error .exhausted
  | rounds + 1, step, seed =>
    match step seed with
    | .error f => .error f
    | .ok (.error reason) => .ok (.error reason)
    | .ok (.ok (.done result)) => .ok (.ok result)
    | .ok (.ok (.next seed)) => loop rounds step seed

instance : Computation (Either ε) where
  fault := .error
  loop := loop
  tell? := none

end Either

end Descent

import Descent.Source

/-! # Replies and tags

The outcome of a parser is a reply; whether input was consumed on the way is a tag around it. -/

namespace Descent

/-- A value tagged with whether input was consumed to get it. -/
structure Tagged (α : Type) where
  consumed : Bool
  value : α
  deriving DecidableEq

namespace Tagged

variable {α β : Type}

def map (f : α → β) (t : Tagged α) : Tagged β := ⟨t.consumed, f t.value⟩

def elim (t : Tagged α) (onConsumed onEmpty : α → β) : β :=
  if t.consumed then onConsumed t.value else onEmpty t.value

@[simp] theorem consumed_map (f : α → β) (t : Tagged α) : (t.map f).consumed = t.consumed := rfl

@[simp] theorem value_map (f : α → β) (t : Tagged α) : (t.map f).value = f t.value := rfl

end Tagged

/-- A success with the state after it, or a failure. Both carry a hint. -/
inductive Reply (σ υ α : Type) where
  | ok (value : α) (state : State σ υ) (hint : Hint)
  | error (hint : Hint)
  deriving DecidableEq

namespace Reply

variable {σ υ α β : Type}

def isOk : Reply σ υ α → Bool
  | ok .. => true
  | error _ => false

def hint : Reply σ υ α → Hint
  | ok _ _ h => h
  | error h => h

def value? : Reply σ υ α → Option α
  | ok a _ _ => some a
  | error _ => none

def state? : Reply σ υ α → Option (State σ υ)
  | ok _ s _ => some s
  | error _ => none

def mapHint (f : Hint → Hint) : Reply σ υ α → Reply σ υ α
  | ok a s h => ok a s (f h)
  | error h => error (f h)

def map (f : α → β) : Reply σ υ α → Reply σ υ β
  | ok a s h => ok (f a) s h
  | error h => error h

/-- Joins a hint from before to the reply's own. -/
def after (earlier : Hint) (r : Reply σ υ α) : Reply σ υ α := r.mapHint earlier.merge

@[simp] theorem hint_mapHint (f : Hint → Hint) (r : Reply σ υ α) :
    (r.mapHint f).hint = f r.hint := by
  cases r <;> rfl

@[simp] theorem hint_map (f : α → β) (r : Reply σ υ α) : (r.map f).hint = r.hint := by
  cases r <;> rfl

@[simp] theorem isOk_after (earlier : Hint) (r : Reply σ υ α) :
    (r.after earlier).isOk = r.isOk := by
  cases r <;> rfl

def failure? : Reply σ υ α → Option Bytes
  | ok .. => none
  | error h => some h.render

end Reply

end Descent

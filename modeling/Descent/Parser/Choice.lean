import Descent.Parser.Basic

/-! # Choice

Choice is ordered and predictive: a second parser runs only where the first failed without consuming
input, and both start from the same state. -/

namespace Descent.Parser

variable {m : Type → Type} [Computation m] {σ τ υ α : Type} [Source σ τ]

/-- Runs `q` where `p` fails without consuming input. If neither consumes, both hints count. -/
def orElse (p q : Parser m σ υ α) : Parser m σ υ α := fun s => do
  let t ← p s
  if t.consumed then pure t
  else do
    let r ← t.value
    match r with
    | .ok a s' h => reply false (.ok a s' h)
    | .error h => afterHint h (q s)

def choice : List (Parser m σ υ α) → Parser m σ υ α
  | [] => never
  | [p] => p
  | p :: rest => p.orElse (choice rest)

/-- Turns a failure after consumption into one that consumed nothing. -/
def attempt (p : Parser m σ υ α) : Parser m σ υ α := fun s => do
  let t ← p s
  if t.consumed then do
    let r ← t.value
    reply r.isOk r
  else pure t

/-- Names what `p` accepts, for failures that consumed nothing. -/
def label (p : Parser m σ υ α) (name : Bytes) : Parser m σ υ α := fun s => do
  let t ← p s
  if t.consumed then pure t
  else pure ⟨false, do
    match ← t.value with
    | .ok a s' h => pure (.ok a s' h)
    | .error h => pure (.error (h.relabel name))⟩

def option (a : α) (p : Parser m σ υ α) : Parser m σ υ α := p.orElse (.pure a)

def optional (p : Parser m σ υ α) : Parser m σ υ Unit := (p.map fun _ => ()).orElse (.pure ())

def lookAhead (p : Parser m σ υ α) : Parser m σ υ α := fun s => do
  let t ← p s
  let r ← t.value
  match r with
  | .error h => reply t.consumed (.error h)
  | .ok a _ _ => reply false (.ok a s (.unknown s.pos))

end Descent.Parser

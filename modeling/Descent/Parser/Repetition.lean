import Descent.Parser.Choice

/-! # Repetition

A repetition runs a parser round after round and gathers values. Rounds that consume nothing run in
the outer layer; the first round that consumes input commits the whole, and the remaining rounds run
in the inner layer. What a reply means for the repetition is said once, in `Repetition.absorb`.

Every repetition takes a bound on its rounds, see `Computation.loop`. -/

namespace Descent

inductive Yield (α : Type) where
  | value (a : α)
  | over

/-- How a repetition treats the reply of a round. -/
structure Repetition where
  /-- After so many values the repetition is over. -/
  enough : Option Nat
  /-- A failure that consumed nothing ends the repetition with a success. -/
  forgiving : Bool
  /-- A round that yields a value must consume input. -/
  mustConsume : Bool

/-- What is carried from round to round: the values so far, the last one first, how many they are,
and the state and hint after them. -/
structure Gathered (σ υ α : Type) where
  backward : List α
  count : Nat
  state : State σ υ
  hint : Hint

namespace Gathered

variable {σ υ α : Type}

def values (g : Gathered σ υ α) : List α := g.backward.reverse

def start {τ : Type} [Source σ τ] (s : State σ υ) : Gathered σ υ α := ⟨[], 0, s, .unknown s.pos⟩

def push (g : Gathered σ υ α) (a : α) (s : State σ υ) (h : Hint) : Gathered σ υ α :=
  ⟨a :: g.backward, g.count + 1, s, h⟩

@[simp] theorem values_start {τ : Type} [Source σ τ] (s : State σ υ) :
    (start s : Gathered σ υ α).values = [] := rfl

@[simp] theorem values_push (g : Gathered σ υ α) (a : α) (s : State σ υ) (h : Hint) :
    (g.push a s h).values = g.values ++ [a] := by
  simp [values, push]

end Gathered

namespace Repetition

variable {σ υ α : Type}

def absorb (rule : Repetition) (g : Gathered σ υ α) (consumed : Bool) :
    Reply σ υ (Yield α) → Except Fault (Turn (Gathered σ υ α) (Reply σ υ (List α)))
  | .error h =>
    if consumed then .ok (.done (.error h))
    -- The hint of the rounds before is not joined to that of the refusal.
    else if rule.forgiving then .ok (.done (.ok g.values g.state h))
    else .ok (.done (.error (g.hint.merge h)))
  | .ok yield s h =>
    let hint := if consumed then h else g.hint.merge h
    match yield with
    | .over => .ok (.done (.ok g.values s hint))
    | .value a =>
      if rule.mustConsume && !consumed then .error .emptyRound
      else
        let g := g.push a s hint
        if rule.enough = some g.count then .ok (.done (.ok g.values s hint)) else .ok (.next g)

def untilFailure : Repetition := ⟨none, true, true⟩

def untilOver : Repetition := ⟨none, false, true⟩

def times (n : Nat) : Repetition := ⟨some n, false, false⟩

end Repetition

namespace Parser

variable {m : Type → Type} [Computation m] {σ τ υ α β : Type} [Source σ τ]

def turned (turn : Except Fault (Turn α β)) : m (Turn α β) :=
  match turn with
  | .error f => Computation.fault f
  | .ok turn => pure turn

/-- A round once the repetition is committed: both layers run, and the tag only says what the reply
means. -/
def innerRound (rule : Repetition) (p : Parser m σ υ (Yield α)) (g : Gathered σ υ α) :
    m (Turn (Gathered σ υ α) (Reply σ υ (List α))) := do
  let t ← p g.state
  let r ← t.value
  turned (rule.absorb g t.consumed r)

def innerRounds (rounds : Nat) (rule : Repetition) (p : Parser m σ υ (Yield α))
    (g : Gathered σ υ α) (r : Reply σ υ (Yield α)) : m (Reply σ υ (List α)) := do
  match ← turned (rule.absorb g true r) with
  | .done final => pure final
  | .next g => Computation.loop rounds (innerRound rule p) g

/-- A round before any input is consumed. The first one that consumes input ends the outer loop with
the rest of the repetition as its inner layer. -/
def outerRound (rounds : Nat) (rule : Repetition) (p : Parser m σ υ (Yield α))
    (g : Gathered σ υ α) : m (Turn (Gathered σ υ α) (Tagged (m (Reply σ υ (List α))))) := do
  let t ← p g.state
  if t.consumed then
    pure (.done ⟨true, do let r ← t.value; innerRounds rounds rule p g r⟩)
  else do
    let r ← t.value
    match ← turned (rule.absorb g false r) with
    | .done final => pure (.done ⟨false, pure final⟩)
    | .next g => pure (.next g)

def gather (rounds : Nat) (rule : Repetition) (p : Parser m σ υ (Yield α)) :
    Parser m σ υ (List α) := fun s =>
  Computation.loop rounds (outerRound rounds rule p) (Gathered.start s)

def many (rounds : Nat) (p : Parser m σ υ α) : Parser m σ υ (List α) :=
  gather rounds .untilFailure (p.map .value)

def many1 (rounds : Nat) (p : Parser m σ υ α) : Parser m σ υ (List α) :=
  p.bind fun a => (many rounds p).map (a :: ·)

def skipMany (rounds : Nat) (p : Parser m σ υ α) : Parser m σ υ Unit :=
  (many rounds p).map fun _ => ()

def sepBy1 (rounds : Nat) (p : Parser m σ υ α) (sep : Parser m σ υ β) : Parser m σ υ (List α) :=
  p.bind fun a => (many rounds (sep.andThen p)).map (a :: ·)

def sepBy (rounds : Nat) (p : Parser m σ υ α) (sep : Parser m σ υ β) : Parser m σ υ (List α) :=
  (sepBy1 rounds p sep).orElse (.pure [])

def count (rounds : Nat) (n : Nat) (p : Parser m σ υ α) : Parser m σ υ (List α) :=
  if n = 0 then .pure [] else gather rounds (.times n) (p.map .value)

/-- Runs `p` until `stop` succeeds; `stop` is tried first in each round. -/
def manyTill (rounds : Nat) (p : Parser m σ υ α) (stop : Parser m σ υ β) : Parser m σ υ (List α) :=
  gather rounds .untilOver ((stop.map fun _ => .over).orElse (p.map .value))

def chainl1 (rounds : Nat) (p : Parser m σ υ α) (op : Parser m σ υ (α → α → α)) :
    Parser m σ υ α :=
  p.bind fun first =>
    (many rounds (op.bind fun f => p.map fun y => (f, y))).map fun steps =>
      steps.foldl (fun acc (f, y) => f acc y) first

end Parser

end Descent

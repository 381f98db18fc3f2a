import Descent.Script.Basic

/-! # Chains of computations

Base computations on their own, without a parser: chains of sequencing, and loops over an integer
seed. -/

namespace Descent

variable {m : Type → Type} [Computation m] [Performs Value m]

inductive Link where
  | apply (f : Transform)
  | perform (effect : EffectTerm)
  | both (effect : EffectTerm)
  /-- Performs an effect after a negative number, and applies a function after any other value. -/
  | ifNegative (effect : EffectTerm) (f : Transform)

def performClosed (effect : EffectTerm) : m Value := Performs.perform (effect.eval Env.empty.vars)

def Link.after (link : Link) (x : m Value) : m Value :=
  match link with
  | apply f => do
    let v ← x
    pure (f.apply Env.empty.vars v)
  | perform effect => do
    let _ ← x
    performClosed effect
  | both effect => do
    let v ← x
    let w ← performClosed effect
    pure (.list [v, w])
  | ifNegative effect f => do
    let v ← x
    if v.num < 0 then performClosed effect else pure (f.apply Env.empty.vars v)

def chain (x : m Value) : List Link → List (m Value)
  | [] => [x]
  | link :: links => x :: chain (link.after x) links

inductive SeedAction where
  | stop (v : Value)
  | jump (seed : Int64)
  | perform (effect : EffectTerm)

/-- A loop that counts up to a limit, with its own actions at some seeds. -/
structure Counting where
  limit : Int64
  actions : List (Int64 × SeedAction)

namespace Counting

/-- The action at a seed; of several the last one counts. -/
def action? (c : Counting) (seed : Int64) : Option SeedAction :=
  (c.actions.reverse.find? fun entry => entry.1 = seed).map Prod.snd

def round (c : Counting) (seed : Int64) : m (Turn Int64 Value) :=
  match c.action? seed with
  | some (.stop v) => pure (.done v)
  | some (.jump seed) => pure (.next seed)
  | some (.perform effect) => do
    let v ← performClosed effect
    pure (.next v.num)
  | none => pure (if seed < c.limit then .next (seed + 1) else .done (.int seed))

def loop (c : Counting) (bound : Nat) (seed : Int64) : m Value :=
  Computation.loop bound c.round seed

end Counting

end Descent

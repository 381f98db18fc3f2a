import Descent.Script.Value

/-! # Cursors

Walks over an input by hand: elements are read or looked at, the user state is replaced, and states
are saved under names and taken up again. -/

namespace Descent

inductive CursorStep where
  | next
  | peek
  | user (v : Value)
  | save (name : Bytes)
  | load (name : Bytes)
  /-- Take up the input of a saved state and keep the user state. -/
  | input (name : Bytes)

inductive Sight (τ : Type) where
  | none
  | element (t : τ)
  | theEnd

/-- The state at hand and the saved ones, the latest first. -/
structure Cursor (σ : Type) where
  state : State σ Value
  saved : List (Bytes × State σ Value)

namespace Cursor

variable {σ τ : Type} [Source σ τ]

def saved? (c : Cursor σ) (name : Bytes) : Option (State σ Value) :=
  (c.saved.find? fun entry => entry.1 = name).map Prod.snd

def sight (c : Cursor σ) : Sight τ :=
  match Source.next? c.state.input with
  | some (t, _) => .element t
  | none => .theEnd

/-- Takes one step. A name under which nothing is saved changes nothing. -/
def step (c : Cursor σ) : CursorStep → Sight τ × Cursor σ
  | .next => (c.sight, { c with state := c.state.withInput (Source.tail c.state.input) })
  | .peek => (c.sight, c)
  | .user v => (.none, { c with state := c.state.withUser v })
  | .save name => (.none, { c with saved := (name, c.state) :: c.saved })
  | .load name => (.none, { c with state := (c.saved? name).getD c.state })
  | .input name =>
    (.none, match c.saved? name with
      | some s => { c with state := c.state.withInput s.input }
      | none => c)

def walk (c : Cursor σ) : List CursorStep → List (Sight τ × State σ Value)
  | [] => []
  | step :: steps =>
    let (sight, c) := c.step step
    (sight, c.state) :: c.walk steps

end Cursor

end Descent

import Descent.Parser.Basic

/-! # Traced parsers

A traced parser records its start in the outer layer and its end, with the outcome, in the inner
layer. Where the base computation records no events it is the parser itself. -/

namespace Descent.Parser

variable {m : Type → Type} [Computation m] {σ τ υ α : Type} [Source σ τ]

def exitEvent (name : Bytes) (consumed : Bool) : Reply σ υ α → Event
  | .ok _ s _ => .exit name s.pos true consumed
  | .error h => .exit name h.pos false consumed

/-- Records the start and the end of `p` under a name. -/
def traced (name : Bytes) (p : Parser m σ υ α) : Parser m σ υ α :=
  match (Computation.tell? : Option (Event → m Unit)) with
  | none => p
  | some tell => fun s => do
    tell (.enter name s.pos)
    let t ← p s
    pure ⟨t.consumed, do
      let r ← t.value
      tell (exitEvent name t.consumed r)
      pure r⟩

end Descent.Parser

import Descent.Computation.Basic

/-! # Computations with several results

Every result is followed, in order. Loops sequence their rounds by nesting, since each round may
have several successors. -/

namespace Descent

def Nondet (α : Type) := Except Fault (List α)

namespace Nondet

/-- Follows each element in turn; the first fault ends all. -/
def follow {α β : Type} (f : α → Nondet β) : List α → Nondet β
  | [] => .ok []
  | a :: rest =>
    match f a with
    | .error fault => .error fault
    | .ok here =>
      match follow f rest with
      | .error fault => .error fault
      | .ok there => .ok (here ++ there)

protected def bind {α β : Type} (x : Nondet α) (f : α → Nondet β) : Nondet β :=
  match x with
  | .error fault => .error fault
  | .ok results => follow f results

instance : Monad Nondet where
  pure a := .ok [a]
  bind := Nondet.bind

instance : Computation Nondet where
  fault := .error
  loop rounds step seed := unrolled (.error .exhausted) step rounds seed
  tell? := none

end Nondet

end Descent

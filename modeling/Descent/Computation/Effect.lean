import Descent.Computation.Plain
import Descent.Computation.Recording
import Descent.Computation.Nondet
import Descent.Computation.Cont

/-! # Effects

An effect is data: what a grammar may ask of the base computation it runs in. Each base computation
performs the effects of its own and raises a fault on the others. -/

namespace Descent

/-- A request to the base computation, with a payload of type `α`; `ν` is what is exchanged with the
host. -/
inductive Effect (ν α : Type) where
  | deliver (value : α)
  | record (names : List Bytes) (value : α)
  | nothing
  | abort (reason : Bytes)
  /-- Deliver each of several values. -/
  | among (values : List α)
  | escape (value : ν)
  /-- Call the rest of the run with each value. -/
  | branch (values : List α)
  | suspend (tag : ν) (receive : ν → α)

class Performs (ν : Type) (m : Type → Type) where
  perform {α : Type} : Effect ν α → m α

/-- Records an entry without a place for each name. -/
def recordAll {m : Type → Type} [Monad m] (tell : Event → m Unit) : List Bytes → m Unit
  | [] => pure ()
  | name :: names => do
    tell (.enter name .zero)
    recordAll tell names

variable {ν : Type}

instance : Performs ν Plain where
  perform
    | .deliver a => pure a
    | _ => Computation.fault .unsupported

instance : Performs ν Maybe where
  perform
    | .deliver a => pure a
    | .nothing => .nothing
    | _ => Computation.fault .unsupported

instance : Performs ν (Either Bytes) where
  perform
    | .deliver a => pure a
    | .abort reason => .left reason
    | _ => Computation.fault .unsupported

instance : Performs ν Nondet where
  perform
    | .deliver a => pure a
    | .among values => .ok values
    | _ => Computation.fault .unsupported

instance : Performs ν Trace where
  perform
    | .deliver a => pure a
    | .record names a => do recordAll Trace.tell names; pure a
    | _ => Computation.fault .unsupported

instance : Performs ν Writer where
  perform
    | .deliver a => pure a
    | .record names a => do recordAll Writer.tell names; pure a
    | _ => Computation.fault .unsupported

instance {ω : Type} : Performs ν (Cont ν ω) where
  perform
    | .deliver a => pure a
    | .escape value => .escape value
    | .branch values => .branch values
    | .suspend tag receive => .suspend tag receive
    | _ => Computation.fault .unsupported

end Descent

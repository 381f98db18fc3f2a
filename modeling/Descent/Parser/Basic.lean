import Descent.Computation.Basic
import Descent.Reply

/-! # Parsers in two layers

Running a parser is a computation of a tagged computation of a reply. The outer layer holds what
happens before it is known whether input is consumed, the inner layer what happens after. A parser
that has consumed input is committed: what follows runs in its inner layer, so a later failure is a
failure after consumption, from which choice does not recover. -/

namespace Descent

/-- A parser over input `σ` and user state `υ` inside the base computation `m`. -/
abbrev Parser (m : Type → Type) (σ υ α : Type) := State σ υ → m (Tagged (m (Reply σ υ α)))

namespace Parser

variable {m : Type → Type} [Computation m] {σ τ υ α β γ : Type} [Source σ τ]

def reply (consumed : Bool) (r : Reply σ υ α) : m (Tagged (m (Reply σ υ α))) :=
  pure ⟨consumed, pure r⟩

def gets (f : State σ υ → α × υ) : Parser m σ υ α := fun s =>
  let (a, user) := f s
  reply false (.ok a (s.withUser user) (.unknown s.pos))

protected def pure (a : α) : Parser m σ υ α := fun s => reply false (.ok a s (.unknown s.pos))

def never : Parser m σ υ α := fun s => reply false (.error (.unknown s.pos))

def fail (text : Bytes) : Parser m σ υ α := fun s =>
  reply false (.error (.single s.pos .remark text))

def unexpected (text : Bytes) : Parser m σ υ α := fun s =>
  reply false (.error (.single s.pos .unexpected text))

/-- Runs a base computation in the outer layer and succeeds with its result. -/
def lift (x : m α) : Parser m σ υ α := fun s => do
  let a ← x
  reply false (.ok a s (.unknown s.pos))

/-- Joins an earlier hint to what `next` replies without consuming input. The layers stay apart. -/
def afterHint (earlier : Hint) (next : m (Tagged (m (Reply σ υ α)))) :
    m (Tagged (m (Reply σ υ α))) := do
  let t ← next
  if t.consumed then pure t
  else pure ⟨false, do let r ← t.value; pure (r.after earlier)⟩

/-- Runs both layers of `next` as one, joining an earlier hint where no input is consumed. -/
def joined (earlier : Hint) (next : m (Tagged (m (Reply σ υ α)))) : m (Reply σ υ α) := do
  let t ← next
  if t.consumed then t.value
  else do let r ← t.value; pure (r.after earlier)

/-- Runs `p`, then the parser that `f` makes of its value. The whole consumes input if either does.
A hint of a success without consumption counts for what follows. -/
protected def bind (p : Parser m σ υ α) (f : α → Parser m σ υ β) : Parser m σ υ β := fun s => do
  let t ← p s
  let r ← t.value
  match r with
  | .error h => reply t.consumed (.error h)
  | .ok a s' h =>
    if t.consumed then pure ⟨true, joined h (f a s')⟩
    else afterHint h (f a s')

protected def map (f : α → β) (p : Parser m σ υ α) : Parser m σ υ β := fun s => do
  let t ← p s
  pure (t.map fun inner => do let r ← inner; pure (r.map f))

def andThen (p : Parser m σ υ α) (q : Parser m σ υ β) : Parser m σ υ β := p.bind fun _ => q

def skip (p : Parser m σ υ α) (q : Parser m σ υ β) : Parser m σ υ α :=
  p.bind fun a => q.map fun _ => a

def between (opening : Parser m σ υ α) (closing : Parser m σ υ β) (p : Parser m σ υ γ) :
    Parser m σ υ γ :=
  opening.andThen (p.skip closing)

def getUser : Parser m σ υ υ := gets fun s => (s.user, s.user)

def putUser (user : υ) : Parser m σ υ Unit := gets fun _ => ((), user)

def modifyUser (f : υ → υ) : Parser m σ υ υ := gets fun s => (f s.user, f s.user)

def position : Parser m σ υ Position := gets fun s => (s.pos, s.user)

/-- Runs both layers of a parser and keeps the tag. -/
def observe (p : Parser m σ υ α) (s : State σ υ) : m (Tagged (Reply σ υ α)) := do
  let t ← p s
  let r ← t.value
  pure ⟨t.consumed, r⟩

def run (p : Parser m σ υ α) (s : State σ υ) : m (Reply σ υ α) := do
  let t ← p s
  let r ← t.value
  pure r

end Parser

end Descent

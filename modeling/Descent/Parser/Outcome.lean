import Descent.Computation.Cont
import Descent.Computation.Plain
import Descent.Computation.Recording
import Descent.Parser.Basic

/-! # Outcomes of whole runs

What a caller gets from running a parser in one of the base computations. -/

namespace Descent.Parser

variable {σ υ α : Type}

def foundValue (p : Parser Maybe σ υ α) (s : State σ υ) : Maybe α := do
  match ← p.run s with
  | .ok a _ _ => .just a
  | .error _ => .nothing

def logged (detail : Option Int) (p : Parser Trace σ υ α) (s : State σ υ) :
    Except Fault (List LogLine × Reply σ υ α) :=
  (p.run s : Except Fault (Reply σ υ α × EventLog)).map fun (r, log) =>
    (Event.shownAt detail log.toList, r)

def course {ν : Type} (p : Parser (Cont ν (Reply σ υ α)) σ υ α) (s : State σ υ) :
    Course ν (Reply σ υ α) :=
  (p.run s).complete

/-- The reply of a run that completed; nothing where it was left, branched or suspended. -/
def completed {ν : Type} (p : Parser (Cont ν (Reply σ υ α)) σ υ α) (s : State σ υ) :
    Except Fault (Option (Reply σ υ α)) :=
  match Session.fresh.run (p.course s) with
  | (.error f, _) => .error f
  | (.ok (.final r), _) => .ok (some r)
  | (.ok _, _) => .ok none

/-- Runs the layers of a parser one after the other and reports them apart. -/
def courseOfLayers {ν ω : Type} (p : Parser (Cont ν ω) σ υ α) (s : State σ υ)
    (deliver : Reply σ υ α → ω) : Course ν ω :=
  p s fun t ledger =>
    match t.value (fun r ledger => (.answer (.final (deliver r)), ledger)) ledger with
    | (.answer inner, ledger) => (.answer (.layered t.consumed inner), ledger)
    | (.rewind target rest, ledger) => (.rewind target rest, ledger)
    | (.fault f, ledger) => (.fault f, ledger)

def parseText (p : Parser Plain Text υ α) (user : υ) (name src : Bytes) :
    Except Fault (Except Hint α) :=
  (p.run ⟨.ofBytes name src, user⟩).map fun
    | .ok a _ _ => .ok a
    | .error h => .error h

end Descent.Parser

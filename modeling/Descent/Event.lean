import Descent.Position

/-! # Trace events

A traced parser reports its start before it is known whether it consumes input, and its end with
the outcome. -/

namespace Descent

/-- One report of a traced parser. An exit stands at the position after a success, or at that of the
failure. -/
inductive Event where
  | enter (name : Bytes) (pos : Position)
  | exit (name : Bytes) (pos : Position) (ok consumed : Bool)
  deriving DecidableEq

namespace Event

/-- What stands in place of an event where there is none. -/
def blank : Event := .enter [] .zero

def kindName (number : Nat) : String := if number = 0 then "enter" else "exit"

def kind : Event → Nat
  | enter .. => 0
  | exit .. => 1

def name : Event → Bytes
  | enter name _ => name
  | exit name .. => name

def pos : Event → Position
  | enter _ pos => pos
  | exit _ pos .. => pos

end Event

inductive LogField where
  | text (value : Bytes)
  | flag (value : Bool)

structure LogLine where
  level : Int
  message : String
  fields : List (String × LogField)

/-- Parser events are of interest at this level of detail. -/
def Event.level : Int := 1

def Event.logLine (e : Event) : LogLine :=
  let place := [("parser", .text e.name), ("pos", .text e.pos.render)]
  ⟨level, kindName e.kind, match e with
    | .enter .. => place
    | .exit _ _ ok consumed => place ++ [("ok", .flag ok), ("consumed", .flag consumed)]⟩

/-- What a log that accepts levels up to `detail` shows of a list of events; without a level of
detail it shows nothing. -/
def Event.shownAt (detail : Option Int) (events : List Event) : List LogLine :=
  match detail with
  | some most => if level ≤ most then events.map logLine else []
  | none => []

end Descent

import Descent.Text.Utf8

/-! # Positions

Where an input stands: the name of the input, how many of its elements have passed, and the line
and column that a reader counts. -/

namespace Descent

structure Position where
  name : Bytes
  offset : Int
  line : Int
  column : Int
  deriving DecidableEq

def decimal (n : Int) : Bytes := utf8 (toString n)

namespace Position

/-- The position of an input that keeps none. -/
def zero : Position := ⟨[], 0, 0, 0⟩

def start (name : Bytes) : Position := ⟨name, 0, 1, 1⟩

/-- The position after a rune of `width` bytes: a line feed starts a line. -/
def after (p : Position) (r : Rune) (width : Nat) : Position :=
  if r = .ofChar '\n' then { p with offset := p.offset + width, line := p.line + 1, column := 1 }
  else { p with offset := p.offset + width, column := p.column + 1 }

/-- Written `name:line:column`, without the name where it is empty. -/
def render (p : Position) : Bytes :=
  let place := decimal p.line ++ utf8 ":" ++ decimal p.column
  if p.name = [] then place else p.name ++ utf8 ":" ++ place

end Position

end Descent

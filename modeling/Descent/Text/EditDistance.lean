import Descent.Text.Utf8

/-! # The edit distance that scripts run with

Insertions, deletions and substitutions of runes are counted in a table, one row after the other, in
words of 16 bits. Where two runes differ, each neighbour's count goes one step up before the least
is taken, so for a text of 65535 runes or more a count may start again from zero. -/

namespace Descent

namespace EditDistance

variable {α : Type} [DecidableEq α]

def lesser (a b : UInt16) : UInt16 := if b < a then b else a

/-- The next row of the table. `above` is the row before it without its first cell, which
is `corner`; `left` is the first cell of the new row. The columns are the elements of `xs`, and the
new row is that of `y`. -/
def row (y : α) (corner left : UInt16) : List α → List UInt16 → List UInt16
  | x :: xs, up :: above =>
    let cell := if y = x then corner else lesser (lesser (corner + 1) (left + 1)) (up + 1)
    left :: row y up cell xs above
  | _, _ => [left]

def lastRow (xs : List α) (count : UInt16) : List α → List UInt16 → List UInt16
  | y :: ys, corner :: above => lastRow xs (count + 1) ys (row y corner (count + 1) xs above)
  | _, cells => cells

def firstRow (count : UInt16) : List α → List UInt16
  | [] => [count]
  | _ :: xs => count :: firstRow (count + 1) xs

/-- The table has a column for each element of the shorter list. -/
def distance (xs ys : List α) : UInt16 :=
  let (short, long) := if xs.length > ys.length then (ys, xs) else (xs, ys)
  (lastRow short 0 long (firstRow 0 short)).getLastD 0

end EditDistance

def editDistance (a b : Bytes) : Nat :=
  if a = [] then (Utf8.runes b).length
  else if b = [] then (Utf8.runes a).length
  else if a = b then 0
  else (EditDistance.distance (Utf8.runes a) (Utf8.runes b)).toNat

end Descent

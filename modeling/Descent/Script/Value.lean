import Descent.Source

/-! # Values of scripts

Scripts deliver values of one dynamic type, which are also the elements of token lists. Every value
can be read as a text and as a number, and integers are words of 64 bits. -/

namespace Descent

inductive Atom where
  | unit
  | bool (b : Bool)
  | int (n : Int64)
  | text (bytes : Bytes)
  | rune (r : Rune)
  | byte (b : UInt8)
  | token (kind text : Bytes)
  | absent
  deriving DecidableEq, Inhabited

namespace Atom

/-- The text of an atom; one that is no text, rune, number or token has an empty one. -/
def flat : Atom → Bytes
  | text bytes => bytes
  | rune r => r.encode
  | byte b => (Rune.mk b.toNat).encode
  | int n => decimal n.toInt
  | token _ body => body
  | unit | bool _ | absent => []

def num : Atom → Int64
  | int n => n
  | rune r => .ofInt r.code
  | byte b => .ofNat b.toNat
  | unit | bool _ | text _ | token .. | absent => 0

def describe : Atom → Bytes
  | rune r => r.quoted
  | byte b => (Rune.mk b.toNat).quoted
  | text bytes => quoted bytes
  | token _ body => body
  | int n => decimal n.toInt
  | bool b => utf8 (if b then "true" else "false")
  | absent => utf8 "<nil>"
  | unit => utf8 "\x7b\x7d"

/-- How messages name an element inside a list: without quotes, and runes by their number. -/
def describeInside : Atom → Bytes
  | rune r => decimal r.code
  | byte b => decimal b.toNat
  | text bytes => bytes
  | a => a.describe

end Atom

inductive Value where
  | atom (a : Atom)
  | place (pos : Position)
  | list (items : List Value)
  deriving Inhabited

namespace Value

def unit : Value := atom .unit

def int (n : Int64) : Value := atom (.int n)

def text (bytes : Bytes) : Value := atom (.text bytes)

def rune (r : Rune) : Value := atom (.rune r)

mutual

/-- The text of a value: that of an atom, or those of the parts of a list one after the other. -/
def flat : Value → Bytes
  | atom a => a.flat
  | place _ => []
  | list items => flatList items

def flatList : List Value → Bytes
  | [] => []
  | item :: items => flat item ++ flatList items

end

mutual

def describeInside : Value → Bytes
  | atom a => a.describeInside
  | place pos => pos.render
  | list items => utf8 "[" ++ joinWith (utf8 " ") (describeAll items) ++ utf8 "]"

def describeAll : List Value → List Bytes
  | [] => []
  | item :: items => describeInside item :: describeAll items

end

def describe : Value → Bytes
  | atom a => a.describe
  | v => v.describeInside

instance : Shown Value := ⟨describe⟩

mutual

def decEq : (a b : Value) → Decidable (a = b)
  | atom a, atom b => decidable_of_iff (a = b) (by simp)
  | place p, place q => decidable_of_iff (p = q) (by simp)
  | list xs, list ys =>
    match decEqList xs ys with
    | isTrue h => isTrue (congrArg list h)
    | isFalse h => isFalse fun e => h (list.inj e)
  | atom _, place _ | atom _, list _ | place _, atom _ | place _, list _ | list _, atom _
  | list _, place _ => isFalse nofun

def decEqList : (xs ys : List Value) → Decidable (xs = ys)
  | [], [] => isTrue rfl
  | x :: xs, y :: ys =>
    match decEq x y, decEqList xs ys with
    | isTrue h, isTrue h' => isTrue (h ▸ h' ▸ rfl)
    | isFalse h, _ => isFalse fun e => h (List.cons.inj e).1
    | _, isFalse h => isFalse fun e => h (List.cons.inj e).2
  | [], _ :: _ | _ :: _, [] => isFalse nofun

end

instance : DecidableEq Value := decEq

def num : Value → Int64
  | atom a => a.num
  | place _ | list _ => 0

def length : Value → Int64
  | list items => .ofNat items.length
  | atom (.text bytes) => .ofNat bytes.length
  | atom _ | place _ => 0

/-- The text of a value read as a decimal numeral, whatever its runes are. -/
def numeral (v : Value) : Int64 :=
  (Utf8.runes v.flat).foldl (fun n r => n * 10 + (.ofInt r.code - 48)) 0

def total : Value → Int64
  | list items => items.foldl (fun n item => n + item.num) 0
  | atom _ | place _ => 0

/-- A list with one more element; anything else counts as an empty list. -/
def append (v last : Value) : Value :=
  match v with
  | list items => list (items ++ [last])
  | atom _ | place _ => list [last]

/-- The rune that a value stands for: a code point, or the first rune of a text. -/
def asRune : Value → Rune
  | atom (.rune r) => r
  | atom (.text bytes) => (Utf8.runes bytes).headD ⟨0⟩
  | v => .ofInt v.num.toInt

/-- What an operator symbol does to two operands: arithmetic, or a record of the application. -/
def applyOperator (op : Value) (a b : Value) : Value :=
  let symbol := op.flat
  if symbol = utf8 "+" then int (a.num + b.num)
  else if symbol = utf8 "-" then int (a.num - b.num)
  else if symbol = utf8 "*" then int (a.num * b.num)
  else list [op, a, b]

end Value

end Descent

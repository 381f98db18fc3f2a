import Descent.Script.Value

/-! # Terms, functions and tests

The data that scripts are made of besides grammars: values with variables in them, functions on
values, and tests of elements. -/

namespace Descent

/-- A value that may use variables. -/
inductive Term where
  | value (v : Value)
  | var (name : Bytes)
  | list (items : List Term)

namespace Term

mutual

def eval (vars : Bytes → Value) : Term → Value
  | value v => v
  | var name => vars name
  | list items => .list (evalList vars items)

def evalList (vars : Bytes → Value) : List Term → List Value
  | [] => []
  | item :: items => eval vars item :: evalList vars items

end

end Term

inductive Transform where
  | same
  | flat
  | length
  | numeral
  | total
  | const (v : Term)
  | add (v : Term)
  | mul (v : Term)
  /-- Puts a value in front of the argument, in a list of two. -/
  | pair (v : Term)
  | append (v : Term)

def Transform.apply (vars : Bytes → Value) (f : Transform) (v : Value) : Value :=
  match f with
  | same => v
  | flat => .text v.flat
  | length => .int v.length
  | numeral => .int v.numeral
  | total => .int v.total
  | const t => t.eval vars
  | add t => .int (v.num + (t.eval vars).num)
  | mul t => .int (v.num * (t.eval vars).num)
  | pair t => .list [t.eval vars, v]
  | append t => v.append (t.eval vars)

inductive Shape where
  | rune
  | byte
  | text
  | int
  | bool
  | token
  | absent
  deriving DecidableEq

def Value.shape? : Value → Option Shape
  | .atom (.rune _) => some .rune
  | .atom (.byte _) => some .byte
  | .atom (.text _) => some .text
  | .atom (.int _) => some .int
  | .atom (.bool _) => some .bool
  | .atom (.token ..) => some .token
  | .atom .absent => some .absent
  | .atom .unit | .place _ | .list _ => none

inductive Test where
  | always
  | never
  | range (lo hi : Int64)
  | shape (s : Shape)
  | kind (name : Bytes)

def Test.holds (test : Test) (v : Value) : Bool :=
  match test with
  | always => true
  | never => false
  | range lo hi => lo ≤ v.num && v.num ≤ hi
  | shape s => v.shape? = some s
  | kind name =>
    match v with
    | .atom (.token k _) => k = name
    | _ => false

end Descent

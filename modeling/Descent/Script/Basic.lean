import Descent.Computation.Effect
import Descent.Script.Term

/-! # Scripts

A script is a grammar over dynamic values written as first-order data: variables stand for the
values of earlier parsers, and rules are known by name. An environment holds what is in scope. A
rule is read in the environment where it is defined. -/

namespace Descent

inductive EffectTerm where
  | deliver (v : Term)
  | record (names : List Bytes) (v : Term)
  | nothing
  | abort (reason : Term)
  | among (vs : List Term)
  | escape (v : Term)
  | branch (vs : List Term)
  | suspend (v : Term)

def EffectTerm.eval (vars : Bytes → Value) : EffectTerm → Effect Value Value
  | deliver v => .deliver (v.eval vars)
  | record names v => .record names (v.eval vars)
  | nothing => .nothing
  | abort reason => .abort (reason.eval vars).flat
  | among vs => .among (vs.map (Term.eval vars))
  | escape v => .escape (v.eval vars)
  | branch vs => .branch (vs.map (Term.eval vars))
  | suspend v => .suspend (v.eval vars) id

/-- A parser made by hand: its tag and reply are stated rather than found out. -/
structure Stub where
  consumed : Bool
  value? : Option Term
  advance : Nat
  user? : Option Term
  pos : Position
  messages : List (Topic × Term)
  outer? : Option EffectTerm
  inner? : Option EffectTerm

inductive Script where
  | pure (v : Term)
  | fail (text : Term)
  | unexpected (text : Term)
  | lift (effect : EffectTerm)
  | bind (p : Script) (name : Bytes) (q : Script)
  | map (p : Script) (f : Transform)
  | andThen (p q : Script)
  | skip (p q : Script)
  | lazy (p : Script)
  | fix (name : Bytes) (p : Script)
  | ref (name : Bytes)
  | letRules (rules : List (Bytes × Script)) (p : Script)
  | ifSame (a b : Term) (p q : Script)
  | orElse (p q : Script)
  | choice (ps : List Script)
  | attempt (p : Script)
  | label (p : Script) (name : Term)
  | option (v : Term) (p : Script)
  | optional (p : Script)
  | lookAhead (p : Script)
  | many (p : Script)
  | many1 (p : Script)
  | skipMany (p : Script)
  | sepBy (p sep : Script)
  | sepBy1 (p sep : Script)
  | between (opening closing p : Script)
  | count (n : Term) (p : Script)
  | manyTill (p stop : Script)
  | chainl1 (p op : Script)
  | getUser
  | putUser (v : Term)
  | modifyUser (f : Transform)
  | position
  | traced (name : Term) (p : Script)
  | satisfy (test : Test)
  | anyToken
  | equal (v : Term)
  | eof
  | char (v : Term)
  | anyChar
  | oneOf (chars : Term)
  | noneOf (chars : Term)
  | digit
  | letter
  | space
  | spaces
  | literal (text : Term)
  | keyword (words : List Term)
  | stub (s : Stub)

/-- The variables and rules in scope, innermost first. -/
inductive Env where
  | empty
  | value (name : Bytes) (v : Value) (outer : Env)
  | rules (rules : List (Bytes × Script)) (outer : Env)

namespace Env

/-- The value of a variable; one that is not bound is the unit. -/
def vars : Env → Bytes → Value
  | empty, _ => .unit
  | value x v outer, name => if x = name then v else outer.vars name
  | rules _ outer, name => outer.vars name

def rule? : Env → Bytes → Option (Env × Script)
  | empty, _ => none
  | value _ _ outer, name => outer.rule? name
  | rules defs outer, name =>
    match defs.find? fun d => d.1 = name with
    | some d => some (rules defs outer, d.2)
    | none => outer.rule? name

end Env

end Descent

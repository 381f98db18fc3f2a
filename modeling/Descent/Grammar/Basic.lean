import Descent.Parser.Token
import Descent.Parser.Traced

/-! # Grammars

A grammar is a parser as data: built from the combinators alone, and not tied to a base computation
or to a kind of input. It asks for effects out of a signature `ε` and refers to rules out of a
signature `ρ`; what these stand for is said only when the grammar is made into a parser. Recursion
goes through rules.

The constructors are the combinators that cannot be expressed by others; the rest are functions. -/

namespace Descent

/-- Grammars that look at the elements of the input directly. -/
inductive Prim : Type → Type → Type 1 where
  | satisfy {τ : Type} (test : τ → Bool) : Prim τ τ
  | eof {τ : Type} : Prim τ Unit
  | literal (text : Bytes) : Prim Rune Bytes
  | keyword (distance : Bytes → Bytes → Nat) (words : List Bytes) : Prim Rune Bytes

/-- A grammar over elements `τ` and user state `υ` that delivers values of the type in its index. -/
inductive Grammar (τ υ : Type) (ε ρ : Type → Type) : Type → Type 1 where
  | pure {α : Type} (a : α) : Grammar τ υ ε ρ α
  | never {α : Type} : Grammar τ υ ε ρ α
  | fail {α : Type} (text : Bytes) : Grammar τ υ ε ρ α
  | unexpected {α : Type} (text : Bytes) : Grammar τ υ ε ρ α
  | lift {α : Type} (effect : ε α) : Grammar τ υ ε ρ α
  | rule {α : Type} (name : ρ α) : Grammar τ υ ε ρ α
  | bind {α β : Type} (p : Grammar τ υ ε ρ α) (f : α → Grammar τ υ ε ρ β) : Grammar τ υ ε ρ β
  | map {α β : Type} (f : α → β) (p : Grammar τ υ ε ρ α) : Grammar τ υ ε ρ β
  | orElse {α : Type} (p q : Grammar τ υ ε ρ α) : Grammar τ υ ε ρ α
  | attempt {α : Type} (p : Grammar τ υ ε ρ α) : Grammar τ υ ε ρ α
  | label {α : Type} (p : Grammar τ υ ε ρ α) (name : Bytes) : Grammar τ υ ε ρ α
  | lookAhead {α : Type} (p : Grammar τ υ ε ρ α) : Grammar τ υ ε ρ α
  | many {α : Type} (p : Grammar τ υ ε ρ α) : Grammar τ υ ε ρ (List α)
  | count {α : Type} (n : Nat) (p : Grammar τ υ ε ρ α) : Grammar τ υ ε ρ (List α)
  | manyTill {α β : Type} (p : Grammar τ υ ε ρ α) (stop : Grammar τ υ ε ρ β) :
      Grammar τ υ ε ρ (List α)
  | getUser : Grammar τ υ ε ρ υ
  | putUser (user : υ) : Grammar τ υ ε ρ Unit
  | modifyUser (f : υ → υ) : Grammar τ υ ε ρ υ
  | position : Grammar τ υ ε ρ Position
  | traced {α : Type} (name : Bytes) (p : Grammar τ υ ε ρ α) : Grammar τ υ ε ρ α
  | prim {α : Type} (primitive : Prim τ α) : Grammar τ υ ε ρ α

namespace Grammar

variable {τ υ : Type} {ε ρ : Type → Type} {α β γ : Type}

def andThen (p : Grammar τ υ ε ρ α) (q : Grammar τ υ ε ρ β) : Grammar τ υ ε ρ β := p.bind fun _ => q

def skip (p : Grammar τ υ ε ρ α) (q : Grammar τ υ ε ρ β) : Grammar τ υ ε ρ α :=
  p.bind fun a => q.map fun _ => a

def between (opening : Grammar τ υ ε ρ α) (closing : Grammar τ υ ε ρ β) (p : Grammar τ υ ε ρ γ) :
    Grammar τ υ ε ρ γ :=
  opening.andThen (p.skip closing)

def choice : List (Grammar τ υ ε ρ α) → Grammar τ υ ε ρ α
  | [] => never
  | [p] => p
  | p :: rest => p.orElse (choice rest)

def option (a : α) (p : Grammar τ υ ε ρ α) : Grammar τ υ ε ρ α := p.orElse (.pure a)

def optional (p : Grammar τ υ ε ρ α) : Grammar τ υ ε ρ Unit :=
  (p.map fun _ => ()).orElse (.pure ())

def many1 (p : Grammar τ υ ε ρ α) : Grammar τ υ ε ρ (List α) :=
  p.bind fun a => p.many.map (a :: ·)

def skipMany (p : Grammar τ υ ε ρ α) : Grammar τ υ ε ρ Unit := p.many.map fun _ => ()

def sepBy1 (p : Grammar τ υ ε ρ α) (sep : Grammar τ υ ε ρ β) : Grammar τ υ ε ρ (List α) :=
  p.bind fun a => (sep.andThen p).many.map (a :: ·)

def sepBy (p : Grammar τ υ ε ρ α) (sep : Grammar τ υ ε ρ β) : Grammar τ υ ε ρ (List α) :=
  (p.sepBy1 sep).orElse (.pure [])

def chainl1 (p : Grammar τ υ ε ρ α) (op : Grammar τ υ ε ρ (α → α → α)) : Grammar τ υ ε ρ α :=
  p.bind fun first =>
    (many (op.bind fun f => p.map fun y => (f, y))).map fun steps =>
      steps.foldl (fun acc (f, y) => f acc y) first

def satisfy (test : τ → Bool) : Grammar τ υ ε ρ τ := prim (.satisfy test)

def anyToken : Grammar τ υ ε ρ τ := satisfy fun _ => true

def eof : Grammar τ υ ε ρ Unit := prim .eof

def equal [DecidableEq τ] [Shown τ] (t : τ) : Grammar τ υ ε ρ τ :=
  (satisfy fun x => x = t).label (Shown.describe t)

def char (c : Rune) : Grammar Rune υ ε ρ Rune := (satisfy fun r => r = c).label c.quoted

def oneOf (chars : Bytes) : Grammar Rune υ ε ρ Rune := satisfy fun r => r ∈ Utf8.runes chars

def noneOf (chars : Bytes) : Grammar Rune υ ε ρ Rune := satisfy fun r => r ∉ Utf8.runes chars

def digit : Grammar Rune υ ε ρ Rune := (satisfy Rune.isDigit).label (utf8 "digit")

def letter : Grammar Rune υ ε ρ Rune := (satisfy Rune.isLetter).label (utf8 "letter")

def space : Grammar Rune υ ε ρ Rune := (satisfy Rune.isSpace).label (utf8 "space")

def spaces : Grammar Rune υ ε ρ Unit := space.skipMany.label (utf8 "white space")

def literal (text : Bytes) : Grammar Rune υ ε ρ Bytes := prim (.literal text)

def keyword (distance : Bytes → Bytes → Nat) (words : List Bytes) : Grammar Rune υ ε ρ Bytes :=
  prim (.keyword distance words)

end Grammar

end Descent

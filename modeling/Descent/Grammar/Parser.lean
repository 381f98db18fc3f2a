import Descent.Grammar.Basic

/-! # Grammars as parsers

A grammar becomes a parser once its effects are performed in a base computation, its rules are
parsers, and its repetitions are bounded. A rulebook defines each rule by a grammar or by a parser
made by hand; its rules are resolved to a bounded depth of recursion. -/

namespace Descent

variable {m : Type → Type} [Computation m] {σ υ : Type}

def Prim.parser {τ α : Type} [inst : Source σ τ] [shown : Shown τ] (primitive : Prim τ α) :
    Parser m σ υ α :=
  match τ, α, inst, shown, primitive with
  | _, _, _, _, .satisfy test => Parser.satisfy test
  | _, _, _, _, .eof => Parser.eof
  | _, _, _, _, .literal text => Parser.literal text
  | _, _, _, _, .keyword distance words => Parser.keyword distance words

variable {τ : Type} [Source σ τ] [Shown τ]

variable {ε ρ : Type → Type}

namespace Grammar

/-- The parser of a grammar, with its effects performed by `perform`, at most `rounds` rounds in
each repetition, and its rules given by `rules`. -/
def parser (perform : {α : Type} → ε α → m α) (rounds : Nat)
    (rules : {α : Type} → ρ α → Parser m σ υ α) {α : Type} :
    Grammar τ υ ε ρ α → Parser m σ υ α
  | .pure a => Parser.pure a
  | .never => Parser.never
  | .fail text => Parser.fail text
  | .unexpected text => Parser.unexpected text
  | .lift effect => Parser.lift (perform effect)
  | .rule name => rules name
  | .bind p f =>
    Parser.bind (p.parser perform rounds rules) fun a => (f a).parser perform rounds rules
  | .map f p => Parser.map f (p.parser perform rounds rules)
  | .orElse p q => Parser.orElse (p.parser perform rounds rules) (q.parser perform rounds rules)
  | .attempt p => Parser.attempt (p.parser perform rounds rules)
  | .label p name => Parser.label (p.parser perform rounds rules) name
  | .lookAhead p => Parser.lookAhead (p.parser perform rounds rules)
  | .many p => Parser.many rounds (p.parser perform rounds rules)
  | .count n p => Parser.count rounds n (p.parser perform rounds rules)
  | .manyTill p stop =>
    Parser.manyTill rounds (p.parser perform rounds rules) (stop.parser perform rounds rules)
  | .getUser => Parser.getUser
  | .putUser user => Parser.putUser user
  | .modifyUser f => Parser.modifyUser f
  | .position => Parser.position
  | .traced name p => Parser.traced name (p.parser perform rounds rules)
  | .prim primitive => primitive.parser

end Grammar

inductive Definition (m : Type → Type) (σ τ υ : Type) (ε ρ : Type → Type) (α : Type) : Type 1 where
  | grammar (g : Grammar τ υ ε ρ α)
  /-- A parser made by hand. -/
  | native (p : Parser m σ υ α)

abbrev Rulebook (m : Type → Type) (σ τ υ : Type) (ε ρ : Type → Type) :=
  {α : Type} → ρ α → Definition m σ τ υ ε ρ α

namespace Rulebook

/-- The parser of a rule, with at most `depth` rules inside one another. -/
def resolve (perform : {α : Type} → ε α → m α) (rounds : Nat) (book : Rulebook m σ τ υ ε ρ) :
    Nat → {α : Type} → ρ α → Parser m σ υ α
  | 0, _, _ => fun _ => Computation.fault .exhausted
  | depth + 1, _, name => fun s =>
    match book name with
    | .grammar g => g.parser perform rounds (resolve perform rounds book depth) s
    | .native p => p s

def parser (perform : {α : Type} → ε α → m α) (bound : Nat) (book : Rulebook m σ τ υ ε ρ)
    {α : Type} (g : Grammar τ υ ε ρ α) : Parser m σ υ α :=
  g.parser perform bound (resolve perform bound book bound)

end Rulebook

end Descent

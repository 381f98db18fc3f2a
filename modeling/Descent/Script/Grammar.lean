import Descent.Grammar.Parser
import Descent.Script.Basic
import Descent.Text.EditDistance

/-! # The grammar of a script

The meaning of a script is a grammar, read off in an environment. References to rules carry the
environment of the rule along, so the grammar of a script is closed. -/

namespace Descent

/-- What a script refers to: a rule with its environment, a stub, or a rule that is not in scope. -/
inductive ScriptRule : Type → Type where
  | script (env : Env) (s : Script) : ScriptRule Value
  | stub (env : Env) (s : Stub) : ScriptRule Value
  | undefined : ScriptRule Value

abbrev ScriptGrammar (τ υ α : Type) := Grammar τ υ (Effect Value) ScriptRule α

/-- User states that scripts can set and read. A state may keep less than it is given. -/
class UserState (υ : Type) where
  keep : Value → υ
  shown : υ → Value

instance : UserState Value := ⟨id, id⟩

instance : UserState Unit := ⟨fun _ => (), fun _ => .unit⟩

class Element (τ : Type) extends Shown τ where
  decEq : DecidableEq τ
  toValue : τ → Value
  ofValue? : Value → Option τ
  /-- A grammar of runes, if the elements are runes. -/
  ofRunes? {υ α : Type} : ScriptGrammar Rune υ α → Option (ScriptGrammar τ υ α)

instance : Element Rune where
  decEq := inferInstance
  toValue := .rune
  ofValue? v := some v.asRune
  ofRunes? := some

instance : Element Value where
  decEq := inferInstance
  toValue v := v
  ofValue? v := some v
  ofRunes? _ := none

instance : Element Empty where
  decEq := inferInstance
  toValue impossible := nomatch impossible
  ofValue? _ := none
  ofRunes? _ := none

namespace Script

variable {τ υ : Type} [Element τ]

def equalTo (t : τ) : ScriptGrammar τ υ Value :=
  letI : DecidableEq τ := Element.decEq
  .map Element.toValue (.equal t)

def overRunes {α : Type} (f : α → Value) (g : ScriptGrammar Rune υ α) : ScriptGrammar τ υ Value :=
  match Element.ofRunes? g with
  | some g => g.map f
  | none => .rule .undefined

variable [UserState υ]

mutual

def grammar (env : Env) : Script → ScriptGrammar τ υ Value
  | pure v => .pure (v.eval env.vars)
  | fail text => .fail (text.eval env.vars).flat
  | unexpected text => .unexpected (text.eval env.vars).flat
  | lift effect => .lift (effect.eval env.vars)
  | bind p name q => (p.grammar env).bind fun v => q.grammar (env.value name v)
  | map p f => (p.grammar env).map (f.apply env.vars)
  | andThen p q => (p.grammar env).andThen (q.grammar env)
  | skip p q => (p.grammar env).skip (q.grammar env)
  | lazy p => p.grammar env
  | fix name p => p.grammar (.rules [(name, p)] env)
  | ref name =>
    match env.rule? name with
    | some (env, s) => .rule (.script env s)
    | none => .rule .undefined
  | letRules rules p => p.grammar (.rules rules env)
  | ifSame a b p q =>
    if (a.eval env.vars).flat = (b.eval env.vars).flat then p.grammar env else q.grammar env
  | orElse p q => (p.grammar env).orElse (q.grammar env)
  | choice ps => .choice (grammars env ps)
  | attempt p => (p.grammar env).attempt
  | label p name => (p.grammar env).label (name.eval env.vars).flat
  | option v p => (p.grammar env).option (v.eval env.vars)
  | optional p => (p.grammar env).optional.map fun _ => .unit
  | lookAhead p => (p.grammar env).lookAhead
  | many p => (p.grammar env).many.map .list
  | many1 p => (p.grammar env).many1.map .list
  | skipMany p => (p.grammar env).skipMany.map fun _ => .unit
  | sepBy p sep => ((p.grammar env).sepBy (sep.grammar env)).map .list
  | sepBy1 p sep => ((p.grammar env).sepBy1 (sep.grammar env)).map .list
  | between opening closing p =>
    .between (opening.grammar env) (closing.grammar env) (p.grammar env)
  | count n p => ((p.grammar env).count (n.eval env.vars).num.toInt.toNat).map .list
  | manyTill p stop => ((p.grammar env).manyTill (stop.grammar env)).map .list
  | chainl1 p op => (p.grammar env).chainl1 ((op.grammar env).map Value.applyOperator)
  | getUser => .map UserState.shown .getUser
  | putUser v => .map (fun _ => .unit) (.putUser (UserState.keep (v.eval env.vars)))
  | modifyUser f =>
    .map UserState.shown
      (.modifyUser fun user => UserState.keep (f.apply env.vars (UserState.shown user)))
  | position => .map .place .position
  | traced name p => (p.grammar env).traced (name.eval env.vars).flat
  | satisfy test => .map Element.toValue (.satisfy fun t => test.holds (Element.toValue t))
  | anyToken => .map Element.toValue .anyToken
  | equal v =>
    match Element.ofValue? (v.eval env.vars) with
    | some t => equalTo t
    | none => .rule .undefined
  | eof => .map (fun _ => .unit) .eof
  | char v => overRunes .rune (.char (v.eval env.vars).asRune)
  | anyChar => overRunes .rune .anyToken
  | oneOf chars => overRunes .rune (.oneOf (chars.eval env.vars).flat)
  | noneOf chars => overRunes .rune (.noneOf (chars.eval env.vars).flat)
  | digit => overRunes .rune .digit
  | letter => overRunes .rune .letter
  | space => overRunes .rune .space
  | spaces => overRunes (fun _ => .unit) .spaces
  | literal text => overRunes .text (.literal (text.eval env.vars).flat)
  | keyword words =>
    overRunes .text (.keyword editDistance (words.map fun w => (w.eval env.vars).flat))
  | stub s => .rule (.stub env s)

def grammars (env : Env) : List Script → List (ScriptGrammar τ υ Value)
  | [] => []
  | p :: ps => p.grammar env :: grammars env ps

end

end Script

variable {m : Type → Type} [Computation m] [Performs Value m] {σ τ υ : Type} [Source σ τ]
  [Element τ] [Movable σ] [UserState υ]

def Stub.hint (vars : Bytes → Value) (s : Stub) : Hint :=
  ⟨s.pos, s.messages.map fun (topic, text) => ⟨topic, (text.eval vars).flat⟩⟩

def Stub.move (vars : Bytes → Value) (s : Stub) (start : State σ υ) : State σ υ :=
  ⟨s.advance.repeat Movable.move start.input,
    (s.user?.map fun v => UserState.keep (v.eval vars)).getD start.user⟩

def Stub.reply (vars : Bytes → Value) (s : Stub) (start : State σ υ) : Reply σ υ Value :=
  match s.value? with
  | some v => .ok (v.eval vars) (s.move vars start) (s.hint vars)
  | none => .error (s.hint vars)

def behind {α : Type} (vars : Bytes → Value) (effect? : Option EffectTerm) (x : m α) : m α :=
  match effect? with
  | some effect => do
    let _ ← Performs.perform (effect.eval vars)
    x
  | none => x

def Stub.parser (env : Env) (s : Stub) : Parser m σ υ Value := fun start =>
  behind env.vars s.outer?
    (pure ⟨s.consumed, behind env.vars s.inner? (pure (s.reply env.vars start))⟩)

def scriptRules : Rulebook m σ τ υ (Effect Value) ScriptRule
  | _, .script env s => .grammar (s.grammar env)
  | _, .stub env s => .native (s.parser env)
  | _, .undefined => .native fun _ => Computation.fault .undefinedRule

def Script.parserWithin (bound : Nat) (s : Script) : Parser m σ υ Value :=
  scriptRules.parser Performs.perform bound (s.grammar .empty)

/-- A bound out of reach of any run that ends in practice. -/
def Script.bound : Nat := 0x1000000000000000

def Script.parser (s : Script) : Parser m σ υ Value := s.parserWithin bound

end Descent

import Descent.Parser.Repetition

/-! # Parsers of elements

These look at the input directly. Each either accepts and moves the cursor on, or fails where it
started. Only `literal` may fail after consuming input, when it met a proper part of its text. -/

namespace Descent.Parser

variable {m : Type → Type} [Computation m] {σ τ υ : Type} [Source σ τ] [Shown τ]

/-- Names the element at hand, or the end of the input by an empty text. -/
def met (input : σ) : Message :=
  ⟨.met, match Source.next? input with
    | none => []
    | some (t, _) => Shown.describe t⟩

def satisfy (test : τ → Bool) : Parser m σ υ τ := fun s =>
  let refuse := reply false (.error ⟨s.pos, [met s.input]⟩)
  match Source.next? s.input with
  | none => refuse
  | some (t, rest) =>
    if test t then reply true (.ok t (s.withInput rest) (.unknown (Source.pos rest))) else refuse

def eof : Parser m σ υ Unit := fun s =>
  match Source.next? s.input with
  | none => reply false (.ok () s (.unknown s.pos))
  | some (t, _) =>
    reply false (.error ⟨s.pos,
      [⟨.unexpected, Shown.describe t⟩, ⟨.expected, utf8 "end of input"⟩]⟩)

def anyToken : Parser m σ υ τ := satisfy fun _ => true

def equal [DecidableEq τ] (t : τ) : Parser m σ υ τ :=
  label (satisfy fun x => x = t) (Shown.describe t)

section Runes

variable {σ : Type} [Source σ Rune] [CharacterClasses]

def char (c : Rune) : Parser m σ υ Rune := label (satisfy fun r => r = c) c.quoted

def oneOf (chars : Bytes) : Parser m σ υ Rune := satisfy fun r => r ∈ Utf8.runes chars

def noneOf (chars : Bytes) : Parser m σ υ Rune := satisfy fun r => r ∉ Utf8.runes chars

def digit : Parser m σ υ Rune := label (satisfy Rune.isDigit) (utf8 "digit")

def letter : Parser m σ υ Rune := label (satisfy Rune.isLetter) (utf8 "letter")

def space : Parser m σ υ Rune := label (satisfy Rune.isSpace) (utf8 "space")

def spaces (rounds : Nat) : Parser m σ υ Unit := label (skipMany rounds space) (utf8 "white space")

/-- How far an input agrees with a list of runes: the cursor after all of them, or the cursor at the
first disagreement and whether any rune agreed before it. -/
def follow (moved : Bool) (input : σ) : List Rune → Except (Bool × σ) σ
  | [] => .ok input
  | want :: rest =>
    match Source.next? input with
    | none => .error (moved, input)
    | some (r, after) => if r = want then follow true after rest else .error (moved, input)

/-- Accepts the runes of a text in sequence. The hint of a failure stands at the start of the text,
though it names the rune that was met. -/
def literal (text : Bytes) : Parser m σ υ Bytes := fun s =>
  let runes := Utf8.runes text
  match follow false s.input runes with
  | .ok rest => reply (!runes.isEmpty) (.ok text (s.withInput rest) (.unknown (Source.pos rest)))
  | .error (moved, input) =>
    reply moved (.error ⟨s.pos, [met input, ⟨.expected, quoted text⟩]⟩)

def refusal (distance : Bytes → Bytes → Nat) (words : List Bytes) (word : Bytes) (input : σ) :
    List Message :=
  let expectations := words.map fun w => ⟨.expected, quoted w⟩
  if word = [] then met input :: expectations
  else
    let remarks := (suggestion? distance word words).toList.map fun text => ⟨.remark, text⟩
    ⟨.unexpected, quoted word⟩ :: expectations ++ remarks

/-- Accepts a whole word that is one of `words`. A word that is none of them is not consumed. -/
def keyword (distance : Bytes → Bytes → Nat) (words : List Bytes) : Parser m σ υ Bytes := fun s =>
  let (runes, rest) := Source.span Rune.isWord s.input
  let word := runes.flatMap Rune.encode
  if word ≠ [] ∧ word ∈ words then
    reply true (.ok word (s.withInput rest) (.unknown (Source.pos rest)))
  else reply false (.error ⟨s.pos, refusal distance words word s.input⟩)

end Runes

end Descent.Parser

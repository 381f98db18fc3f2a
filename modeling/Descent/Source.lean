import Descent.Hint

/-! # Inputs

An input is a cursor: a value that gives its next element with the cursor after it, or is at its
end. Texts count bytes, lines and columns; token lists count elements; a sealed input has neither
elements nor a place. -/

namespace Descent

/-- A cursor `σ` over elements `τ`. Inputs are finite: each element leaves less to read. -/
class Source (σ : Type) (τ : outParam Type) where
  /-- The next element, if there is one, and a cursor in any case. -/
  uncons : σ → Option τ × σ
  pos : σ → Position
  size : σ → Nat
  size_uncons {s s' : σ} {t : τ} : uncons s = (some t, s') → size s' < size s

namespace Source

variable {σ τ : Type} [Source σ τ]

/-- The next element with the cursor after it. What comes with no element is not looked at. -/
def next? (s : σ) : Option (τ × σ) :=
  match uncons s with
  | (some t, rest) => some (t, rest)
  | (none, _) => none

theorem uncons_of_next {s s' : σ} {t : τ} (h : next? s = some (t, s')) :
    uncons s = (some t, s') := by
  unfold next? at h
  split at h
  · rename_i hUncons
    cases h
    exact hUncons
  · cases h

theorem size_next {s s' : σ} {t : τ} (h : next? s = some (t, s')) : size s' < size s :=
  size_uncons (uncons_of_next h)

def tail (s : σ) : σ := (uncons s).2

/-- The longest run of elements that pass a test, behind those in `before` (the last one first), and
the cursor after it. -/
def spanAfter (test : τ → Bool) (before : List τ) (s : σ) : List τ × σ :=
  match _h : next? s with
  | some (t, rest) => if test t then spanAfter test (t :: before) rest else (before.reverse, s)
  | none => (before.reverse, s)
termination_by size s
decreasing_by exact size_next _h

def span (test : τ → Bool) (s : σ) : List τ × σ := spanAfter test [] s

end Source

class Shown (τ : Type) where
  describe : τ → Bytes

instance [CharacterClasses] : Shown Rune := ⟨Rune.quoted⟩

structure Text where
  rest : Bytes
  pos : Position
  deriving DecidableEq

namespace Text

def ofBytes (name src : Bytes) : Text := ⟨src, .start name⟩

def uncons (t : Text) : Option Rune × Text :=
  match t.rest with
  | [] => (none, t)
  | b :: rest =>
    let r := Utf8.read b rest
    (some r.rune, ⟨r.rest, t.pos.after r.rune r.width⟩)

theorem length_rest_uncons {t t' : Text} {r : Rune} (h : t.uncons = (some r, t')) :
    t'.rest.length < t.rest.length := by
  unfold uncons at h
  split at h
  · cases h
  · rename_i b rest hRest
    cases h
    simpa [hRest] using Nat.lt_succ_of_le (Utf8.length_rest_read_le b rest)

instance : Source Text Rune where
  uncons := uncons
  pos := pos
  size t := t.rest.length
  size_uncons := length_rest_uncons

theorem next?_eq (t : Text) :
    Source.next? t = match t.rest with
      | [] => none
      | b :: rest =>
        let r := Utf8.read b rest
        some (r.rune, ⟨r.rest, t.pos.after r.rune r.width⟩) := by
  have hUncons : Source.uncons t = t.uncons := rfl
  rw [Source.next?, hUncons, uncons]
  cases t.rest with
  | nil => rfl
  | cons b rest => rfl

end Text

structure Tokens (τ : Type) where
  name : Bytes
  offset : Nat
  rest : List τ
  deriving DecidableEq

namespace Tokens

variable {τ : Type}

def ofList (name : Bytes) (items : List τ) : Tokens τ := ⟨name, 0, items⟩

def uncons (t : Tokens τ) : Option τ × Tokens τ :=
  match t.rest with
  | [] => (none, t)
  | item :: rest => (some item, ⟨t.name, t.offset + 1, rest⟩)

def pos (t : Tokens τ) : Position := ⟨t.name, t.offset, 1, t.offset + 1⟩

theorem length_rest_uncons {t t' : Tokens τ} {item : τ} (h : t.uncons = (some item, t')) :
    t'.rest.length < t.rest.length := by
  unfold uncons at h
  split at h
  · cases h
  · rename_i item rest hRest
    cases h
    simp [hRest]

instance : Source (Tokens τ) τ where
  uncons := uncons
  pos := pos
  size t := t.rest.length
  size_uncons := length_rest_uncons

theorem next?_eq (t : Tokens τ) :
    Source.next? t = match t.rest with
      | [] => none
      | item :: rest => some (item, ⟨t.name, t.offset + 1, rest⟩) := by
  have hUncons : Source.uncons t = t.uncons := rfl
  rw [Source.next?, hUncons, uncons]
  cases t.rest with
  | nil => rfl
  | cons item rest => rfl

end Tokens

/-- An input without elements, known by a number. -/
structure Sealed where
  number : Int
  deriving DecidableEq

instance : Source Sealed Empty where
  uncons s := (none, s)
  pos _ := .zero
  size _ := 0
  size_uncons h := nomatch h

instance : Shown Empty := ⟨fun impossible => nomatch impossible⟩

class Movable (σ : Type) where
  /-- One element on; at the end the input stays. -/
  move : σ → σ

instance : Movable Text := ⟨Source.tail⟩

instance {τ : Type} : Movable (Tokens τ) := ⟨Source.tail⟩

instance : Movable Sealed := ⟨fun s => ⟨s.number + 1⟩⟩

structure State (σ υ : Type) where
  input : σ
  user : υ
  deriving DecidableEq

namespace State

variable {σ υ : Type}

def withInput (s : State σ υ) (input : σ) : State σ υ := { s with input }

def withUser (s : State σ υ) (user : υ) : State σ υ := { s with user }

def pos {τ : Type} [Source σ τ] (s : State σ υ) : Position := Source.pos s.input

end State

end Descent

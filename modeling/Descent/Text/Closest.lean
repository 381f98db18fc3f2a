import Descent.Text.Quoted

/-! # Nearest words

Among a list of candidates the nearest ones within a bound are picked in one pass, then put into
byte order without repetition. How far two texts are apart is told by a function from outside. -/

namespace Descent

def Bytes.le : Bytes → Bytes → Bool
  | [], _ => true
  | _ :: _, [] => false
  | a :: as, b :: bs => if a < b then true else if b < a then false else Bytes.le as bs

def withoutRuns {α : Type} [DecidableEq α] : List α → List α
  | a :: b :: rest => if a = b then withoutRuns (b :: rest) else a :: withoutRuns (b :: rest)
  | rest => rest

variable (distance : Bytes → Bytes → Nat)

/-- The nearest candidates seen so far and the distance that the next one must not exceed. -/
structure Nearest where
  bound : Nat
  words : List Bytes

/-- A nearer candidate replaces all others, an equally near one joins them. -/
def Nearest.consider (word : Bytes) (best : Nearest) (candidate : Bytes) : Nearest :=
  let d := distance word candidate
  if d < best.bound then ⟨d, [candidate]⟩
  else if d = best.bound then { best with words := candidate :: best.words }
  else best

def closest (bound : Nat) (word : Bytes) (candidates : List Bytes) : List Bytes :=
  let best := candidates.foldl (Nearest.consider distance word) ⟨bound, []⟩
  withoutRuns (best.words.mergeSort Bytes.le)

def suggestionBound : Nat := 3

def joinWith (separator : Bytes) (pieces : List Bytes) : Bytes :=
  (pieces.intersperse separator).flatten

/-- A hint at the words that may have been meant, if any is near enough. -/
def suggestion? [CharacterClasses] (word : Bytes) (candidates : List Bytes) : Option Bytes :=
  match closest distance suggestionBound word candidates with
  | [] => none
  | [one] => some (utf8 "did you mean " ++ quoted one ++ utf8 "?")
  | several =>
    some (utf8 "did you mean any of " ++ joinWith (utf8 ", ") (several.map quoted) ++ utf8 "?")

end Descent

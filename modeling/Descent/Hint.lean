import Descent.Position
import Descent.Text.Closest

/-! # Hints

What a parser can say about a failure at one position: what it met, what it would have accepted, and
free remarks. A success carries a hint too, the nearest failure it recovered from, so that a later
failure at the same place can still name it. -/

namespace Descent

inductive Topic where
  /-- The element met, as a primitive saw it; an empty text is the end of the input. -/
  | met
  /-- Something declared unexpected by the grammar. -/
  | unexpected
  | expected
  | remark
  deriving DecidableEq

structure Message where
  topic : Topic
  text : Bytes
  deriving DecidableEq

/-- Messages about one position. A hint without messages is unknown. -/
structure Hint where
  pos : Position
  messages : List Message
  deriving DecidableEq

def firstOccurrences {α : Type} [DecidableEq α] (xs : List α) : List α :=
  (xs.foldl (fun seen x => if x ∈ seen then seen else x :: seen) []).reverse

namespace Hint

def unknown (pos : Position) : Hint := ⟨pos, []⟩

def single (pos : Position) (topic : Topic) (text : Bytes) : Hint := ⟨pos, [⟨topic, text⟩]⟩

def isUnknown (h : Hint) : Bool := h.messages.isEmpty

def texts (h : Hint) (topic : Topic) : List Bytes :=
  firstOccurrences ((h.messages.filter fun m => m.topic = topic && m.text ≠ []).map Message.text)

def expected (h : Hint) : List Bytes := h.texts .expected

/-- Replaces all expectations by one; an empty name only removes them. -/
def relabel (h : Hint) (name : Bytes) : Hint :=
  let others := h.messages.filter fun m => m.topic ≠ .expected
  { h with messages := if name = [] then others else others ++ [⟨.expected, name⟩] }

/-- Joins two hints. An unknown hint yields to a known one; otherwise the one further into the input
wins, and at the same offset the messages of both count. -/
def merge (a b : Hint) : Hint :=
  if b.isUnknown && !a.isUnknown then a
  else if a.isUnknown && !b.isUnknown then b
  else if a.pos.offset > b.pos.offset then a
  else if a.pos.offset < b.pos.offset then b
  else ⟨a.pos, a.messages ++ b.messages⟩

def runningMerge (combine : Hint → Hint → Hint) (acc : Hint) : List Hint → List Hint
  | [] => [acc]
  | next :: rest => acc :: runningMerge combine (combine acc next) rest

def metText (h : Hint) : Option Bytes :=
  (h.messages.find? fun m => m.topic = .met).map fun m =>
    if m.text = [] then utf8 "end of input" else m.text

/-- What was unexpected: what the grammar declared, and only without such a word what a primitive
met. -/
def unexpected (h : Hint) : List Bytes :=
  match h.texts .unexpected with
  | [] => h.metText.toList
  | declared => declared

/-- Joins as in `a, b or c`. -/
def alternatives : List Bytes → Bytes
  | [] => []
  | [one] => one
  | [one, last] => one ++ utf8 " or " ++ last
  | one :: rest => one ++ utf8 ", " ++ alternatives rest

def sentences (h : Hint) : List Bytes :=
  let met := match h.unexpected with
    | [] => []
    | met => [utf8 "unexpected " ++ joinWith (utf8 ", ") met]
  let wanted := match h.expected with
    | [] => []
    | wanted => [utf8 "expected " ++ alternatives wanted]
  match met ++ wanted ++ h.texts .remark with
  | [] => [utf8 "unknown parse error"]
  | parts => parts

def render (h : Hint) : Bytes := h.pos.render ++ utf8 ": " ++ joinWith (utf8 "; ") h.sentences

end Hint

end Descent

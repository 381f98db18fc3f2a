/-! # Byte strings read as runes

A text is a list of bytes and need not be valid UTF-8. Reading is total: a byte that starts no
well-formed sequence reads as the replacement rune and covers itself only. Writing is total too: a
rune that is no Unicode scalar value is written as the replacement rune. -/

namespace Descent

abbrev Bytes := List UInt8

def utf8 (s : String) : Bytes := s.toByteArray.data.toList

/-- A code point, not necessarily a Unicode scalar value. -/
structure Rune where
  code : Int
  deriving DecidableEq, Repr, Inhabited

namespace Rune

/-- What an unreadable byte reads as, and what an unwritable rune is written as. -/
def replacement : Rune := ⟨0xFFFD⟩

def ofChar (c : Char) : Rune := ⟨c.toNat⟩

/-- A code point kept to 32 bits with sign. -/
def ofInt (n : Int) : Rune := ⟨n.bmod 0x100000000⟩

def isScalar (r : Rune) : Bool :=
  (0 ≤ r.code && r.code < 0xD800) || (0xE000 ≤ r.code && r.code ≤ 0x10FFFF)

def orReplacement (r : Rune) : Rune := if r.isScalar then r else replacement

def encodeScalar (n : Nat) : Bytes :=
  if n < 0x80 then [n.toUInt8]
  else if n < 0x800 then [(0xC0 + n / 0x40).toUInt8, (0x80 + n % 0x40).toUInt8]
  else if n < 0x10000 then
    [(0xE0 + n / 0x1000).toUInt8, (0x80 + n / 0x40 % 0x40).toUInt8, (0x80 + n % 0x40).toUInt8]
  else
    [(0xF0 + n / 0x40000).toUInt8, (0x80 + n / 0x1000 % 0x40).toUInt8,
      (0x80 + n / 0x40 % 0x40).toUInt8, (0x80 + n % 0x40).toUInt8]

def encode (r : Rune) : Bytes := encodeScalar r.orReplacement.code.toNat

end Rune

namespace Utf8

/-- A rune read off the head of a text: its first byte, how many bytes it covers, and the text
after it. -/
structure Reading where
  head : UInt8
  rune : Rune
  width : Nat
  rest : Bytes

/-- The head starts no well-formed sequence. -/
def Reading.isBroken (r : Reading) : Bool := r.rune = .replacement && r.width = 1

def isTail (b : Nat) : Bool := 0x80 ≤ b && b ≤ 0xBF

def startsTwo (a b : Nat) : Bool := 0xC2 ≤ a && a ≤ 0xDF && isTail b

/-- Whether `a` and `b` start a three-byte sequence: no overlong form, no surrogate. -/
def startsThree (a b : Nat) : Bool :=
  0xE0 ≤ a && a ≤ 0xEF && (if a = 0xE0 then 0xA0 else 0x80) ≤ b &&
    b ≤ (if a = 0xED then 0x9F else 0xBF)

/-- Whether `a` and `b` start a four-byte sequence: no overlong form, nothing beyond
`0x10FFFF`. -/
def startsFour (a b : Nat) : Bool :=
  0xF0 ≤ a && a ≤ 0xF4 && (if a = 0xF0 then 0x90 else 0x80) ≤ b &&
    b ≤ (if a = 0xF4 then 0x8F else 0xBF)

def low (b : UInt8) : Nat := b.toNat % 0x40

def read (head : UInt8) (rest : Bytes) : Reading :=
  let a := head.toNat
  let broken : Reading := ⟨head, .replacement, 1, rest⟩
  if a < 0x80 then ⟨head, ⟨a⟩, 1, rest⟩
  else match rest with
    | [] => broken
    | b :: rest₂ =>
      if startsTwo a b.toNat then ⟨head, ⟨a % 0x20 * 0x40 + low b⟩, 2, rest₂⟩
      else match rest₂ with
        | [] => broken
        | c :: rest₃ =>
          if startsThree a b.toNat && isTail c.toNat then
            ⟨head, ⟨a % 0x10 * 0x1000 + low b * 0x40 + low c⟩, 3, rest₃⟩
          else match rest₃ with
            | [] => broken
            | d :: rest₄ =>
              if startsFour a b.toNat && isTail c.toNat && isTail d.toNat then
                ⟨head, ⟨a % 0x08 * 0x40000 + low b * 0x1000 + low c * 0x40 + low d⟩, 4, rest₄⟩
              else broken

theorem length_rest_read_le (head : UInt8) (rest : Bytes) :
    (read head rest).rest.length ≤ rest.length := by
  unfold read
  grind

theorem width_read_pos (head : UInt8) (rest : Bytes) : 0 < (read head rest).width := by
  unfold read
  grind

theorem rest_read (head : UInt8) (rest : Bytes) :
    (read head rest).rest = (head :: rest).drop (read head rest).width := by
  unfold read
  dsimp only
  repeat' split
  all_goals rfl

/-- The readings of a text of which the first `covered` bytes belong to a rune read before. -/
def readingsFrom (covered : Nat) : Bytes → List Reading
  | [] => []
  | b :: rest =>
    match covered with
    | n + 1 => readingsFrom n rest
    | 0 => read b rest :: readingsFrom ((read b rest).width - 1) rest

def readings (text : Bytes) : List Reading := readingsFrom 0 text

def runes (text : Bytes) : List Rune := (readings text).map Reading.rune

def isValidFrom (covered : Nat) : Bytes → Bool
  | [] => true
  | b :: rest =>
    match covered with
    | n + 1 => isValidFrom n rest
    | 0 => if (read b rest).isBroken then false else isValidFrom ((read b rest).width - 1) rest

def isValid (text : Bytes) : Bool := isValidFrom 0 text

end Utf8

end Descent

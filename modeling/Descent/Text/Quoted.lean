import Descent.Text.Category

/-! # Quoted text

How a rune or a text is shown inside a message. Printable runes stand for themselves, the quote in
use and the backslash are escaped, and every other rune is written by a short escape or by its
number in hexadecimal. -/

namespace Descent

def hexDigit (n : Nat) : UInt8 := if n < 10 then (48 + n).toUInt8 else (87 + n).toUInt8

def hexDigits : Nat → Nat → Bytes
  | 0, _ => []
  | width + 1, n => hexDigits width (n / 16) ++ [hexDigit (n % 16)]

/-- The letter that follows the backslash in a short escape. -/
def shortEscape? : Nat → Option Char
  | 0x07 => some 'a'
  | 0x08 => some 'b'
  | 0x0C => some 'f'
  | 0x0A => some 'n'
  | 0x0D => some 'r'
  | 0x09 => some 't'
  | 0x0B => some 'v'
  | _ => none

def singleQuote : Char := '\x27'

def doubleQuote : Char := '\x22'

variable [CharacterClasses]

def Rune.escaped (mark : Char) (r : Rune) : Bytes :=
  let n := r.code.toNat
  if r = ofChar mark || r = ofChar '\x5c' then utf8 "\\" ++ r.encode
  else if r.isPrintable then r.encode
  else match shortEscape? n with
    | some letter => utf8 "\\" ++ (ofChar letter).encode
    | none =>
      if n < 0x20 || n = 0x7F then utf8 "\\x" ++ hexDigits 2 n
      else if n < 0x10000 then utf8 "\\u" ++ hexDigits 4 n
      else utf8 "\\U" ++ hexDigits 8 n

/-- A rune between single quotes; one that cannot be written shows as the replacement rune. -/
def Rune.quoted (r : Rune) : Bytes :=
  utf8 "'" ++ r.orReplacement.escaped singleQuote ++ utf8 "'"

/-- A reading inside a quoted text; an unreadable byte is shown by its number. -/
def Utf8.Reading.escaped (r : Utf8.Reading) : Bytes :=
  if r.isBroken then utf8 "\\x" ++ hexDigits 2 r.head.toNat else r.rune.escaped doubleQuote

def quoted (text : Bytes) : Bytes :=
  utf8 "\"" ++ (Utf8.readings text).flatMap Utf8.Reading.escaped ++ utf8 "\""

end Descent

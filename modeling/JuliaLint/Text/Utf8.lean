import JuliaLint.Text.Basic

namespace JuliaLint
namespace Utf8

/-!
Reading bytes as UTF-8.  Each ill-formed piece becomes one replacement
character, where a piece is the longest start of a character that the bytes
hold; the byte that breaks it off is read again as the start of the next
character.  A byte order mark is an ordinary character.
-/

/-- An unfinished character: what is known of it and what the next byte may be. -/
structure Pending where
  /-- The code point of the bits read so far. -/
  bits : Nat
  /-- The number of bytes after the next one. -/
  later : Nat
  low : Nat
  high : Nat
  deriving DecidableEq, Repr

/-- What a byte gives at the start of a character: finished text, or an unfinished character. -/
def lead (byte : Nat) : Text × Option Pending :=
  if byte ≤ 0x7F then
    (Text.ofCodePoint byte, none)
  else if 0xC2 ≤ byte ∧ byte ≤ 0xDF then
    ([], some { bits := byte - 0xC0, later := 0, low := 0x80, high := 0xBF })
  else if 0xE0 ≤ byte ∧ byte ≤ 0xEF then
    ([], some
      { bits := byte - 0xE0
        later := 1
        low := if byte = 0xE0 then 0xA0 else 0x80
        high := if byte = 0xED then 0x9F else 0xBF })
  else if 0xF0 ≤ byte ∧ byte ≤ 0xF4 then
    ([], some
      { bits := byte - 0xF0
        later := 2
        low := if byte = 0xF0 then 0x90 else 0x80
        high := if byte = 0xF4 then 0x8F else 0xBF })
  else
    ([CodeUnit.replacement], none)

/-- What a fitting byte gives inside a character. -/
def Pending.extend (pending : Pending) (byte : Nat) : Text × Option Pending :=
  let bits := pending.bits * 0x40 + (byte - 0x80)
  match pending.later with
  | 0 => (Text.ofCodePoint bits, none)
  | later + 1 => ([], some { bits, later, low := 0x80, high := 0xBF })

/-- The text of the bytes that follow an unfinished character, if there is one. -/
def decodeFrom : Option Pending → List UInt8 → Text
  | none, [] => []
  | some _, [] => [CodeUnit.replacement]
  | none, byte :: bytes =>
      let (text, next) := lead byte.toNat
      text ++ decodeFrom next bytes
  | some pending, byte :: bytes =>
      if pending.low ≤ byte.toNat ∧ byte.toNat ≤ pending.high then
        let (text, next) := pending.extend byte.toNat
        text ++ decodeFrom next bytes
      else
        let (text, next) := lead byte.toNat
        CodeUnit.replacement :: text ++ decodeFrom next bytes

def decode (bytes : List UInt8) : Text :=
  decodeFrom none bytes

end Utf8
end JuliaLint

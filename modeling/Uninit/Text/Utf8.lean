/-!
# Reading bytes as text

Bytes are read as UTF-8. A sequence that is not valid becomes one U+FFFD for each longest
run of bytes that starts a valid sequence, and one for each byte that starts none. The reader
is an automaton: between characters, or inside one with the bytes still due.
-/
namespace Uninit.Text.Utf8

/-- The character that stands for bytes that cannot be read. -/
def replacement : Char := '\uFFFD'

/-- A character that has been started. -/
structure Partial where
  /-- How many bytes are due after the next one. -/
  more : Nat
  /-- The least byte that may come next. -/
  low : Nat
  /-- The greatest byte that may come next. -/
  high : Nat
  /-- The value of the bits read so far. -/
  value : Nat
deriving Repr, DecidableEq

/-- What the first byte of a character starts, for a byte above the ASCII range. -/
def start (b : Nat) : Option Partial :=
  if 0xC2 ≤ b ∧ b ≤ 0xDF then some ⟨0, 0x80, 0xBF, b - 0xC0⟩
  else if b = 0xE0 then some ⟨1, 0xA0, 0xBF, 0⟩
  else if b = 0xED then some ⟨1, 0x80, 0x9F, 0xD⟩
  else if 0xE1 ≤ b ∧ b ≤ 0xEF then some ⟨1, 0x80, 0xBF, b - 0xE0⟩
  else if b = 0xF0 then some ⟨2, 0x90, 0xBF, 0⟩
  else if 0xF1 ≤ b ∧ b ≤ 0xF3 then some ⟨2, 0x80, 0xBF, b - 0xF0⟩
  else if b = 0xF4 then some ⟨2, 0x80, 0x8F, 4⟩
  else none

/-- Read the remaining bytes, with the character that has been started, if any. -/
def decodeFrom : Option Partial → List UInt8 → List Char
  | none, [] => []
  | some _, [] => [replacement]
  | pending, byte :: rest =>
    let b := byte.toNat
    let fresh : List Char :=
      if b < 0x80 then Char.ofNat b :: decodeFrom none rest
      else match start b with
        | some p => decodeFrom (some p) rest
        | none => replacement :: decodeFrom none rest
    match pending with
    | none => fresh
    | some p =>
      if p.low ≤ b ∧ b ≤ p.high then
        let value := p.value * 64 + (b - 0x80)
        match p.more with
        | 0 => Char.ofNat value :: decodeFrom none rest
        | more + 1 => decodeFrom (some ⟨more, 0x80, 0xBF, value⟩) rest
      else replacement :: fresh

def decode (bytes : List UInt8) : List Char :=
  decodeFrom none bytes

end Uninit.Text.Utf8

/-!
Reading bytes as UTF-8. What is no writing of a character becomes U+FFFD, one for each longest run of
bytes that begins the writing of some character.
-/

namespace Horn.Text

/-- What stands for bytes that are no writing of a character. -/
def replacement : Char := Char.ofNat 0xfffd

/-- How the writing of a character goes on after its first byte: the bits of that byte that count,
the least and greatest second byte, and the number of bytes to come. -/
def lead (b : Nat) : Option (Nat × Nat × Nat × Nat) :=
  if 0xc2 ≤ b ∧ b ≤ 0xdf then some (b - 0xc0, 0x80, 0xbf, 1)
  else if b = 0xe0 then some (0, 0xa0, 0xbf, 2)
  else if b = 0xed then some (0xd, 0x80, 0x9f, 2)
  else if 0xe1 ≤ b ∧ b ≤ 0xef then some (b - 0xe0, 0x80, 0xbf, 2)
  else if b = 0xf0 then some (0, 0x90, 0xbf, 3)
  else if 0xf1 ≤ b ∧ b ≤ 0xf3 then some (b - 0xf0, 0x80, 0xbf, 3)
  else if b = 0xf4 then some (4, 0x80, 0x8f, 3)
  else none

/-- A character in the course of being read: its bits so far, the range of the next byte, and the
number of bytes to come after that one. -/
structure Partial where
  bits : Nat
  least : Nat
  greatest : Nat
  more : Nat

def decodeFrom : Option Partial → List Nat → List Char
  | none, [] => []
  | some _, [] => [replacement]
  | none, b :: bs =>
    if b < 0x80 then Char.ofNat b :: decodeFrom none bs
    else match lead b with
      | some (bits, lo, hi, n) => decodeFrom (some ⟨bits, lo, hi, n - 1⟩) bs
      | none => replacement :: decodeFrom none bs
  | some p, b :: bs =>
    if p.least ≤ b ∧ b ≤ p.greatest then
      let bits := p.bits * 64 + (b - 0x80)
      if p.more = 0 then Char.ofNat bits :: decodeFrom none bs
      else decodeFrom (some ⟨bits, 0x80, 0xbf, p.more - 1⟩) bs
    else if b < 0x80 then replacement :: Char.ofNat b :: decodeFrom none bs
    else match lead b with
      | some (bits, lo, hi, n) => replacement :: decodeFrom (some ⟨bits, lo, hi, n - 1⟩) bs
      | none => replacement :: replacement :: decodeFrom none bs

def decodeUtf8 (bs : List UInt8) : String := String.ofList (decodeFrom none (bs.map (·.toNat)))

end Horn.Text

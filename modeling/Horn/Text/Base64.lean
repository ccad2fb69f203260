/-!
Bytes written in base 64: each character stands for six bits, and equals signs fill up the last group
of four. Characters outside the alphabet, line breaks above all, are passed over.
-/

namespace Horn.Text

/-- The six bits of a character of the alphabet. -/
def sextet? (c : Char) : Option Nat :=
  if 'A' ≤ c && c ≤ 'Z' then some (c.toNat - 'A'.toNat)
  else if 'a' ≤ c && c ≤ 'z' then some (c.toNat - 'a'.toNat + 26)
  else if c.isDigit then some (c.toNat - '0'.toNat + 52)
  else if c = '+' then some 62
  else if c = '/' then some 63
  else none

/-- The bytes of a text that begins at the given place of a group of four, with the bits that are not
part of a byte yet and the number of equals signs just before. The text ends where a group is
complete: before its end only if equals signs complete it. -/
def base64From (place bits fill : Nat) : List Char → Option (List UInt8)
  | [] => if place = 0 then some [] else none
  | c :: r =>
    if c = '=' then
      if place < 2 then base64From place bits fill r
      else if place + fill + 1 < 4 then base64From place bits (fill + 1) r
      else some []
    else match sextet? c with
      | none => base64From place bits fill r
      | some v =>
        let low := Nat.pow 2 (6 - 2 * place)
        let next := (place + 1) % 4
        if place = 0 then base64From 1 v 0 r
        else (base64From next (v % low) 0 r).map ((bits * (64 / low) + v / low).toUInt8 :: ·)

def base64? (s : List Char) : Option (List UInt8) := base64From 0 0 0 s

end Horn.Text

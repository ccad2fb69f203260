import Horn.Text.Points
import Horn.Text.Printable

/-!
Quoted texts. A text stands between single quotes, or between double quotes if it holds a single
quote and no double one; what cannot stand for itself is escaped with a backslash.
-/

namespace Horn.Text

def hex (width n : Nat) : List Char :=
  let ds := Nat.toDigits 16 n
  List.replicate (width - ds.length) '0' ++ ds

def escape (quote c : Char) : List Char :=
  if c = quote ∨ c = '\\' then ['\\', c]
  else if c = '\t' then ['\\', 't']
  else if c = '\n' then ['\\', 'n']
  else if c = '\r' then ['\\', 'r']
  else if isPrintable c then [c]
  else if c.toNat ≤ 0xff then '\\' :: 'x' :: hex 2 c.toNat
  else if c.toNat ≤ 0xffff then '\\' :: 'u' :: hex 4 c.toNat
  else '\\' :: 'U' :: hex 8 c.toNat

def quoteFor (s : List Char) : Char :=
  if s.contains '\'' && !s.contains '"' then '"' else '\''

def quotedChars (s : List Char) : List Char :=
  let q := quoteFor s
  q :: s.flatMap (escape q) ++ [q]

def quoted (s : String) : String := String.ofList (quotedChars s.toList)

/-- A text by its code points between quotes: what is no character is escaped by its number. -/
def quotedPoints (p : Points) : String :=
  let q := quoteFor p.chars
  let point (n : Nat) : List Char :=
    if n.isValidChar then escape q (Char.ofNat n) else '\\' :: 'u' :: hex 4 n
  String.ofList (q :: p.flatMap point ++ [q])

/-- A string of bytes between quotes, after a `b`: every byte outside printable ASCII is escaped. -/
def quotedBytes (bs : List UInt8) : String :=
  let s := bs.map fun b => Char.ofNat b.toNat
  let q := quoteFor s
  let byte (c : Char) : List Char :=
    if 0x7f ≤ c.toNat then '\\' :: 'x' :: hex 2 c.toNat else escape q c
  String.ofList ('b' :: q :: s.flatMap byte ++ [q])

end Horn.Text

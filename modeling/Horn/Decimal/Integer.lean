import Horn.Text.Blank
import Horn.Text.DecimalDigit

/-!
Integers written in decimal. `ofInt` writes them; `toInt?` reads a text that, between blanks, is one
optional sign followed by digits of any script with single underscores between them.
-/

namespace Horn.Decimal

open Horn.Text

/-- The most digits an integer may have where a text is turned into a number or back. -/
def maxDigits : Nat := 4300

def ofInt : Int → List Char
  | .ofNat n => Nat.toDigits 10 n
  | .negSucc n => '-' :: Nat.toDigits 10 (n + 1)

def text (n : Int) : String := String.ofList (ofInt n)

def fits (n : Int) : Bool := decide (n.natAbs < Nat.pow 10 maxDigits)

/-- The values of the digits of a text, in which an underscore may stand between two digits. -/
def digits? : List Char → Option (List Nat)
  | [] => none
  | [c] => (digitValue? c).map ([·])
  | c :: '_' :: r => do return (← digitValue? c) :: (← digits? r)
  | c :: r => do return (← digitValue? c) :: (← digits? r)

def ofDigits (ds : List Nat) : Nat := ds.foldl (fun n d => 10 * n + d) 0

/-- An optional sign and the rest: whether the sign is a minus, and what follows it. -/
def splitSign : List Char → Bool × List Char
  | '-' :: r => (true, r)
  | '+' :: r => (false, r)
  | r => (false, r)

/-- The integer that a text is the decimal writing of, blanks at its ends aside. -/
def toInt? (s : List Char) : Option Int := do
  let (neg, body) := splitSign (strip s)
  let ds ← digits? body
  if ds.length ≤ maxDigits then
    return if neg then -(ofDigits ds : Int) else (ofDigits ds : Int)
  else none

/-- An ASCII letter or digit as a digit of a base up to 36. -/
def radixDigit? (c : Char) : Option Nat :=
  if c.isDigit then some (c.toNat - '0'.toNat)
  else if 'a' ≤ c && c ≤ 'z' then some (c.toNat - 'a'.toNat + 10)
  else if 'A' ≤ c && c ≤ 'Z' then some (c.toNat - 'A'.toNat + 10)
  else none

end Horn.Decimal

/-!
Binary floating-point numbers of 64 bits, held as their word. A finite one is exactly
`± mantissa * 2 ^ exponent`, and all comparisons here are made on that number.
-/

namespace Horn

structure Binary64 where
  word : UInt64
  deriving DecidableEq, Repr

namespace Binary64

def ofFloat (x : Float) : Binary64 := ⟨x.toBits⟩

def toFloat (x : Binary64) : Float := Float.ofBits x.word

/-- The number nearest to `m * 10 ^ e`. Past the range of the format the result is zero or infinite,
so exponents far outside it need not be worked out. -/
def ofDecimal (m : Nat) (e : Int) : Binary64 :=
  let size : Int := (Nat.toDigits 10 m).length + e
  if m = 0 ∨ size < -400 then ofFloat 0
  else if 400 < size then ofFloat (1 / 0)
  else ofFloat (Float.ofScientific m (decide (e < 0)) e.natAbs)

def negate (x : Binary64) : Binary64 := ⟨x.word ^^^ 0x8000000000000000⟩

def isNegative (x : Binary64) : Bool := decide (Nat.pow 2 63 ≤ x.word.toNat)

def exponentBits (x : Binary64) : Nat := x.word.toNat / Nat.pow 2 52 % Nat.pow 2 11

def fractionBits (x : Binary64) : Nat := x.word.toNat % Nat.pow 2 52

def isFinite (x : Binary64) : Bool := x.exponentBits != 2047

def isNaN (x : Binary64) : Bool := !x.isFinite && x.fractionBits != 0

/-- The whole number in front of the power of two. -/
def mantissa (x : Binary64) : Nat :=
  if x.exponentBits = 0 then x.fractionBits else Nat.pow 2 52 + x.fractionBits

def exponent (x : Binary64) : Int :=
  if x.exponentBits = 0 then -1074 else (x.exponentBits : Int) - 1075

/-- The whole part of a finite number, cut toward zero. -/
def trunc (x : Binary64) : Int :=
  let n := if 0 ≤ x.exponent then x.mantissa * Nat.pow 2 x.exponent.toNat
    else x.mantissa / Nat.pow 2 (-x.exponent).toNat
  if x.isNegative then -(n : Int) else n

/-- A finite number without a fractional part. -/
def isWhole (x : Binary64) : Bool :=
  x.isFinite && (decide (0 ≤ x.exponent) || x.mantissa % Nat.pow 2 (-x.exponent).toNat == 0)

def nonpositive (x : Binary64) : Bool :=
  !x.isNaN && (x.isNegative || (x.isFinite && x.mantissa == 0))

/-- Equality of numbers: a NaN equals nothing, and the two zeros are equal. -/
def same (x y : Binary64) : Bool :=
  !x.isNaN && !y.isNaN &&
    (x == y || (x.isFinite && y.isFinite && x.mantissa == 0 && y.mantissa == 0))

def sameInt (x : Binary64) (n : Int) : Bool := x.isWhole && x.trunc == n

end Binary64

end Horn

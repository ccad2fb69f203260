import Horn.Value.Basic

/-!
Codes of values: equal values have one code, and a few unequal ones share one. A number has the code
of its residue modulo a Mersenne prime, whatever kind of number it is.
-/

namespace Horn.Value

def residueBits : Nat := 61

/-- The Mersenne prime of which residues are taken. -/
def modulus : Nat := Nat.pow 2 residueBits - 1

/-- The code of a residue with a sign; there is none of -1. -/
def signedCode (negative : Bool) (r : Nat) : Int :=
  if negative then (if r = 1 then -2 else -(r : Int)) else r

/-- The residue of `m * 2 ^ e`: a power of two has a residue also where the exponent is negative. -/
def scaledResidue (m : Nat) (e : Int) : Nat :=
  m * Nat.pow 2 (e % (residueBits : Int)).toNat % modulus

/-- The code of a number; a NaN has none. -/
def codeOfNumber? : Int ⊕ Binary64 → Option Int
  | .inl n => some (signedCode (decide (n < 0)) (n.natAbs % modulus))
  | .inr x =>
    if x.isFinite then some (signedCode x.isNegative (scaledResidue x.mantissa x.exponent))
    else if x.isNaN then none
    else some (if x.isNegative then -314159 else 314159)

/-- Two values have one code; the empty text has that of zero. -/
def sameCode (a b : Value) : Bool :=
  let code? (v : Value) : Option (Option Int) :=
    match v with
    | .text "" => some (some 0)
    | v => v.asNumber?.map codeOfNumber?
  match code? a, code? b with
  | some (some m), some (some n) => m == n
  | none, none => a.same b
  | _, _ => false

end Horn.Value

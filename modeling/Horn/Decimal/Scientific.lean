import Horn.Decimal.Binary64
import Horn.Decimal.Integer

/-!
Reading floating-point numbers: digits of any script with at most one point among them and an
optional exponent, or a word for an infinity or a NaN.
-/

namespace Horn.Decimal

open Horn.Text

def spanDigits : List Char → List Nat × List Char
  | [] => ([], [])
  | c :: r => match digitValue? c with
    | some d => let (ds, rest) := spanDigits r; (d :: ds, rest)
    | none => ([], c :: r)

/-- An exponent after its letter, which must be all that is left of a text. -/
def exponent? : List Char → Option Int
  | [] => some 0
  | c :: r =>
    if c = 'e' ∨ c = 'E' then
      let (neg, body) := splitSign r
      match spanDigits body with
      | (d :: ds, []) => some (if neg then -(ofDigits (d :: ds) : Int) else (ofDigits (d :: ds) : Int))
      | _ => none
    else none

def unsigned? (s : List Char) : Option Binary64 :=
  let word := String.ofList (s.map Char.toLower)
  if word = "inf" ∨ word = "infinity" then some (Binary64.ofFloat (1 / 0))
  else if word = "nan" then some (Binary64.ofFloat (0 / 0))
  else
    let (whole, rest) := spanDigits s
    let (part, rest) := match rest with
      | '.' :: r => spanDigits r
      | r => ([], r)
    if whole.isEmpty && part.isEmpty then none
    else (exponent? rest).map fun e => Binary64.ofDecimal (ofDigits (whole ++ part)) (e - part.length)

/-- The number that a text is the writing of, blanks at its ends aside. -/
def toBinary64? (s : List Char) : Option Binary64 :=
  let (neg, body) := splitSign (strip s)
  (unsigned? body).map fun x => if neg then x.negate else x

end Horn.Decimal

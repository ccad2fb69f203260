import Horn.Decimal.Binary64

/-!
The shortest decimal text of a floating-point number: the fewest digits that read back as it, of
those the nearest to it. How the digits are laid out is a `Layout`.
-/

namespace Horn.Decimal

/-- The reals that round to a positive finite number `mid / 4 * 2 ^ exponent` reach from
`low / 4 * 2 ^ exponent` to `high / 4 * 2 ^ exponent`, ends included if `closed`. -/
structure Rounding where
  low : Nat
  mid : Nat
  high : Nat
  exponent : Int
  closed : Bool

/-- The reals that round to the size of a finite number. The gap below a power of two is half the
gap above it. -/
def Rounding.of (x : Binary64) : Rounding :=
  let m := x.mantissa
  let narrow := x.fractionBits == 0 && decide (1 < x.exponentBits)
  { low := if narrow then 4 * m - 1 else 4 * m - 2
    mid := 4 * m
    high := 4 * m + 2
    exponent := x.exponent - 2
    closed := m % 2 == 0 }

/-- What turns `n * 2 ^ e` into a multiple of `10 ^ p`: `n * scale.1 / scale.2` counts tens. -/
def scale (e p : Int) : Nat × Nat :=
  (Nat.pow 2 e.toNat * Nat.pow 10 (-p).toNat, Nat.pow 2 (-e).toNat * Nat.pow 10 p.toNat)

/-- The multiple of `10 ^ p` nearest to the number, if it reads back as the number; an exact tie goes
to the even multiple. -/
def Rounding.onGrid? (r : Rounding) (p : Int) : Option Nat :=
  let (a, b) := scale r.exponent p
  let d := r.mid * a / b
  let reads (k : Nat) : Bool :=
    if r.closed then decide (r.low * a ≤ k * b ∧ k * b ≤ r.high * a)
    else decide (r.low * a < k * b ∧ k * b < r.high * a)
  let below := r.mid * a - d * b
  let above := (d + 1) * b - r.mid * a
  let downFirst := below < above || (below == above && d % 2 == 0)
  if downFirst then
    if reads d then some d else if reads (d + 1) then some (d + 1) else none
  else
    if reads (d + 1) then some (d + 1) else if reads d then some d else none

/-- The number of digits before the decimal point of a positive number; at most zero if the first
digit after the point is a zero or the number is below one. -/
def Rounding.magnitude (r : Rounding) : Int :=
  let (a, b) := scale r.exponent (-400)
  ((Nat.toDigits 10 (r.mid * a / b)).length : Int) - 400

structure Digits where
  digits : List Char
  point : Int

/-- The shortest digits of a number that is finite and not zero. -/
def Rounding.shortest (r : Rounding) : Digits :=
  let k := r.magnitude
  let grid (n : Nat) : Option (Nat × Int) :=
    let p := k - n
    (r.onGrid? p).map (·, p)
  let (d, p) := ((List.range 17).findSome? fun i => grid (i + 1)).getD (0, k)
  let ds := Nat.toDigits 10 d
  ⟨(ds.reverse.dropWhile (· == '0')).reverse, ds.length + p⟩

structure Layout where
  /-- The least place of the point that is written without an exponent. -/
  least : Int
  /-- The greatest place of the point that is written without an exponent. -/
  greatest : Int
  /-- The fewest digits of an exponent. -/
  exponentDigits : Nat
  infinity : String
  notANumber : String

/-- The digits with the point at its place, always with a digit on both sides of it. -/
def positional (d : Digits) : List Char :=
  if d.point ≤ 0 then
    '0' :: '.' :: List.replicate (-d.point).toNat '0' ++ d.digits
  else
    let n := d.point.toNat
    let whole := d.digits.take n ++ List.replicate (n - d.digits.length) '0'
    let part := d.digits.drop n
    whole ++ '.' :: (if part.isEmpty then ['0'] else part)

/-- The first digit, a point and further digits if there are any, and a signed exponent. -/
def scientific (l : Layout) (d : Digits) : List Char :=
  let e := d.point - 1
  let es := Nat.toDigits 10 e.natAbs
  let tail := match d.digits with
    | [] => []
    | [c] => [c]
    | c :: r => c :: '.' :: r
  tail ++ 'e' :: (if e < 0 then '-' else '+') :: List.replicate (l.exponentDigits - es.length) '0' ++ es

def Layout.write (l : Layout) (x : Binary64) : String :=
  if x.isNaN then l.notANumber
  else
    let sign := if x.isNegative then "-" else ""
    if !x.isFinite then sign ++ l.infinity
    else
      let d : Digits := if x.mantissa = 0 then ⟨['0'], 1⟩ else (Rounding.of x).shortest
      let body := if l.least ≤ d.point ∧ d.point ≤ l.greatest then positional d else scientific l d
      sign ++ String.ofList body

end Horn.Decimal

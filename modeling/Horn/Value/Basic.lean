import Horn.Decimal.Binary64
import Horn.Decimal.Integer
import Horn.Text.Points
import Horn.Value.Calendar

/-!
Plain data: what a caller may hand over where a number or a text is wanted, and what a configuration
file holds. Values are compared by meaning: `true` is 1, and a whole floating-point number is the
integer of its size.
-/

namespace Horn

inductive Value where
  | null
  | bool (b : Bool)
  | int (n : Int)
  | float (x : Binary64)
  | text (s : String)
  /-- A text some of whose code points are no characters. -/
  | points (p : Text.Points)
  | bytes (bs : List UInt8)
  | day (d : Day)
  | moment (t : Moment)
  | list (xs : List Value)
  | pair (a b : Value)
  | set (xs : List Value)
  | dict (es : List (Value × Value))
  /-- A list, met again inside itself. -/
  | listAgain
  /-- A dictionary, met again inside itself. -/
  | dictAgain

namespace Value

/-- The number that a value counts as in comparisons. -/
def asNumber? : Value → Option (Int ⊕ Binary64)
  | .bool b => some (.inl b.toInt)
  | .int n => some (.inl n)
  | .float x => some (.inr x)
  | _ => none

def sameNumber : Int ⊕ Binary64 → Int ⊕ Binary64 → Bool
  | .inl m, .inl n => m == n
  | .inl m, .inr y => y.sameInt m
  | .inr x, .inl n => x.sameInt n
  | .inr x, .inr y => x.same y

/-- Equality of values that are neither numbers nor hold others. -/
def sameLeaf : Value → Value → Bool
  | .null, .null => true
  | .text s, .text t => s == t
  | .points p, .points q => p == q
  | .bytes s, .bytes t => s == t
  | .day d, .day e => d == e
  | .moment s, .moment t => s.same t
  | a, b => match a.asNumber?, b.asNumber? with
    | some m, some n => sameNumber m n
    | _, _ => false

mutual

def same : Value → Value → Bool
  | .list xs, .list ys => sameAll xs ys
  | .pair a b, .pair c d => a.same c && b.same d
  | .set xs, .set ys => xs.length == ys.length && sameSome xs ys
  | .dict es, .dict fs => es.length == fs.length && sameEntries es fs
  | a, b => sameLeaf a b

def sameAll : List Value → List Value → Bool
  | [], [] => true
  | x :: xs, y :: ys => x.same y && sameAll xs ys
  | _, _ => false

def sameSome : List Value → List Value → Bool
  | [], _ => true
  | x :: xs, ys => ys.any x.same && sameSome xs ys

def sameEntries : List (Value × Value) → List (Value × Value) → Bool
  | [], _ => true
  | (k, v) :: es, fs => fs.any (fun f => k.same f.1 && v.same f.2) && sameEntries es fs

end

def ofPoints (p : Text.Points) : Value :=
  if p.areChars then .text (String.ofList p.chars) else .points p

/-- Equality of keys: a NaN is the same key as itself, told apart from others by its word. -/
def sameKey : Value → Value → Bool
  | .float x, .float y => x == y || x.same y
  | a, b => a.same b

/-- The value can be a key: it neither is nor holds a list, a set or a dictionary. -/
def isKey : Value → Bool
  | .list _ | .set _ | .dict _ | .listAgain | .dictAgain => false
  | .pair a b => a.isKey && b.isKey
  | _ => true

mutual

/-- No integer in the value has more than `Decimal.maxDigits` digits. -/
def fits : Value → Bool
  | .int n => Decimal.fits n
  | .list xs | .set xs => fitsAll xs
  | .pair a b => a.fits && b.fits
  | .dict es => fitsEntries es
  | _ => true

def fitsAll : List Value → Bool
  | [] => true
  | x :: xs => x.fits && fitsAll xs

def fitsEntries : List (Value × Value) → Bool
  | [] => true
  | (k, v) :: es => k.fits && v.fits && fitsEntries es

end

/-- Whether a number is at most zero; nothing else can be compared with zero. -/
def nonpositive? : Value → Option Bool
  | .bool b => some !b
  | .int n => some (decide (n ≤ 0))
  | .float x => some x.nonpositive
  | _ => none

inductive IntError where
  /-- The value is neither a number nor a text. -/
  | notNumber
  /-- The text is not the decimal writing of an integer. -/
  | notDecimal
  /-- The number is a NaN. -/
  | notANumber
  /-- The number is infinite. -/
  | infinite
  deriving DecidableEq, Repr

def intOfText (s : List Char) : Except IntError Int :=
  match Decimal.toInt? s with
  | some n => .ok n
  | none => .error .notDecimal

/-- The integer that a value stands for: a floating-point number is cut toward zero, and a text or a
string of ASCII bytes is read in decimal. -/
def toInt : Value → Except IntError Int
  | .bool b => .ok b.toInt
  | .int n => .ok n
  | .float x =>
    if x.isFinite then .ok x.trunc else if x.isNaN then .error .notANumber else .error .infinite
  | .text s => intOfText s.toList
  | .points p => intOfText p.chars
  | .bytes bs => intOfText (bs.map fun b => if b < 0x80 then Char.ofNat b.toNat else '?')
  | _ => .error .notNumber

/-- Neither null, false, zero nor empty. -/
def truthy : Value → Bool
  | .null => false
  | .bool b => b
  | .int n => n != 0
  | .float x => x.isNaN || !(x.isFinite && x.mantissa == 0)
  | .text s => !s.isEmpty
  | .bytes bs => !bs.isEmpty
  | .list xs | .set xs => !xs.isEmpty
  | .dict es => !es.isEmpty
  | _ => true

end Value

end Horn

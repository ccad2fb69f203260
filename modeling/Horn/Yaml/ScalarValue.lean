import Horn.Decimal.Scientific
import Horn.Text.Base64
import Horn.Value.Basic
import Horn.Yaml.Cursor
import Horn.Yaml.Tag

/-!
The value of a scalar: what its text stands for under its tag. Underscores in numbers do not count,
and a colon in a number separates parts to base 60.
-/

namespace Horn.Yaml

inductive ScalarKind where
  | null
  | bool
  | int
  | float
  | binary
  | time
  | text
  deriving DecidableEq, Repr

def ScalarKind.ofTag? (tag : String) : Option ScalarKind :=
  [(nullTag, .null), (coreTag "bool", .bool), (coreTag "int", .int), (coreTag "float", .float),
    (coreTag "binary", .binary), (coreTag "timestamp", .time), (textTag, .text)].lookup tag

namespace ScalarValue

def unbarred (s : List Char) : List Char := s.filter (· != '_')

def parts (s : List Char) : List (List Char) :=
  s.foldr (fun c ps => if c = ':' then [] :: ps else match ps with
    | p :: ps => (c :: p) :: ps
    | [] => [[c]]) [[]]

def orFault (f : Fault) : Option α → Except Fault α
  | some a => .ok a
  | none => .error f

def ofBool (s : List Char) : Except Fault Value :=
  let word := String.ofList (s.map Char.toLower)
  if ["yes", "true", "on"].contains word then .ok (.bool true)
  else if ["no", "false", "off"].contains word then .ok (.bool false)
  else .error .notBoolean

/-- The text without the mark of its base, a zero and a letter of either case, if that stands in
front. -/
def withoutMark (letter : Char) : List Char → List Char
  | '0' :: c :: r => if c.toLower = letter then r else '0' :: c :: r
  | r => r

def digit? (base : Nat) (c : Char) : Option Nat :=
  ((Decimal.radixDigit? c).or (Text.digitValue? c)).filter (· < base)

/-- The integer written in a base, of whose mark the letter is given: blanks at the ends, a sign and
the mark may stand around its digits. -/
def ofRadix (base : Nat) (letter : Char) (s : List Char) : Except Fault Int :=
  let (neg, body) := Decimal.splitSign (Text.strip s)
  match (withoutMark letter body).mapM (digit? base) with
  | none | some [] => .error .notNumber
  | some ds =>
    let n := ds.foldl (fun n d => base * n + d) 0
    .ok (if neg then -(n : Int) else n)

def ofDecimal (s : List Char) : Except Fault Int := orFault .notNumber (Decimal.toInt? s)

def ofUnsignedInt (s : List Char) : Except Fault Int :=
  match s with
  | '0' :: 'b' :: r => ofRadix 2 'b' r
  | '0' :: 'x' :: r => ofRadix 16 'x' r
  | '0' :: _ => ofRadix 8 'o' s
  | _ =>
    if s.contains ':' then do
      return (← (parts s).mapM ofDecimal).foldl (fun n d => 60 * n + d) 0
    else ofDecimal s

def ofInt (s : List Char) : Except Fault Value := do
  let (neg, body) := Decimal.splitSign (unbarred s)
  if body.isEmpty then throw .noDigits
  let n ← ofUnsignedInt body
  return .int (if neg then -n else n)

/-- The floating-point number nearest to a power of 60, unless that is beyond them. -/
def sixtyTo (n : Nat) : Except Fault Binary64 :=
  let x := Binary64.ofDecimal (Nat.pow 60 n) 0
  if x.isFinite then .ok x else .error .tooLarge

/-- The sum of parts to base 60, of which the last counts once; they are added from the last on. -/
def sumSixtieths (xs : List Binary64) : Except Fault Binary64 := do
  let terms ← (xs.reverse.zipIdx 0).mapM fun (x, i) => return x.toFloat * (← sixtyTo i).toFloat
  return Binary64.ofFloat (terms.foldl (· + ·) 0)

def sharedNaN : Binary64 := ⟨0x7ff8000000000000⟩

/-- A number that is a NaN as one of its own, told apart from others by the number of its node. -/
def ownNaN (id : Nat) (x : Binary64) : Binary64 :=
  if x.isNaN then ⟨sharedNaN.word + (id + 1).toUInt64⟩ else x

def ofUnsignedFloat (id : Nat) (s : List Char) : Except Fault Binary64 :=
  if s = ".inf".toList then .ok (Binary64.ofFloat (1 / 0))
  else if s = ".nan".toList then .ok sharedNaN
  else if s.contains ':' then do
    let xs ← (parts s).mapM fun p => orFault .notNumber (Decimal.toBinary64? p)
    return ownNaN id (← sumSixtieths xs)
  else return ownNaN id (← orFault .notNumber (Decimal.toBinary64? s))

/-- The floating-point number of a text; the sign of a NaN does not count. -/
def ofFloat (id : Nat) (s : List Char) : Except Fault Value := do
  let s := (unbarred s).map Char.toLower
  if s.isEmpty then throw .noDigits
  let (neg, body) := Decimal.splitSign s
  let x ← ofUnsignedFloat id body
  return .float (if neg && !x.isNaN then x.negate else x)

def ofBinary (s : List Char) : Except Fault Value :=
  if s.all fun c => decide (c.toNat < 128) then
    orFault .malformed ((Text.base64? s).map .bytes)
  else .error .malformed

def ofDigits (ds : List Char) : Nat := Decimal.ofDigits (ds.map fun c => c.toNat - '0'.toNat)

def zoneOffset (zone : List Char) : Int :=
  match Decimal.splitSign zone with
  | (neg, body) =>
    let (hours, minutes) := (body.takeWhile Char.isDigit, (body.dropWhile Char.isDigit).drop 1)
    let n : Int := 60 * ofDigits hours + ofDigits minutes
    if neg then -n else n

/-- The microseconds of the digits after the point of a second; those past the sixth do not count. -/
def micros (fraction : List Char) : Nat :=
  let ds := fraction.take 6
  ofDigits ds * Nat.pow 10 (6 - ds.length)

def ofWrittenTime (t : WrittenTime) : Except Fault Value :=
  let day : Day := ⟨ofDigits t.year, ofDigits t.month, ofDigits t.day⟩
  match t.time with
  | none => if day.isValid then .ok (.day day) else .error .noSuchTime
  | some (hour, minute, second, fraction, zone) =>
    let t : Moment := ⟨day, ofDigits hour, ofDigits minute, ofDigits second, micros fraction,
      zone.map zoneOffset⟩
    if t.isValid then .ok (.moment t) else .error .noSuchTime

def ofTime (s : List Char) : Except Fault Value := do
  ofWrittenTime (← orFault .notTime (WrittenTime.read? (withoutFinalBreak s)))

end ScalarValue

def ScalarKind.value (k : ScalarKind) (id : Nat) (text : Text.Points) : Except Fault Value :=
  let s := text.chars
  match k with
  | .null => .ok .null
  | .bool => ScalarValue.ofBool s
  | .int => ScalarValue.ofInt s
  | .float => ScalarValue.ofFloat id s
  | .binary => ScalarValue.ofBinary s
  | .time => ScalarValue.ofTime s
  | .text => .ok (.ofPoints text)

end Horn.Yaml

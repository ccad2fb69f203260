import Horn.Decimal.Shortest
import Horn.Text.Quoted
import Horn.Value.Basic

/-!
The texts of values. `Value.literal` writes a value as it stands inside another one; `Value.display`
writes a text and a time plainly and all else as a literal.
-/

namespace Horn.Value

/-- A floating-point number has a point or an exponent, of at least two digits; the exponent is for
sizes below `1e-4` and from `1e16`. -/
def floatLayout : Decimal.Layout :=
  { least := -3, greatest := 16, exponentDigits := 2, infinity := "inf", notANumber := "nan" }

def commas (ts : List String) : String := String.intercalate ", " ts

mutual

def literal : Value → String
  | .null => "None"
  | .bool b => if b then "True" else "False"
  | .int n => Decimal.text n
  | .float x => floatLayout.write x
  | .text s => Text.quoted s
  | .points p => Text.quotedPoints p
  | .bytes bs => Text.quotedBytes bs
  | .day d => d.literal
  | .moment t => t.literal
  | .list xs => "[" ++ commas (literals xs) ++ "]"
  | .pair a b => "(" ++ a.literal ++ ", " ++ b.literal ++ ")"
  | .set xs => if xs.isEmpty then "set()" else "\x7b" ++ commas (literals xs) ++ "\x7d"
  | .dict es => "\x7b" ++ commas (entryLiterals es) ++ "\x7d"
  | .listAgain => "[...]"
  | .dictAgain => "\x7b...\x7d"

def literals : List Value → List String
  | [] => []
  | x :: xs => x.literal :: literals xs

def entryLiterals : List (Value × Value) → List String
  | [] => []
  | (k, v) :: es => (k.literal ++ ": " ++ v.literal) :: entryLiterals es

end

/-- The value as plain text; code points that are no characters are replaced. -/
def display : Value → String
  | .text s => s
  | .points p => String.ofList p.chars
  | .day d => d.text
  | .moment t => t.text
  | v => v.literal

/-- The value as a text, with all its code points. -/
def toText : Value → Value
  | .points p => .points p
  | v => .text v.display

end Horn.Value

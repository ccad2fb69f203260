import Horn.Term.Basic

/-!
Integers and Booleans as the values of terms. A term has no value if it applies a symbol, holds an
array or a quantifier, divides by zero, or has a variable without a value.
-/

namespace Horn

inductive Datum where
  | int (n : Int)
  | bool (b : Bool)
  deriving DecidableEq, Repr

namespace Datum

def term : Datum → Term
  | .int n => .int n
  | .bool b => .bool b

def sort : Datum → TermSort
  | .int _ => .int
  | .bool _ => .bool

/-- The datum as a number, of which a Boolean is 1 or 0. -/
def number : Datum → Int
  | .int n => n
  | .bool b => b.toInt

/-- What an operator makes of data. A quotient is rounded so that no remainder is negative. -/
def operate? : Operator → List Datum → Option Datum
  | .ite, [.bool c, t, f] => some (if c then t else f)
  | .not, [.bool a] => some (.bool !a)
  | .and, [.bool a, .bool b] => some (.bool (a && b))
  | .or, [.bool a, .bool b] => some (.bool (a || b))
  | .implies, [.bool a, .bool b] => some (.bool (!a || b))
  | .eq, [a, b] => some (.bool (a == b))
  | .lt, [.int a, .int b] => some (.bool (a < b))
  | .le, [.int a, .int b] => some (.bool (a ≤ b))
  | .gt, [.int a, .int b] => some (.bool (b < a))
  | .ge, [.int a, .int b] => some (.bool (b ≤ a))
  | .add, [.int a, .int b] => some (.int (a + b))
  | .sub, [.int a, .int b] => some (.int (a - b))
  | .mul, [.int a, .int b] => some (.int (a * b))
  | .div, [.int a, .int b] => if b = 0 then none else some (.int (a / b))
  | _, _ => none

end Datum

abbrev Datum.Valuation := List (Nat × Datum)

namespace Term

mutual

def datum? (ρ : Datum.Valuation) : Term → Option Datum
  | .bool b => some (.bool b)
  | .int n => some (.int n)
  | .var i _ => ρ.lookup i
  | .op o as => (data? ρ as).bind (Datum.operate? o)
  | .app _ _ | .quant _ _ _ => none

def data? (ρ : Datum.Valuation) : List Term → Option (List Datum)
  | [] => some []
  | t :: ts => (datum? ρ t).bind fun d => (data? ρ ts).map (d :: ·)

end

mutual

def vars : Term → List (Nat × TermSort)
  | .var i s => [(i, s)]
  | .app _ as | .op _ as => varsOfAll as
  | _ => []

def varsOfAll : List Term → List (Nat × TermSort)
  | [] => []
  | t :: ts => vars t ++ varsOfAll ts

end

mutual

def numerals : Term → List Int
  | .int n => [n]
  | .app _ as | .op _ as => numeralsOfAll as
  | .quant _ _ t => numerals t
  | _ => []

def numeralsOfAll : List Term → List Int
  | [] => []
  | t :: ts => numerals t ++ numeralsOfAll ts

end

mutual

def isPlain : Term → Bool
  | .bool _ | .int _ | .var _ _ => true
  | .op _ as => arePlain as
  | .app _ _ | .quant _ _ _ => false

def arePlain : List Term → Bool
  | [] => true
  | t :: ts => t.isPlain && arePlain ts

end

/-- The valuations that extend a given one and under which the term has the given value: at most one,
or nothing if that cannot be told. -/
def solve? (ρ : Datum.Valuation) (v : Datum) (t : Term) : Option (List Datum.Valuation) :=
  match t.datum? ρ with
  | some w => some (if w = v then [ρ] else [])
  | none => match t, v with
    | .var i s, v => some (if v.sort = s then [(i, v) :: ρ] else [])
    | .op .not [a], .bool b => solve? ρ (.bool !b) a
    | .op .ite [c, .int 1, .int 0], .int n =>
      if n = 0 ∨ n = 1 then solve? ρ (.bool (n = 1)) c else some []
    | .op .add [a, b], .int n => match a.datum? ρ, b.datum? ρ with
      | some (.int m), none => solve? ρ (.int (n - m)) b
      | none, some (.int m) => solve? ρ (.int (n - m)) a
      | _, _ => none
    | .op .sub [a, b], .int n => match a.datum? ρ, b.datum? ρ with
      | some (.int m), none => solve? ρ (.int (m - n)) b
      | none, some (.int m) => solve? ρ (.int (n + m)) a
      | _, _ => none
    | .op .eq [a, b], .bool true => match a.datum? ρ, b.datum? ρ with
      | some w, none => solve? ρ w b
      | none, some w => solve? ρ w a
      | _, _ => none
    | _, _ => none

end Term

end Horn

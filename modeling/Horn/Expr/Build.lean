import Horn.Expr.Basic

/-!
Building expressions. Where an operand is wanted a plain value may stand; a Boolean or an integer
becomes a literal and all else is refused. With a plain value on the left a comparison is turned
round, so that the expression stands first.
-/

namespace Horn

inductive Operand where
  | expr (e : Expr)
  | value (v : Value)

inductive BuildError where
  /-- The value is neither a Boolean nor an integer. -/
  | notLiteral (v : Value)
  /-- An integer that is to be written out has too many digits. -/
  | tooManyDigits
  /-- The expression called is not annotated with a function sort. -/
  | notFunction (name : String) (sort : SortSpec)
  /-- A plain value stands where an array is wanted. -/
  | notArray
  /-- An expression was asked for its truth. -/
  | noTruth
  /-- An expression was asked for its hash. -/
  | noHash

def BuildError.message? : BuildError → Option String
  | .notLiteral v => some ("cannot build a literal from " ++ v.literal)
  | .notFunction n s => some ("'" ++ n ++ "' is not a function (sort " ++ s.text ++ ")")
  | .noTruth => some "Expression has no truth value; use & | ~ instead of and/or/not"
  | .tooManyDigits | .notArray | .noHash => none

namespace Expr

def ofBool (b : Bool) : Expr := symbol (if b then "true" else "false") .bool

def ofInt (n : Int) : Expr := symbol (Decimal.text n) .int

def ofValue : Value → Except BuildError Expr
  | .bool b => .ok (ofBool b)
  | .int n => if Decimal.fits n then .ok (ofInt n) else .error .tooManyDigits
  | v => .error (if v.fits then .notLiteral v else .tooManyDigits)

def ofOperand : Operand → Except BuildError Expr
  | .expr e => .ok e
  | .value v => ofValue v

def apply (o : Operator) (args : List Expr) (sort : SortSpec) : Expr := .node o.name args sort

def implies (a b : Expr) : Expr := apply .implies [a, b] .bool

def negation (e : Expr) : Expr := apply .not [e] .bool

end Expr

inductive Infix where
  | and
  | or
  | eq
  | ne
  | lt
  | le
  | gt
  | ge
  | add
  | sub
  | mul
  | div
  deriving DecidableEq, Repr

namespace Infix

/-- The infix that says the same of two operands the other way round, if there is one. -/
def turned? : Infix → Option Infix
  | .eq => some .eq
  | .ne => some .ne
  | .lt => some .gt
  | .le => some .ge
  | .gt => some .lt
  | .ge => some .le
  | _ => none

/-- The application of an infix; `sort` is the annotation of an arithmetical result. -/
def apply (i : Infix) (a b : Expr) (sort : SortSpec) : Expr :=
  match i with
  | .and => Expr.apply .and [a, b] .bool
  | .or => Expr.apply .or [a, b] .bool
  | .eq => Expr.apply .eq [a, b] .bool
  | .ne => Expr.negation (Expr.apply .eq [a, b] .bool)
  | .lt => Expr.apply .lt [a, b] .bool
  | .le => Expr.apply .le [a, b] .bool
  | .gt => Expr.apply .gt [a, b] .bool
  | .ge => Expr.apply .ge [a, b] .bool
  | .add => Expr.apply .add [a, b] sort
  | .sub => Expr.apply .sub [a, b] sort
  | .mul => Expr.apply .mul [a, b] sort
  | .div => Expr.apply .div [a, b] sort

/-- An infix between an expression on the left and any operand. -/
def onLeft (i : Infix) (a : Expr) (b : Operand) : Except BuildError Expr := do
  return i.apply a (← Expr.ofOperand b) a.sort

/-- An infix between a plain value on the left and an expression, which gives the annotation. -/
def onRight (i : Infix) (v : Value) (e : Expr) : Except BuildError Expr := do
  let a ← Expr.ofValue v
  return match i.turned? with
    | some j => j.apply e a e.sort
    | none => i.apply a e e.sort

def build (i : Infix) : Operand → Operand → Except BuildError Expr
  | .expr a, b => i.onLeft a b
  | .value v, .expr e => i.onRight v e
  | .value v, b => do i.onLeft (← Expr.ofValue v) b

end Infix

namespace Expr

def neg (e : Expr) : Expr := apply .sub [ofInt 0, e] e.sort

/-- A conditional, annotated like its first branch. -/
def buildIte (c t f : Operand) : Except BuildError Expr := do
  let t ← ofOperand t
  let c ← ofOperand c
  let f ← ofOperand f
  return apply .ite [c, t, f] t.sort

def buildImplies (a b : Operand) : Except BuildError Expr := do
  let a ← ofOperand a
  let b ← ofOperand b
  return implies a b

def elementSort (e : Expr) : SortSpec :=
  match e.sort with
  | .array _ r => r
  | _ => .absent

def buildSelect : Operand → Operand → Except BuildError Expr
  | .value _, _ => .error .notArray
  | .expr a, i => do return apply .select [a, ← ofOperand i] a.elementSort

def buildStore (a i v : Operand) : Except BuildError Expr := do
  let i ← ofOperand i
  let v ← ofOperand v
  match a with
  | .value _ => .error .notArray
  | .expr a => return apply .store [a, i, v] a.sort

def call (f : Expr) (args : List Operand) : Except BuildError Expr :=
  match f.sort with
  | .function _ c => do return .node f.name (← args.mapM ofOperand) c
  | s => .error (if s.fits then .notFunction f.name s else .tooManyDigits)

end Expr

end Horn

import Horn.Decimal.Integer
import Horn.Expr.Build
import Horn.Symbols
import Horn.Term.Build

/-!
The term of an expression. A declared name is its symbol; any other leaf is a literal, and any other
name with arguments an operator. Arguments come first, from left to right, so that the first part
without a term is the one that is blamed.
-/

namespace Horn

inductive TermError where
  /-- A function has another number of arguments than its domain has sorts. -/
  | arity (name : String) (expected got : Nat)
  /-- A constant has arguments. -/
  | applied (name : String)
  /-- A leaf is neither declared nor a literal. -/
  | undeclared (name : String)
  /-- A name with arguments is neither declared nor an operator. -/
  | unknown (name : String)
  /-- An operator has another number of arguments than it takes. -/
  | operatorArity (o : Operator) (got : Nat)
  /-- The sorts of the arguments do not fit. -/
  | refused (e : Expr)
  /-- An array stands where an integer is wanted. -/
  | arrayAsInt
  /-- The term is not a Boolean one. -/
  | notFormula (e : Expr) (s : TermSort)
  /-- A rule does not end in an application of a registered relation. -/
  | notHead (e : Expr)

def TermError.message? : TermError → Option String
  | .arity n k m => some ("'" ++ n ++ "' takes " ++ Decimal.text k ++ " arguments, got " ++ Decimal.text m)
  | .applied n => some ("constant '" ++ n ++ "' applied to arguments")
  | .undeclared n => some ("undeclared symbol '" ++ n ++ "'")
  | .unknown n => some ("unknown operator or undeclared symbol '" ++ n ++ "'")
  | .operatorArity o m =>
    some ("operator '" ++ o.name ++ "' expects " ++ Decimal.text o.arity ++ " arguments, got " ++
      Decimal.text m)
  | .refused e => some ("cannot translate " ++ e.text)
  | .arrayAsInt => none
  | .notFormula e s => some (e.text ++ " is not a formula (sort " ++ s.lines ++ ")")
  | .notHead e => some ("rule head " ++ e.text ++ " is not an application of a registered relation")

namespace Expr

/-- A failed application as an error of the expression it belongs to. -/
def blame (e : Expr) : Except CastError Term → Except TermError Term
  | .ok t => .ok t
  | .error .refused => .error (.refused e)
  | .error .arrayAsInt => .error .arrayAsInt

def literalTerm (name : String) : Except TermError Term :=
  if name = "true" then .ok (.bool true)
  else if name = "false" then .ok (.bool false)
  else match Decimal.toInt? name.toList with
    | some n => .ok (.int n)
    | none => .error (.undeclared name)

/-- The term of a name that is not declared. -/
def undeclaredTerm (e : Expr) : List Term → Except TermError Term
  | [] => literalTerm e.name
  | ts => match Operator.ofName? e.name with
    | none => .error (.unknown e.name)
    | some o =>
      if o.arity = ts.length then blame e (Term.ofOperator o ts)
      else .error (.operatorArity o ts.length)

/-- The term of the root of an expression over the terms of its arguments. -/
def rootTerm (Γ : Symbols) (e : Expr) (ts : List Term) : Except TermError Term :=
  match Γ.function? e.name with
  | some f =>
    if f.domain.length = ts.length then blame e (Term.ofSymbol f ts)
    else .error (.arity e.name f.domain.length ts.length)
  | none => match Γ.constant? e.name with
    | some _ => .error (.applied e.name)
    | none => undeclaredTerm e ts

mutual

def toTerm (Γ : Symbols) : Expr → Except TermError Term
  | .node n as s => match as, Γ.constant? n with
    | [], some c => .ok (.const c)
    | _, _ => do rootTerm Γ (.node n as s) (← toTerms Γ as)

def toTerms (Γ : Symbols) : List Expr → Except TermError (List Term)
  | [] => .ok []
  | e :: es => do
    let t ← toTerm Γ e
    let ts ← toTerms Γ es
    return t :: ts

end

/-- The term of an expression that is to be a rule or a goal. -/
def toFormula (Γ : Symbols) (e : Expr) : Except TermError Term := do
  let t ← e.toTerm Γ
  if t.sort = .bool then return t else .error (.notFormula e t.sort)

end Expr

end Horn

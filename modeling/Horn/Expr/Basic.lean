import Horn.Expr.Operator
import Horn.SortSpec

/-!
Expressions: a name applied to arguments, annotated with a sort. A name may be that of a declared
symbol, a literal or an operator; which one is decided only when a term is made of the expression.
-/

namespace Horn

inductive Expr where
  | node (name : String) (args : List Expr) (sort : SortSpec)

namespace Expr

def name : Expr → String
  | .node n _ _ => n

def args : Expr → List Expr
  | .node _ as _ => as

def sort : Expr → SortSpec
  | .node _ _ s => s

def symbol (name : String) (sort : SortSpec) : Expr := .node name [] sort

mutual

def text : Expr → String
  | .node n [] _ => n
  | .node n (a :: as) _ => "(" ++ n ++ " " ++ String.intercalate " " (a.text :: texts as) ++ ")"

def texts : List Expr → List String
  | [] => []
  | e :: es => e.text :: texts es

end

/-- The text with the annotation, as a literal value. -/
def literal (e : Expr) : String :=
  "Expression(" ++ Text.quoted e.text ++ ", sort=" ++ e.sort.text ++ ")"

mutual

def same : Expr → Expr → Bool
  | .node n as s, .node m bs t => n == m && s.same t && sameAll as bs

def sameAll : List Expr → List Expr → Bool
  | [], [] => true
  | a :: as, b :: bs => a.same b && sameAll as bs
  | _, _ => false

end

def operator? (e : Expr) : Option Operator := Operator.ofName? e.name

/-- The root does not name an operator, or has as many arguments as the operator takes. -/
def arityFits (e : Expr) : Bool := e.operator?.all fun o => o.arity == e.args.length

end Expr

end Horn

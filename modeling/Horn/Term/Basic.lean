import Horn.Expr.Operator
import Horn.Term.Sort

/-!
Terms. Bound variables are de Bruijn indices that carry their sort; `Term.close` binds constants, the
last of them at index 0. An index that points past all binders keeps pointing past one more.
-/

namespace Horn

inductive Quantifier where
  | all
  | any
  deriving DecidableEq, Repr

inductive Term where
  | bool (b : Bool)
  | int (n : Int)
  | app (f : Symbol) (args : List Term)
  | op (o : Operator) (args : List Term)
  | var (i : Nat) (sort : TermSort)
  | quant (q : Quantifier) (binders : List (String × TermSort)) (body : Term)

namespace Term

def const (f : Symbol) : Term := .app f []

/-- The sort of a term whose parts fit together. -/
def sort : Term → TermSort
  | .bool _ => .bool
  | .int _ => .int
  | .app f _ => f.range
  | .op .ite (_ :: t :: _) => t.sort
  | .op .select (a :: _) => match a.sort with
    | .array _ r => r
    | s => s
  | .op .store (a :: _) => a.sort
  | .op .add _ | .op .sub _ | .op .mul _ | .op .div _ => .int
  | .op _ _ => .bool
  | .var _ s => s
  | .quant _ _ _ => .bool

def args : Term → List Term
  | .app _ as | .op _ as => as
  | _ => []

/-- The formula under an outer quantifier. -/
def matrix : Term → Term
  | .quant _ _ t => t
  | t => t

mutual

/-- No bound variable and no quantifier occurs in the term. -/
def isGround : Term → Bool
  | .bool _ | .int _ => true
  | .app _ as | .op _ as => areGround as
  | .var _ _ | .quant _ _ _ => false

def areGround : List Term → Bool
  | [] => true
  | t :: ts => t.isGround && areGround ts

end

mutual

/-- The term with the given constants bound from outside, `k` binders up: the last of them has the
index `k`, the one before it the next, and an index that points farther moves past them all. -/
def closeAt (cs : List Symbol) (k : Nat) : Term → Term
  | .bool b => .bool b
  | .int n => .int n
  | .app f as => match as, cs.reverse.idxOf? f with
    | [], some i => .var (k + i) f.range
    | _, _ => .app f (closeAllAt cs k as)
  | .op o as => .op o (closeAllAt cs k as)
  | .var i s => .var (if k ≤ i then i + cs.length else i) s
  | .quant q bs t => .quant q bs (closeAt cs (k + bs.length) t)

def closeAllAt (cs : List Symbol) (k : Nat) : List Term → List Term
  | [] => []
  | t :: ts => closeAt cs k t :: closeAllAt cs k ts

end

/-- The term under one binder for all the given constants, or as it is if there are none. -/
def close (q : Quantifier) (cs : List Symbol) (t : Term) : Term :=
  if cs.isEmpty then t
  else .quant q (cs.map fun c => (c.name, c.range)) (closeAt cs 0 t)

end Term

end Horn

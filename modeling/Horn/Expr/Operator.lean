/-!
The built-in operators of expressions, their names and arities.
-/

namespace Horn

inductive Operator where
  | ite
  | not
  | and
  | or
  | implies
  | eq
  | lt
  | le
  | gt
  | ge
  | add
  | sub
  | mul
  | div
  | select
  | store
  deriving DecidableEq, Repr

namespace Operator

/-- The name that stands for the operator in an expression. -/
def name : Operator → String
  | .ite => "ite"
  | .not => "not"
  | .and => "and"
  | .or => "or"
  | .implies => "=>"
  | .eq => "="
  | .lt => "<"
  | .le => "<="
  | .gt => ">"
  | .ge => ">="
  | .add => "+"
  | .sub => "-"
  | .mul => "*"
  | .div => "/"
  | .select => "select"
  | .store => "store"

def all : List Operator :=
  [.ite, .not, .and, .or, .implies, .eq, .lt, .le, .gt, .ge, .add, .sub, .mul, .div, .select, .store]

def ofName? (n : String) : Option Operator := all.find? fun o => o.name == n

def arity : Operator → Nat
  | .not => 1
  | .ite | .store => 3
  | _ => 2

/-- **A name stands for at most one operator, and every operator has one.** -/
theorem ofName?_name (o : Operator) : ofName? o.name = some o := by cases o <;> decide

theorem name_injective {o p : Operator} (h : o.name = p.name) : o = p := by
  have hp := ofName?_name p
  rw [← h, ofName?_name] at hp
  exact Option.some.inj hp

theorem ofName?_eq_some_iff {n : String} {o : Operator} : ofName? n = some o ↔ o.name = n := by
  constructor
  · intro h
    simpa using List.find?_some h
  · rintro rfl
    exact ofName?_name o

end Operator

end Horn

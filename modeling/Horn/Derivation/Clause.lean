import Horn.Derivation.Datum

/-!
Horn clauses and goals in the form in which facts are derived from them. The body of a clause is a
choice of cases; a case is a list of literals, all of which have to hold.
-/

namespace Horn

/-- A condition in the body of a clause. -/
inductive Literal where
  /-- The relation holds of the terms. -/
  | fact (f : Symbol) (args : List Term)
  /-- The formula, in which no symbol occurs, is true. -/
  | test (t : Term)

namespace Literal

def terms : Literal → List Term
  | .fact _ as => as
  | .test t => [t]

def isFact : Literal → Bool
  | .fact _ _ => true
  | .test _ => false

end Literal

abbrev Case := List Literal

namespace Term

mutual

/-- The cases in which a formula is true; none are given for one in which a relation stands elsewhere
than under conjunctions and disjunctions. -/
def cases? : Term → Option (List Case)
  | .app f as => if arePlain as then some [[.fact f as]] else none
  | .op .and as => bothCases? as
  | .op .or as => eitherCases? as
  | t => if t.isPlain then some [[.test t]] else none

/-- The cases in which all the formulas are true. -/
def bothCases? : List Term → Option (List Case)
  | [] => some [[]]
  | t :: ts => do
    let cs ← cases? t
    let ds ← bothCases? ts
    return cs.flatMap fun c => ds.map (c ++ ·)

def eitherCases? : List Term → Option (List Case)
  | [] => some []
  | t :: ts => do
    let cs ← cases? t
    return cs ++ (← eitherCases? ts)

end

end Term

/-- A clause: the relation that its head applies, to which terms, and the cases of its body. -/
structure Clause where
  relation : Symbol
  args : List Term
  cases : List Case

namespace Clause

def ofRule? (t : Term) : Option Clause :=
  match t.matrix with
  | .op .implies [b, .app f as] => if Term.arePlain as then b.cases?.map (⟨f, as, ·⟩) else none
  | .app f as => if Term.arePlain as then some ⟨f, as, [[]]⟩ else none
  | _ => none

def terms (c : Clause) : List Term := c.args ++ c.cases.flatten.flatMap Literal.terms

end Clause

end Horn

import Horn.Derivation.Bounds
import Horn.Derivation.Stratified
import Horn.Derivation.Unfolding
import Horn.Engine.Basic

/-!
Deciding a goal. It is reachable if some facts derived from the clauses make it hold, and it is not if
all facts were found and make it fail, or if bounds that the clauses keep contradict it. Where single
facts do not tell, regions of facts, invariants and a search backwards from the goal may. Otherwise,
and when the budget is next to nothing, nothing is said.
-/

namespace Horn

/-- What is found out about a goal. -/
inductive Decision where
  /-- The goal is reached by these facts, in the order in which they follow from each other. -/
  | reached (proof : List Fact)
  | unreachable
  | undecided
  deriving Repr

namespace Decision

def verdict : Decision → Verdict
  | .reached _ => .sat
  | .unreachable => .unsat
  | .undecided => .unknown

def trace : Decision → List Term
  | .reached φs => φs.map Fact.term
  | _ => []

def ofCases (cs : List Clause) (goal : List Case) (budget : Nat) : Decision :=
  let P := Program.ofClauses cs goal
  let S := P.saturate budget
  if S.finished then
    let found := Found.union (goal.map fun c => c.solutions ⟨S.known, [], P.samples⟩)
    match found.results with
    | s :: _ => .reached s.proof
    | [] =>
      if S.complete && found.complete then .unreachable
      else if Bounds.refutes cs (S.known.map (·.fact)) goal then .unreachable
      else .undecided
  else .undecided

/-- What is found out about a goal where it is known whether it is reached. -/
def ofAnswer : Option Bool → Decision
  | some true => .reached []
  | some false => .unreachable
  | none => .undecided

/-- The first decision of two that is one. -/
def orElse (d : Decision) (e : Unit → Decision) : Decision :=
  match d with
  | .undecided => e ()
  | d => d

/-- The integers at which arrays are looked at: those at which an element is read or written, as many
as that is done at most. -/
def watched (ts : List Term) : List Int := ((Term.indicesOfAll ts).eraseDups).take 6

def rounds : Nat := 12

def steps : Nat := 300

/-- What regions of facts tell about a goal, and else invariants and a search backwards. -/
def ofRegions (rules : List Term) (goal : Term) : Decision :=
  let watched := watched (goal :: rules)
  let P := Problem.ofRules watched rules goal
  let S := Spread.ofProblem P rounds
  if S.reached == some true && P.isExact then .reached []
  else if S.closed && P.complete && S.reached == some false then .unreachable
  else
    let numerals := Term.numeralsOfAll (goal :: rules)
    let found := Invariants.refuting P numerals S.regions
    if found.any fun I => I.refute P.goal then .unreachable
    else ofAnswer (Unfolding.answer? ⟨rules, watched, found⟩ goal steps)

def ofGoal (R : Reasoning) (rules : List Term) (goal : Term) (budget : Nat) : Decision :=
  let facts := match rules.mapM Clause.ofRule?, goal.matrix.cases? with
    | some cs, some g => ofCases cs g budget
    | _, _ => .undecided
  facts.orElse fun _ =>
    if R = .propositional then ofAnswer (goal.followsFrom? rules)
    else ofRegions rules goal

end Decision

end Horn

import Horn.Derivation.Inference

/-!
Which rules and goals are taken on. Rules of finite sorts are read as propositions, and a relation may
be denied in them if that does not go round in a circle. With integers no relation may be denied, and
no rule may apply a function other than a relation or divide by what may be zero. A relation may stand
under connectives only.
-/

namespace Horn

namespace TermSort

def isFinite : TermSort → Bool
  | .int => false
  | .bool => true
  | .array d r => d.isFinite && r.isFinite

end TermSort

/-- How rules are reasoned about. -/
inductive Reasoning where
  | propositional
  | arithmetical
  deriving DecidableEq, Repr

inductive Refusal where
  | nestedRelation
  | deniedRelation
  | circularDenial
  | function
  | divisor
  | infiniteSort
  deriving DecidableEq, Repr

def Refusal.message : Refusal → String
  | .nestedRelation => "a relation occurs inside a term"
  | .deniedRelation => "a relation is denied"
  | .circularDenial => "a relation hangs on its own denial"
  | .function => "a function occurs in a rule"
  | .divisor => "a divisor may be zero"
  | .infiniteSort => "a variable of a rule has infinitely many values"

namespace Term

mutual

/-- The test holds of the term or some part of it. -/
def has (p : Term → Bool) (t : Term) : Bool :=
  p t || match t with
    | .app _ as | .op _ as => anyHas p as
    | .quant _ _ b => has p b
    | _ => false

def anyHas (p : Term → Bool) : List Term → Bool
  | [] => false
  | t :: ts => has p t || anyHas p ts

end

def isRelation : Term → Bool
  | .app f _ => f.range = .bool
  | _ => false

/-- The term applies a function that is no relation. -/
def isFunction : Term → Bool
  | .app f _ => f.range ≠ .bool
  | _ => false

/-- The term has infinitely many values or is an undetermined Boolean. -/
def isOpen (t : Term) : Bool :=
  !t.sort.isFinite || match t with
    | .var _ s => s = .bool
    | _ => false

/-- The term is a variable with infinitely many values. -/
def isInfiniteVar : Term → Bool
  | .var _ s => !s.isFinite
  | _ => false

/-- The linear form of a term, if no more than sums and multiples occur in it. -/
def linear? : Term → Option Linear.Form
  | .int n => some (.ofInt n)
  | .var i .int => some (.var i)
  | .op .add [a, b] => do return (← linear? a).add (← linear? b)
  | .op .sub [a, b] => do return (← linear? a).sub (← linear? b)
  | .op .mul [a, b] => do
    let s ← linear? a
    let t ← linear? b
    if s.isConst then some (t.scale s.const) else if t.isConst then some (s.scale t.const) else none
  | _ => none

def mayDivideByZero : Term → Bool
  | .op .div [_, b] => !(b.linear?.any fun t => t.isConst && t.const != 0)
  | _ => false

/-- The relations in a formula under connectives, and whether they are affirmed, given whether the
formula is. -/
def occurrences (affirmed : Bool) : Term → List (Symbol × Bool)
  | .app f _ => [(f, affirmed)]
  | .op .not [a] => occurrences (!affirmed) a
  | .op .and [a, b] | .op .or [a, b] => occurrences affirmed a ++ occurrences affirmed b
  | .op .implies [a, b] => occurrences (!affirmed) a ++ occurrences affirmed b
  | _ => []

/-- A relation occurs elsewhere than under connectives. -/
def nests : Term → Bool
  | .app _ as => anyHas isRelation as
  | .op .not [a] => nests a
  | .op .and [a, b] | .op .or [a, b] | .op .implies [a, b] => nests a || nests b
  | t => t.has isRelation

end Term

namespace Reasoning

def ofGoal (rules : List Term) (goal : Term) : Reasoning :=
  if (goal :: rules).any fun t => t.matrix.has Term.isOpen then .arithmetical else .propositional

end Reasoning

/-- How far down relations stand, so that a relation that is denied stands below those that hang on
it. -/
abbrev Strata := List (Symbol × Nat)

namespace Strata

def place (S : Strata) (f : Symbol) : Nat := (S.lookup f).getD 0

/-- The places with the head of a rule far enough up. -/
def raise (S : Strata) (rule : Term) : Strata :=
  match rule.headAndBody? with
  | none => S
  | some (f, _, b) =>
    let n := (b.occurrences true).foldl (fun n (g, affirmed) =>
      max n (if affirmed then S.place g else S.place g + 1)) (S.place f)
    if n = S.place f then S else (f, n) :: S.filter fun e => e.1 != f

/-- Places for the relations of rules, if some are found in the given number of rounds. -/
def settle (rules : List Term) : Nat → Strata → Option Strata
  | 0, _ => none
  | n + 1, S =>
    let T := rules.foldl raise S
    if rules.all fun r => (match r.headAndBody? with
        | some (f, _, _) => T.place f == S.place f
        | none => true) then some S
    else settle rules n T

/-- Places for the relations of rules, unless a relation hangs on its own denial. -/
def ofRules? (rules : List Term) : Option Strata := settle rules (rules.length * rules.length + 2) []

end Strata

namespace Reasoning

def denies (t : Term) : Bool := (t.occurrences true).any fun e => !e.2

def refuseRule? (R : Reasoning) (rule : Term) : Option Refusal :=
  match rule.headAndBody? with
  | none => some .nestedRelation
  | some (_, as, b) =>
    if b.nests || Term.anyHas Term.isRelation as then some .nestedRelation
    else match R with
      | .propositional => if rule.matrix.has Term.isInfiniteVar then some .infiniteSort else none
      | .arithmetical =>
        if denies b then some .deniedRelation
        else if rule.matrix.has Term.isFunction then some .function
        else if rule.matrix.has Term.mayDivideByZero then some .divisor
        else none

def refuseGoal? (R : Reasoning) (goal : Term) : Option Refusal :=
  if goal.matrix.nests then some .nestedRelation
  else if R = .arithmetical && denies goal.matrix then some .deniedRelation
  else none

def refuse? (R : Reasoning) (rules : List Term) (goal : Term) : Option Refusal :=
  (rules.findSome? R.refuseRule?).or
    ((R.refuseGoal? goal).or
      (if R = .propositional && (Strata.ofRules? rules).isNone then some .circularDenial else none))

end Reasoning

end Horn

import Horn.Derivation.Saturation

/-!
Bounds on the numbers that a relation holds of. The bounds of the facts found so far are a guess;
those that some clause breaks are dropped until none is broken. What is left holds of all facts, also
of those that were not looked for, so a goal that contradicts it cannot be reached.
-/

namespace Horn

/-- The numbers between two bounds, each of which may be missing. A Boolean counts as 1 or 0. -/
structure Interval where
  least : Option Int
  greatest : Option Int
  deriving DecidableEq, Repr

namespace Interval

def full : Interval := ⟨none, none⟩

def single (n : Int) : Interval := ⟨some n, some n⟩

def bools : Interval := ⟨some 0, some 1⟩

def ofSort (s : TermSort) : Interval := if s = .bool then bools else full

def isEmpty (I : Interval) : Bool :=
  match I.least, I.greatest with
  | some a, some b => decide (b < a)
  | _, _ => false

def meet (I J : Interval) : Interval :=
  ⟨I.least.merge max J.least, I.greatest.merge min J.greatest⟩

def hull (I J : Interval) : Interval :=
  ⟨(I.least.bind fun a => J.least.map (min a)), (I.greatest.bind fun a => J.greatest.map (max a))⟩

def add (I J : Interval) : Interval :=
  ⟨I.least.bind fun a => J.least.map (a + ·), I.greatest.bind fun a => J.greatest.map (a + ·)⟩

def neg (I : Interval) : Interval := ⟨I.greatest.map (- ·), I.least.map (- ·)⟩

def sub (I J : Interval) : Interval := I.add J.neg

/-- The numbers that are at most some number of the interval, `gap` apart. -/
def below (I : Interval) (gap : Int) : Interval := ⟨none, I.greatest.map (· - gap)⟩

/-- The numbers that are at least some number of the interval, `gap` apart. -/
def above (I : Interval) (gap : Int) : Interval := ⟨I.least.map (· + gap), none⟩

/-- The bounds of the first interval that the second respects. -/
def keep (I J : Interval) : Interval :=
  ⟨I.least.filter fun a => J.least.any (a ≤ ·), I.greatest.filter fun a => J.greatest.any (· ≤ a)⟩

end Interval

abbrev Ranges := List (Nat × Interval)

namespace Term

/-- An interval that holds the value of a term. -/
def range (ρ : Ranges) : Term → Interval
  | .bool b => .single b.toInt
  | .int n => .single n
  | .var i s => (Interval.ofSort s).meet ((ρ.lookup i).getD .full)
  | .op .add [a, b] => (range ρ a).add (range ρ b)
  | .op .sub [a, b] => (range ρ a).sub (range ρ b)
  | .op .ite [_, a, b] => (range ρ a).hull (range ρ b)
  | t => Interval.ofSort t.sort

/-- The ranges under which a term has a value in the interval; none if there is no such value. -/
def narrow (I : Interval) (ρ : Ranges) (t : Term) : Option Ranges :=
  let J := (t.range ρ).meet I
  if J.isEmpty then none
  else match t with
    | .var i _ => some ((i, J) :: ρ)
    | .op .add [a, b] => do
      let ρ ← narrow (J.sub (b.range ρ)) ρ a
      narrow (J.sub (a.range ρ)) ρ b
    | .op .sub [a, b] => do
      let ρ ← narrow (J.add (b.range ρ)) ρ a
      narrow ((a.range ρ).sub J) ρ b
    | .op .ite [c, .int 1, .int 0] => narrow J ρ c
    | _ => some ρ

/-- The ranges under which one term lies below another one, at least `gap` apart. -/
def narrowOrder (gap : Int) (ρ : Ranges) (a b : Term) : Option Ranges := do
  let ρ ← a.narrow ((b.range ρ).below gap) ρ
  b.narrow ((a.range ρ).above gap) ρ

/-- The ranges under which a formula has a truth value; none if it cannot have it. -/
def narrowTruth (ρ : Ranges) : Bool → Term → Option Ranges
  | v, .op .not [t] => narrowTruth ρ (!v) t
  | true, .op .and [a, b] => do narrowTruth (← narrowTruth ρ true a) true b
  | false, .op .or [a, b] => do narrowTruth (← narrowTruth ρ false a) false b
  | true, .op .eq [a, b] => do
    let ρ ← a.narrow (b.range ρ) ρ
    b.narrow (a.range ρ) ρ
  | true, .op .le [a, b] | true, .op .ge [b, a] | false, .op .gt [a, b] | false, .op .lt [b, a] =>
    narrowOrder 0 ρ a b
  | true, .op .lt [a, b] | true, .op .gt [b, a] | false, .op .ge [a, b] | false, .op .le [b, a] =>
    narrowOrder 1 ρ a b
  | v, t => t.narrow (.single v.toInt) ρ

end Term

/-- Bounds of the arguments of relations; a relation that is not listed holds of nothing. -/
abbrev Bounds := List (Symbol × List Interval)

namespace Bounds

def insert (β : Bounds) (φ : Fact) : Bounds :=
  let own := φ.args.map fun d => Interval.single d.number
  match β.lookup φ.relation with
  | some Is => (φ.relation, List.zipWith Interval.hull Is own) :: β.filter fun e => e.1 != φ.relation
  | none => (φ.relation, own) :: β

def around (φs : List Fact) : Bounds := φs.foldl insert []

/-- The ranges under which a literal may hold. -/
def narrowLiteral (β : Bounds) (ρ : Ranges) : Literal → Option Ranges
  | .test t => t.narrowTruth ρ true
  | .fact f as => do
    let Is ← β.lookup f
    (List.zip as Is).foldlM (fun ρ (a, I) => a.narrow I ρ) ρ

def rangesOf (β : Bounds) (c : Case) : Option Ranges :=
  (List.range (c.length + 1)).foldlM (fun ρ _ => c.foldlM (narrowLiteral β) ρ) []

/-- The bounds without those that a clause breaks. -/
def weaken (β : Bounds) (c : Clause) : Bounds :=
  (c.cases.filterMap β.rangesOf).foldl (fun β ρ =>
    match β.lookup c.relation with
    | some Is =>
      let Js := List.zipWith (fun I a => I.keep (Term.range ρ a)) Is c.args
      if Is == Js then β else (c.relation, Js) :: β.filter fun e => e.1 != c.relation
    | none => (c.relation, c.args.map fun _ => .full) :: β) β

def isKept (β : Bounds) (cs : List Clause) : Bool := cs.all fun c => β.weaken c == β

/-- The bounds that are left when no clause breaks one any more, if that is reached in the given
number of rounds. -/
def settle (cs : List Clause) : Nat → Bounds → Option Bounds
  | 0, _ => none
  | n + 1, β => if β.isKept cs then some β else settle cs n (cs.foldl weaken β)

/-- The number of rounds in which every bound may be dropped. -/
def rounds (cs : List Clause) : Nat := cs.foldl (fun n c => n + 1 + 2 * c.args.length) 1

/-- No fact within bounds that the clauses keep makes a case of the goal hold. -/
def refutes (cs : List Clause) (facts : List Fact) (goal : List Case) : Bool :=
  (settle cs (rounds cs) (around facts)).any fun β => goal.all fun c => (β.rangesOf c).isNone

end Bounds

end Horn

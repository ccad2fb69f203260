import Horn.Derivation.Clause
import Horn.Derivation.Found

/-!
Deriving facts from clauses, round by round. In every round one of the facts used has to be new, so
nothing is derived twice from the same facts. Facts with numbers far outside those of the program are
dropped, and a variable that nothing determines takes a few values only: whether that happened is
kept, because only a search without it has found everything.
-/

namespace Horn

/-- A relation that holds of some data. -/
structure Fact where
  relation : Symbol
  args : List Datum
  deriving DecidableEq, Repr

namespace Fact

def term (φ : Fact) : Term := .app φ.relation (φ.args.map Datum.term)

end Fact

/-- A fact, with the facts that lead to it, each after those it hangs on, and itself last. -/
structure Derived where
  fact : Fact
  proof : List Fact
  deriving Repr

/-- Where a search looks: the facts it knows, which of them are new, and the values that a variable
takes that nothing determines. -/
structure Base where
  known : List Derived
  fresh : List Derived
  samples : List Int

/-- A solution of a case: values of variables, and the facts used. -/
structure Solution where
  valuation : Datum.Valuation
  proof : List Fact

/-- What is left to do of a case: literals, and among them maybe one that has to be met by a new
fact. -/
structure Pending where
  fresh : Option (Symbol × List Term)
  literals : Case

namespace Pending

/-- The first test that can be carried out, the valuations it leaves, and the literals without it. -/
def test? (ρ : Datum.Valuation) : Case → Option (List Datum.Valuation × Case)
  | [] => none
  | .test t :: ls => match t.solve? ρ (.bool true) with
    | some ρs => some (ρs, ls)
    | none => (test? ρ ls).map fun (ρs, rest) => (ρs, .test t :: rest)
  | l :: ls => (test? ρ ls).map fun (ρs, rest) => (ρs, l :: rest)

/-- The first literal about a relation, and the literals without it. -/
def fact? : Case → Option ((Symbol × List Term) × Case)
  | [] => none
  | .fact f as :: ls => some ((f, as), ls)
  | l :: ls => (fact? ls).map fun (a, rest) => (a, l :: rest)

def unbound? (ρ : Datum.Valuation) (ls : Case) : Option (Nat × TermSort) :=
  (ls.flatMap fun l => Term.varsOfAll l.terms).find? fun v => (ρ.lookup v.1).isNone

def equations (as : List Term) (ds : List Datum) : Case :=
  List.zipWith (fun a d => .test (.op .eq [a, d.term])) as ds

def join (ps qs : List Fact) : List Fact := ps ++ qs.filter fun q => !ps.contains q

/-- The solutions of what is left of a case. -/
def search (B : Base) : Nat → Pending → Solution → Found Solution
  | 0, _, _ => ⟨[], false⟩
  | n + 1, p, s =>
    let meet (ds : List Derived) (a : Symbol × List Term) (rest : Case) : Found Solution :=
      .union ((ds.filter fun d => d.fact.relation == a.1).map fun d =>
        search B n ⟨none, equations a.2 d.fact.args ++ rest⟩ ⟨s.valuation, join s.proof d.proof⟩)
    match p.fresh, test? s.valuation p.literals, fact? p.literals with
    | some a, _, _ => meet B.fresh a p.literals
    | none, some (ρs, rest), _ => .union (ρs.map fun ρ => search B n ⟨none, rest⟩ { s with valuation := ρ })
    | none, none, some (a, rest) => meet B.known a rest
    | none, none, none =>
      let values (ds : List Datum) (i : Nat) : Found Solution :=
        .union (ds.map fun d => search B n p { s with valuation := (i, d) :: s.valuation })
      match unbound? s.valuation p.literals with
      | some (i, .bool) => values [.bool true, .bool false] i
      | some (i, .int) => { values (B.samples.map .int) i with complete := false }
      | some (_, .array _ _) => ⟨[], false⟩
      | none => if p.literals.isEmpty then ⟨[s], true⟩ else ⟨[], false⟩

def steps (ls : Case) : Nat :=
  ls.foldl (fun n l => n + 1 + 2 * l.terms.length + (Term.varsOfAll l.terms).length) 1

/-- The ways in which one literal about a relation is met by a new fact. -/
def freshly : Case → Case → List Pending
  | _, [] => []
  | before, .fact f as :: ls =>
    ⟨some (f, as), before ++ ls⟩ :: freshly (before ++ [.fact f as]) ls
  | before, l :: ls => freshly (before ++ [l]) ls

end Pending

def Case.solutions (c : Case) (B : Base) : Found Solution :=
  Pending.search B (Pending.steps c) ⟨none, c⟩ ⟨[], []⟩

/-- The solutions of a case that use a new fact; those of a case without facts count as such in the
first round only. -/
def Case.newSolutions (c : Case) (B : Base) (first : Bool) : Found Solution :=
  if c.any Literal.isFact then
    .union ((Pending.freshly [] c).map fun p => Pending.search B (Pending.steps c) p ⟨[], []⟩)
  else if first then c.solutions B
  else ⟨[], true⟩

namespace Clause

/-- The terms of the head, as literals that hold as soon as their variables have values. -/
def headLiterals (c : Clause) : Case := c.args.map fun a => .test (.op .eq [a, a])

/-- What the clause derives from a solution. -/
def derive? (c : Clause) (s : Solution) : Option Derived :=
  (Term.data? s.valuation c.args).map fun ds =>
    let φ : Fact := ⟨c.relation, ds⟩
    ⟨φ, Pending.join s.proof [φ]⟩

/-- What the clause derives with the help of a new fact. -/
def derive (c : Clause) (B : Base) (first : Bool) : Found Derived :=
  let found := Found.union (c.cases.map fun b => Case.newSolutions (b ++ c.headLiterals) B first)
  let ds := found.results.map c.derive?
  ⟨ds.filterMap id, found.complete && ds.all Option.isSome⟩

end Clause

/-- Clauses, and the numbers between which facts are looked for. -/
structure Program where
  clauses : List Clause
  least : Int
  greatest : Int
  samples : List Int

namespace Program

/-- The program of clauses that a goal is put to. The numbers reach as far around those that occur as
the largest of them, and a little farther. -/
def ofClauses (cs : List Clause) (goal : List Case) : Program :=
  let ns := (0 :: Term.numeralsOfAll (cs.flatMap Clause.terms ++ goal.flatten.flatMap Literal.terms)).eraseDups
  let least := ns.foldl min 0
  let greatest := ns.foldl max 0
  let reach := max greatest (-least) + 16
  ⟨cs, least - reach, greatest + reach, (ns.flatMap fun n => [n - 1, n, n + 1]).eraseDups⟩

def holds (P : Program) (φ : Fact) : Bool :=
  φ.args.all fun d => decide (P.least ≤ d.number ∧ d.number ≤ P.greatest)

/-- The facts of a list that are neither known nor earlier in the list. -/
def unseen (known : List Derived) (ds : List Derived) : List Derived :=
  ds.foldl (fun new d =>
    if (known ++ new).any fun e => e.fact == d.fact then new else new ++ [d]) []

/-- What a saturation ends with: the facts, whether they are all there are, and whether the budget
was enough. -/
structure Saturated where
  known : List Derived
  complete : Bool
  finished : Bool

/-- The ways to meet literals about relations by known facts, of which one is new, if each relation has
the given numbers of known and of new facts. -/
def meetings (count : Symbol → Nat × Nat) : List Symbol → Nat × Nat
  | [] => (1, 0)
  | f :: fs =>
    let (known, fresh) := count f
    let (all, new) := meetings count fs
    (known * all, fresh * all + (known - fresh) * new)

/-- The work that a case of a clause is in a round: the ways to meet its relations, times the values
that the variables take which occur in none of them. -/
def work (B : Base) (first : Bool) (args : List Term) (c : Case) : Nat :=
  let met := c.filterMap fun l => match l with
    | .fact f _ => some f
    | .test _ => none
  let bound := (c.filter Literal.isFact).flatMap fun l => Term.varsOfAll l.terms
  let free := ((Term.varsOfAll (args ++ c.flatMap Literal.terms)).filter fun v =>
    v.2 = .int && !bound.contains v).eraseDups
  let values := Nat.pow B.samples.length free.length
  if met.isEmpty then if first then values else 0
  else
    let count (f : Symbol) : Nat × Nat :=
      let own (ds : List Derived) := (ds.filter fun d => d.fact.relation == f).length
      (own B.known, own B.fresh)
    (meetings count met).2 * values

def roundWork (P : Program) (B : Base) (first : Bool) : Nat :=
  P.clauses.foldl (fun n c => c.cases.foldl (fun n b => n + work B first c.args b) (n + 1)) B.known.length

def mostFacts : Nat := 1500

/-- The facts that follow, given those known, of which some are new, while the budget is enough for the
work of a round. -/
def saturateFrom (P : Program) : Nat → Nat → Bool → Base → Bool → Saturated
  | 0, _, _, B, _ => ⟨B.known, false, false⟩
  | n + 1, budget, first, B, complete =>
    let cost := P.roundWork B first
    if budget < cost || mostFacts < B.known.length then ⟨B.known, false, false⟩
    else
      let found := Found.union (P.clauses.map fun c => c.derive B first)
      let within := found.results.filter fun d => P.holds d.fact
      let complete := complete && found.complete && within.length == found.results.length
      if mostFacts < within.length then ⟨B.known, false, false⟩
      else
        let new := unseen B.known within
        if new.isEmpty then ⟨B.known, complete, true⟩
        else saturateFrom P n (budget - cost) false { B with known := B.known ++ new, fresh := new } complete

def saturate (P : Program) (budget : Nat) : Saturated :=
  saturateFrom P budget budget true ⟨[], [], P.samples⟩ true

end Program

end Horn

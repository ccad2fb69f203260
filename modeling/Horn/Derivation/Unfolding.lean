import Horn.Derivation.Invariant

/-!
Searching backwards. A goal is a situation in which some relations have to hold; the first of them is
replaced by what the rules about it ask for. The goal is reached when no relation is left, and it is
not when nothing is left to unfold. Situations that contradict an invariant, or that ask for no more
than was asked before, are dropped.
-/

namespace Horn

namespace Shape

def isNumber : Shape → Bool
  | .number _ => true
  | .array _ _ => false

def form : Shape → Linear.Form
  | .number t => t
  | .array _ _ => .ofInt 0

mutual

def vars : Shape → List Nat
  | .number t => t.vars
  | .array _ ws => varsOfWrites ws

def varsOfWrites : List (Linear.Form × Shape) → List Nat
  | [] => []
  | (i, x) :: ws => i.vars ++ vars x ++ varsOfWrites ws

end

end Shape

namespace Situation

def isNumeric (s : Situation) : Bool := s.facts.all fun f => f.2.all Shape.isNumber

def forms (s : Situation) : List Linear.Form := s.facts.flatMap fun f => f.2.map Shape.form

/-- The relations of a situation with variables from 0 on in place of its forms. -/
def renamed (fs : List (Symbol × List Shape)) : Nat → List (Symbol × List Shape)
  | k => match fs with
    | [] => []
    | (f, xs) :: fs =>
      (f, xs.zipIdx.map fun (_, i) => .number (.var (k + i))) :: renamed fs (k + xs.length)

/-- The situations that are left of one whose relations are of numbers when nothing else is kept. -/
def condense (s : Situation) : Option (List Situation) :=
  let ts := s.forms
  let n := ts.length
  match Linear.Cube.ofList (s.cube.lift n ++ definitions 0 (ts.map (Linear.Form.lift n))) with
  | none => some []
  | some c => (c.project (· < n)).map fun cs =>
    (cs.filter fun c => !c.isEmpty).map fun c =>
      { Situation.ofVariables n with cube := c, facts := renamed s.facts 0, exact := s.exact }

/-- The situation with the variables taken out that nothing speaks of. -/
def tidy (s : Situation) : Option (List Situation) :=
  if s.isNumeric then s.condense
  else
    let used := s.facts.flatMap (fun f => f.2.flatMap Shape.vars) ++
      s.readings.flatMap (fun r => r.index.vars ++ r.element.vars) ++
      s.arrays.flatMap (fun a => a.2.vars) ++ s.constants.flatMap fun c => c.2.vars
    (s.cube.project used.contains).map fun cs =>
      (cs.filter fun c => !c.isEmpty).map fun c => { s with cube := c }

/-- The relations of the situation can hold together as far as the invariants tell. -/
def isPossible (watched : List Int) (I : Option Invariants) (s : Situation) : Bool :=
  match I with
  | none => true
  | some I =>
    let f := Inquiry.applications watched s
    !f.complete || f.results.any fun (as, t) => (I.given? (t.premises as)).isSome

/-- The situations that are left to look into when the first relation is replaced by what a rule about
it asks for. -/
def unfoldBy (rule : Term) (s : Situation) : Found Situation :=
  match s.facts, rule.headAndBody? with
  | (f, xs) :: rest, some (g, as, b) =>
    if f = g then
      let start := { s with facts := [], offset := s.next, next := s.next + rule.width }
      let found := (show Inquiry Unit from do
        let ys ← (Term.meanings as).mapM (·.shape)
        (List.zip f.domain (List.zip xs ys)).forM fun (d, x, y) => Inquiry.same d x y
        b.meaning.holds true) start
      ⟨found.results.map fun (_, t) => { t with facts := t.facts ++ rest }, found.complete⟩
    else ⟨[], true⟩
  | _, _ => ⟨[], true⟩

end Situation

/-- What a search backwards has asked for: the relations, and conditions on their arguments. -/
structure Asked where
  relations : List Symbol
  cube : Linear.Cube

/-- A search backwards. -/
structure Unfolding where
  rules : List Term
  watched : List Int
  invariants : Option Invariants

namespace Unfolding

/-- The situation asks for no more than was asked before. -/
def isOld (seen : List Asked) (s : Situation) : Bool :=
  s.isNumeric && seen.any fun a => a.relations == s.facts.map (·.1) && s.cube.implies a.cube

/-- The situations that are worth looking into. -/
def select (U : Unfolding) (seen : List Asked) (ss : List Situation) : List Situation :=
  ss.filter fun s => !isOld seen s && s.isPossible U.watched U.invariants

/-- Whether some situation can be met, in so many steps. A search that had to leave something out is
not sure of a denial. -/
def search (U : Unfolding) : Nat → Bool → List Asked → List Situation → Option Bool
  | _, sure, _, [] => if sure then some false else none
  | 0, _, _, _ => none
  | n + 1, sure, seen, s :: ss =>
    if s.facts.isEmpty then match s.cube.holds? with
      | some false => search U n sure seen ss
      | some true => if s.exact then some true else search U n false seen ss
      | none => search U n false seen ss
    else
      let found := Found.union (U.rules.map s.unfoldBy)
      let tidied := found.results.map Situation.tidy
      let new := U.select seen (tidied.filterMap id).flatten
      let asked := (new.filter Situation.isNumeric).map fun t => Asked.mk (t.facts.map (·.1)) t.cube
      search U n (sure && found.complete && tidied.all Option.isSome) (asked ++ seen) (ss ++ new)

def answer? (U : Unfolding) (goal : Term) (steps : Nat) : Option Bool :=
  let found := goal.inquire (goal.matrix.meaning.holds true)
  let tidied := found.results.map fun r => r.2.tidy
  U.search steps (found.complete && tidied.all Option.isSome) [] (U.select [] (tidied.filterMap id).flatten)

end Unfolding

end Horn

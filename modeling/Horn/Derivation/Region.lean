import Horn.Derivation.Inference

/-!
Deriving many facts at once. A region is a set of facts given by conditions on the integers of a cell;
rules lead from regions to regions. A rule that adds the same integers to its arguments over and over
leads in one step to all that follow from any number of its uses, because the conditions on its
premise hold at every use if they hold at the first and the last.
-/

namespace Horn

/-- Facts of a cell: its integers, which are the variables from 0 on, meet some conditions. -/
structure Region where
  cell : Cell
  cube : Linear.Cube

namespace Region

def conditions (r : Region) (ts : List Linear.Form) : List Linear.Atom :=
  r.cube.bind fun i => ts.getD i (.ofInt 0)

/-- The region is known to lie in others. -/
def isCovered (r : Region) (rs : List Region) : Bool :=
  Linear.Cube.isCovered ((rs.filter fun q => q.cell == r.cell).map (·.cube)) r.cube

/-- The regions of a cell that a conjunction leaves to its first `k` variables; none are given where
that is too much work. -/
def ofConditions (cell : Cell) (k : Nat) (as : List Linear.Atom) : Option (List Region) :=
  match Linear.Cube.ofList as with
  | none => some []
  | some c => (c.project (· < k)).map fun cs =>
    (cs.filter fun c => !c.isEmpty).map fun c => ⟨cell, c⟩

end Region

def definitions (k : Nat) (ts : List Linear.Form) : List Linear.Atom :=
  ts.zipIdx.map fun (t, i) => .zero (t.sub (.var (k + i)))

namespace Premises

/-- The conditions under which the premises hold in regions, one for each relation. -/
def conditions (p : Premises) (rs : List Region) : List Linear.Atom :=
  p.cube ++ (List.zip p.facts rs).flatMap fun (a, r) => r.conditions a.args

/-- All ways to choose a region for each relation. -/
def choices : List Application → List Region → List (List Region)
  | [], _ => [[]]
  | a :: as, rs => (rs.filter fun r => r.cell == a.cell).flatMap fun r => (choices as rs).map (r :: ·)

/-- The ways to choose a region for each relation, of which one is new. -/
def newChoices : List Application → List Region → List Region → List (List Region)
  | [], _, _ => []
  | a :: as, old, new =>
    ((new.filter fun r => r.cell == a.cell).flatMap fun r => (choices as (old ++ new)).map (r :: ·)) ++
      (old.filter fun r => r.cell == a.cell).flatMap fun r => (newChoices as old new).map (r :: ·)

/-- Whether the premises hold in some of the regions chosen. -/
def holdIn? (p : Premises) : List (List Region) → Option Bool
  | [] => some false
  | rs :: choices =>
    match (Linear.Cube.ofList (p.conditions rs)).elim (some false) Linear.Cube.holds? with
    | some false => holdIn? p choices
    | some true => some true
    | none => (holdIn? p choices).filter id

end Premises

namespace Inference

def lift (k : Nat) (i : Inference) : Inference := ⟨i.premises.lift k, i.conclusion.lift k⟩

/-- The regions that follow from regions, one for each premise. -/
def apply (i : Inference) (rs : List Region) : Option (List Region) :=
  let k := i.conclusion.args.length
  let i := i.lift k
  Region.ofConditions i.conclusion.cell k (i.premises.conditions rs ++ definitions 0 i.conclusion.args)

end Inference

/-- The way from the facts of one cell to those of another: conditions on the integers of the first
one, and of the second one after them. -/
structure Passage where
  source : Cell
  target : Cell
  sourceArity : Nat
  targetArity : Nat
  cube : Linear.Cube

namespace Passage

/-- The passages that are left of conditions, where all variables past those of the cells go. -/
def ofConditions (a b : Application) (as : List Linear.Atom) : List Passage :=
  let k := a.args.length
  let l := b.args.length
  match Linear.Cube.ofList (as ++ definitions 0 a.args ++ definitions k b.args) with
  | none => []
  | some c => ((c.project (· < k + l)).getD []).map fun c => ⟨a.cell, b.cell, k, l, c⟩

/-- The passages of an inference with one premise. -/
def ofInference (i : Inference) : List Passage :=
  match i.premises.facts with
  | [a] =>
    let n := a.args.length + i.conclusion.args.length
    ofConditions (a.lift n) (i.conclusion.lift n) (i.premises.cube.lift n)
  | _ => []

/-- The variables from `k` on, so many of them. -/
def variablesFrom (k n : Nat) : List Linear.Form := (List.range n).map fun i => .var (k + i)

/-- One passage after the other. -/
def andThen (p q : Passage) : List Passage :=
  if p.target == q.source then
    let n := p.sourceArity + q.targetArity
    let xs := variablesFrom n p.sourceArity
    let ys := variablesFrom (n + p.sourceArity) p.targetArity
    let zs := variablesFrom (n + p.sourceArity + p.targetArity) q.targetArity
    let σ (ts : List Linear.Form) (i : Nat) := ts.getD i (Linear.Form.ofInt 0)
    ofConditions ⟨p.source, xs⟩ ⟨q.target, zs⟩ (p.cube.bind (σ (xs ++ ys)) ++ q.cube.bind (σ (ys ++ zs)))
  else []

end Passage

/-- A passage from a cell to itself that adds fixed integers, where a condition is met. -/
structure Drift where
  cell : Cell
  steps : List Int
  guard : Linear.Cube

namespace Drift

/-- The integer that a passage adds to an argument. -/
def step? (p : Passage) (i : Nat) : Option Int := do
  let n := p.sourceArity + p.targetArity
  let d := (Linear.Form.var (p.sourceArity + i)).sub (.var i)
  let c ← p.cube.add (.zero (d.sub (.var n)))
  match ← c.project (· == n) with
  | [c] => c.value? (Linear.Form.var n).terms
  | _ => none

/-- The steps leave the remainders as they are. -/
def respects (steps : List Int) : Linear.Atom → Bool
  | .divides d t => t.terms.foldl (fun n e => n + e.2 * steps.getD e.1 0) 0 % d == 0
  | _ => true

/-- The drift of a passage. -/
def ofPassage? (p : Passage) : Option Drift := do
  if p.source != p.target then none
  let steps ← (List.range p.sourceArity).mapM (step? p)
  if steps.all (· == 0) then none
  let guard ← Linear.Cube.ofList (p.cube.bind fun i =>
    if i < p.sourceArity then .var i
    else (Linear.Form.var (i - p.sourceArity)).plus (steps.getD (i - p.sourceArity) 0))
  if guard.all (respects steps) then some ⟨p.source, steps, guard⟩ else none

/-- The regions that follow from a region by one or more uses of the drift. -/
def apply (d : Drift) (r : Region) : Option (List Region) :=
  let k := d.steps.length
  let back (n : Linear.Form) : List Linear.Form :=
    d.steps.zipIdx.map fun (s, i) => (Linear.Form.var i).sub (n.scale s)
  let through (ts : List Linear.Form) (c : Linear.Cube) := c.bind fun i => ts.getD i (.ofInt 0)
  let first := back (.var k)
  Region.ofConditions d.cell k
    (.nonneg ((Linear.Form.var k).plus (-1)) ::
      (through first r.cube ++ through first d.guard ++ through (back (.ofInt 1)) d.guard))

/-- The drifts of passages and of two passages one after the other. -/
def ofPassages (ps : List Passage) : List Drift :=
  (ps ++ ps.flatMap fun p => ps.flatMap p.andThen).filterMap ofPassage?

end Drift

/-- Rules and a goal as conditions on integers. -/
structure Problem where
  inferences : List Inference
  goal : List Premises
  /-- Nothing was cut off. -/
  complete : Bool

namespace Problem

/-- The rules and the goal are expressed in full. -/
def isExact (P : Problem) : Bool :=
  P.inferences.all (·.premises.exact) && P.goal.all (·.exact)

/-- An inference in which all variables occur that its conditions speak of. -/
def trimmed (i : Inference) : List Inference :=
  let used := (i.conclusion :: i.premises.facts).flatMap fun a => a.args.flatMap Linear.Form.vars
  match i.premises.cube.project used.contains with
  | some cs => (cs.filter fun c => !c.isEmpty).map fun c => { i with premises := { i.premises with cube := c } }
  | none => [i]

/-- The problem of rules and a goal, in which arrays are known at the watched indices. -/
def ofRules (watched : List Int) (rules : List Term) (goal : Term) : Problem :=
  let is := Found.union (rules.map (Inference.ofRule watched))
  let gs := Premises.ofGoal watched goal
  ⟨is.results.flatMap trimmed, gs.results.filter fun g => !g.cube.isEmpty, is.complete && gs.complete⟩

def drifts (P : Problem) : List Drift :=
  Drift.ofPassages (P.inferences.flatMap Passage.ofInference)

/-- Whether the goal holds in regions, of which one is new. -/
def reachedBy? (P : Problem) (old new : List Region) : Option Bool :=
  let answers := P.goal.map fun g => g.holdIn? (if g.facts.isEmpty then [[]] else Premises.newChoices g.facts old new)
  if answers.contains (some true) then some true
  else if answers.contains none then none
  else some false

end Problem

/-- What a spread of regions ends with: the regions, whether they hold all facts, and whether the goal
holds in them. -/
structure Spread where
  regions : List Region
  closed : Bool
  reached : Option Bool

namespace Spread

def most : Nat := 40

/-- The regions that are not covered by those before them or by known ones. -/
def unseen (known rs : List Region) : List Region :=
  rs.foldl (fun new r => if r.isCovered (known ++ new) then new else new ++ [r]) []

/-- What follows in one round from regions of which some are new. -/
def round (P : Problem) (ds : List Drift) (old new : List Region) : List (Option (List Region)) :=
  (ds.flatMap fun d => (new.filter fun r => r.cell == d.cell).map d.apply) ++
    P.inferences.flatMap fun i => (Premises.newChoices i.premises.facts old new).map i.apply

/-- The spread from regions of which some are new, in so many rounds. -/
def spreadFrom (P : Problem) (ds : List Drift) : Nat → List Region → List Region → Option Bool → Spread
  | 0, old, new, reached => ⟨old ++ new, false, reached⟩
  | n + 1, old, new, reached =>
    if new.isEmpty then ⟨old, true, reached⟩
    else if most < old.length + new.length then ⟨old ++ new, false, reached⟩
    else
      let found := round P ds old new
      let known := old ++ new
      let next := unseen known (found.filterMap id).flatten
      let reached := match P.reachedBy? known next with
        | some false => reached
        | some true => some true
        | none => none
      if reached == some true || found.any Option.isNone then ⟨known ++ next, false, reached⟩
      else spreadFrom P ds n known next reached

/-- The spread from the rules without premises. -/
def ofProblem (P : Problem) (rounds : Nat) : Spread :=
  let found := (P.inferences.filter fun i => i.premises.facts.isEmpty).map fun i => i.apply []
  let new := unseen [] (found.filterMap id).flatten
  let reached := P.reachedBy? [] new
  if reached == some true || found.any Option.isNone then ⟨new, false, reached⟩
  else spreadFrom P P.drifts rounds [] new reached

end Spread

end Horn

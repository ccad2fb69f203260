import Horn.Derivation.Region

/-!
Conditions that hold of all facts of a cell. Some are guessed from the facts found so far, and those
that an inference breaks are dropped until none is broken. What is left holds of every fact, also of
those that were not found, so a goal that contradicts it cannot be reached.
-/

namespace Horn

/-- Conditions on the integers of cells; a cell that is not listed holds of nothing. -/
abbrev Invariants := List (Cell × List Linear.Atom)

namespace Invariants

/-- The conditions on an application; none if its cell holds of nothing. -/
def of? (I : Invariants) (a : Application) : Option (List Linear.Atom) :=
  (I.lookup a.cell).map fun as => as.map (Linear.Atom.bind fun i => a.args.getD i (.ofInt 0))

/-- What holds where premises hold; none if they cannot. -/
def given? (I : Invariants) (p : Premises) : Option Linear.Cube := do
  let as ← p.facts.mapM I.of?
  let c ← Linear.Cube.ofList (p.cube ++ as.flatten)
  if c.isEmpty then none else some c

/-- The conditions that an inference keeps. -/
def weaken (I : Invariants) (i : Inference) : Invariants :=
  match I.given? i.premises with
  | none => I
  | some c =>
    let keeps (a : Linear.Atom) : Bool :=
      c.entails (a.bind fun j => i.conclusion.args.getD j (.ofInt 0))
    match I.lookup i.conclusion.cell with
    | none => (i.conclusion.cell, []) :: I
    | some _ => I.map fun e => if e.1 == i.conclusion.cell then (e.1, e.2.filter keeps) else e

def size (I : Invariants) : Nat := I.foldl (fun n e => n + 1 + e.2.length) 0

/-- The conditions that are left when no inference breaks one any more, if that is reached in the given
number of rounds. -/
def settle (is : List Inference) : Nat → Invariants → Option Invariants
  | 0, _ => none
  | n + 1, I =>
    let J := is.foldl weaken I
    if J == I then some I else settle is n J

def refute (I : Invariants) (goal : List Premises) : Bool := goal.all fun g => (I.given? g).isNone

end Invariants

namespace Linear.Cube

def span (c : Cube) (t : Form) : Option Int × Option Int :=
  let n := max c.bound t.bound
  match (c.add (.zero (t.sub (.var n)))).bind fun d => d.project (· == n) with
  | none => (none, none)
  | some cs =>
    let x := (Form.var n).terms
    let ends (least : Cube → Option Int) (best : Int → Int → Int) : Option Int :=
      match cs.mapM least with
      | some (k :: ks) => some (ks.foldl best k)
      | _ => none
    (ends (fun c => (c.value? x).or (c.least? x)) min,
      ends (fun c => (c.value? x).or ((c.least? (Form.var n).neg.terms).map (- ·))) max)

/-- The conditions that bound a form as conjunctions do, of which one holds. -/
def boundsAround (cs : List Cube) (t : Form) : List Atom :=
  let spans := cs.map fun c => c.span t
  let low := match spans.mapM (·.1) with
    | some (k :: ks) => [Atom.nonneg (t.plus (-(ks.foldl min k)))]
    | _ => []
  let high := match spans.mapM (·.2) with
    | some (k :: ks) => [Atom.nonneg (t.neg.plus (ks.foldl max k))]
    | _ => []
  low ++ high

/-- The divisors of what a form takes in conjunctions less a value of it, among those given. -/
def remainders (cs : List Cube) (ds : List Nat) (t : Form) : List Atom :=
  match cs.findSome? fun c => (c.span t).1.or (c.span t).2 with
  | some k => (ds.map fun d => Atom.divides d (t.plus (-k))).filter fun a => cs.all fun c => c.entails a
  | none => []

end Linear.Cube

/-- How far guesses go. -/
inductive Guess where
  /-- Bounds of the integers, and of forms that facts or the goal speak of. -/
  | plain
  /-- Bounds of sums and differences too. -/
  | sums
  /-- Remainders too. -/
  | remainders
  deriving DecidableEq, Repr

namespace Guess

def single (k : Nat) : List Linear.Form := Passage.variablesFrom 0 k

/-- Sums and differences of two or three of the integers. -/
def sumsOf (k : Nat) : List Linear.Form :=
  let pairs := (List.range k).flatMap fun i => (List.range i).flatMap fun j =>
    [(Linear.Form.var j).add (.var i), (Linear.Form.var j).sub (.var i)]
  let triples := (List.range k).flatMap fun i => (List.range i).flatMap fun j =>
    (List.range j).flatMap fun l =>
      let a := Linear.Form.var l
      [(a.add (.var j)).add (.var i), (a.add (.var j)).sub (.var i),
        (a.sub (.var j)).add (.var i), (a.sub (.var j)).sub (.var i)]
  pairs ++ triples

/-- The conditions under which the premises of a goal hold of one of its relations. -/
def demands (g : Premises) : List (Cell × Linear.Cube) :=
  g.facts.flatMap fun a =>
    let n := a.args.length
    let b := a.lift n
    match Linear.Cube.ofList (g.cube.lift n ++ definitions 0 b.args) with
    | none => []
    | some c => ((c.project (· < n)).getD []).map fun c => (a.cell, c)

/-- The divisors that are tried, given the integers of a problem. -/
def divisors (numerals : List Int) : List Nat :=
  ([2, 3, 4, 5, 6, 7, 8, 10] ++ (numerals.map Int.natAbs).filter fun n => decide (2 ≤ n ∧ n ≤ 40)).eraseDups

/-- The conditions guessed of a cell that holds in the given regions. -/
def conditions (level : Guess) (numerals : List Int) (goal : List Premises) (cell : Cell)
    (cs : List Linear.Cube) : List Linear.Atom :=
  let k := cs.foldl (fun n c => max n c.bound) 0
  let wanted := (goal.flatMap demands).filterMap fun e => if e.1 == cell then some e.2 else none
  let spoken := (cs.flatten ++ wanted.flatten).map fun a => (a.form.homogeneous).oriented
  let forms := (single k ++ (if level = .plain then [] else sumsOf k) ++ spoken).eraseDups
  let bounds := forms.flatMap (Linear.Cube.boundsAround cs)
  let against := (wanted.flatten.flatMap Linear.Atom.negate).filter fun a => cs.all fun c => c.entails a
  let kept := cs.flatten.filter fun a => match a with
    | .divides _ _ => cs.all fun c => c.entails a
    | _ => false
  let rests := if level = .remainders then
      (single k ++ sumsOf k).flatMap (Linear.Cube.remainders cs (divisors numerals))
    else []
  (bounds ++ against ++ kept ++ rests).eraseDups

def invariants (level : Guess) (numerals : List Int) (goal : List Premises) (rs : List Region) :
    Invariants :=
  let cells := (rs.map (·.cell)).eraseDups
  cells.map fun cell =>
    (cell, level.conditions numerals goal cell ((rs.filter fun r => r.cell == cell).map (·.cube)))

end Guess

namespace Invariants

def ofGuess (P : Problem) (numerals : List Int) (rs : List Region) (level : Guess) : Invariants :=
  let I := level.invariants numerals P.goal rs
  ((settle P.inferences (I.size + P.inferences.length + 1) I).getD
    ((P.inferences.map (·.conclusion.cell)).eraseDups.map fun c => (c, [])))

/-- Invariants that refute the goal of a problem, or else those that were guessed last; none if not all
of the rules are known. -/
def refuting (P : Problem) (numerals : List Int) (rs : List Region) : Option Invariants :=
  if P.complete then
    let of := ofGuess P numerals rs
    let plain := of .plain
    if plain.refute P.goal then some plain
    else
      let sums := of .sums
      if sums.refute P.goal then some sums else some (of .remainders)
  else none

end Invariants

end Horn

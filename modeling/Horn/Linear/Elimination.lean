import Horn.Linear.Cube

/-!
Taking variables out of conjunctions. What is left holds of some integers exactly if the conjunction
holds of them and some value of the variable. Once all variables are out, the truth of a conjunction
is plain. A choice of equations is needed where neither the bounds from below nor those from above
have the factor one; too large a choice, or too long a search, is given up.
-/

namespace Horn.Linear

namespace Cube

/-- The equation of a variable that has the factor smallest in size. -/
def equationOf? (c : Cube) (x : Nat) : Option Form :=
  c.foldl (fun best a => match a with
    | .zero t =>
      let k := (t.coeff x).natAbs
      if k = 0 then best
      else match best with
        | some s => if k < (s.coeff x).natAbs then some t else best
        | none => some t
    | _ => best) none

def solve (c : Cube) (x : Nat) (t : Form) : Option Cube :=
  let k := t.coeff x
  let s := (t.without x).scale (if 0 < k then -1 else 1)
  ofList (.divides k.natAbs s :: (c.erase (.zero t)).map (Atom.replace x k.natAbs s))

/-- The number between 0 and `d` that gives 1 modulo `d` when multiplied by `k`. -/
def inverse (k d : Nat) : Nat := ((List.range d).find? fun i => i * k % d == 1 % d).getD 0

def divisorOf? (c : Cube) (x : Nat) : Option (Nat × Form) :=
  c.findSome? fun a => match a with
    | .divides d t => if t.coeff x = 0 then none else some (d, t)
    | _ => none

/-- The conjunction with the variable renamed so that a condition of divisibility on it holds of all
values. -/
def loosen (c : Cube) (x d : Nat) (t : Form) : Option Cube :=
  let k := (t.coeff x % d).toNat
  let g := Nat.gcd k d
  let r := t.without x
  let s := ((Form.var x).scale d).sub (r.scale (inverse (k / g) (d / g)))
  ofList (.divides g r :: (c.erase (.divides d t)).map (Atom.replace x g s))

/-- The conjunction with no condition of divisibility on a variable, unless there is an equation of it.
Renaming a variable may bring its bounds together in an equation. -/
def loosenAll : Nat → Nat → Cube → Option Cube
  | 0, _, c => some c
  | n + 1, x, c => match c.equationOf? x, c.divisorOf? x with
    | none, some (d, t) => (c.loosen x d t).bind (loosenAll n x)
    | _, _ => some c

/-- The forms that bound a variable from below, where the sign is 1, or from above, where it is -1. -/
def boundsOf (c : Cube) (x : Nat) (sign : Int) : List Form :=
  c.filterMap fun a => match a with
    | .nonneg t => if 0 < sign * t.coeff x then some t else none
    | _ => none

def areUnits (x : Nat) (ts : List Form) : Bool := ts.all fun t => (t.coeff x).natAbs == 1

/-- The number of equations of which one holds at the end of the bounds. -/
def ends (x : Nat) (ts : List Form) : Nat := ts.foldl (fun n t => n + (t.coeff x).natAbs) 0

/-- The largest choice of equations that is looked through. -/
def maxEnds : Nat := 256

/-- The conjunctions that a variable can be taken out to on which there are bounds only; none are given
where the choice is too large. -/
def eliminateBounds (c : Cube) (x : Nat) : Option (List Cube) :=
  let rest := c.filter fun a => a.form.coeff x == 0
  let ls := c.boundsOf x 1
  let us := c.boundsOf x (-1)
  if ls.isEmpty || us.isEmpty then some [rest]
  else if areUnits x ls || areUnits x us then
    some (addAll rest (ls.flatMap fun l => us.map fun u =>
      .nonneg ((l.scale (-u.coeff x)).add (u.scale (l.coeff x))))).toList
  else
    let ts := if ends x ls ≤ ends x us then ls else us
    if maxEnds < ends x ts then none
    else some (ts.flatMap fun t => (List.range (t.coeff x).natAbs).filterMap fun i => do
      let d ← c.add (.zero (t.plus (-Int.ofNat i)))
      d.solve x (← d.equationOf? x))

/-- The conjunctions that one variable can be taken out to. -/
def eliminate (c : Cube) (x : Nat) : Option (List Cube) :=
  match loosenAll c.length x c with
  | none => some []
  | some c => match c.equationOf? x with
    | some t => some (c.solve x t).toList
    | none => c.eliminateBounds x

/-- How much work it is to take a variable out. -/
def labour (c : Cube) (x : Nat) : Nat :=
  match c.equationOf? x with
  | some t => (t.coeff x).natAbs - 1
  | none =>
    let ls := c.boundsOf x 1
    let us := c.boundsOf x (-1)
    let ds := (c.filter fun a => match a with
      | .divides _ t => t.coeff x != 0
      | _ => false).length
    let pairs := ls.length * us.length
    if areUnits x ls || areUnits x us then pairs + 4 * ds
    else pairs + 4 * ds + 16 * min (ends x ls) (ends x us)

/-- The variable that is least work to take out, of those that the test holds of. -/
def easiest? (c : Cube) (p : Nat → Bool) : Option Nat :=
  ((c.vars.filter p).map fun x => (x, c.labour x)).foldl (fun best e => match best with
    | some b => if e.2 < b.2 then some e else best
    | none => some e) none |>.map (·.1)

def eliminateAll (p : Nat → Bool) : Nat → List Cube → List Cube → Option (List Cube)
  | _, [], done => some done.reverse
  | 0, _, _ => none
  | n + 1, c :: cs, done => match c.easiest? p with
    | none => eliminateAll p n cs (if done.contains c then done else c :: done)
    | some x => (c.eliminate x).bind fun ds => eliminateAll p n (ds ++ cs) done

def maxSteps : Nat := 2000

/-- The conjunctions of which one holds, with all variables taken out that are not kept. -/
def project (c : Cube) (keep : Nat → Bool) : Option (List Cube) :=
  eliminateAll (fun x => !keep x) maxSteps [c] []

/-- Whether one of the conjunctions holds for some values, within a number of steps. -/
def anyHolds? : Nat → List Cube → Option Bool
  | _, [] => some false
  | 0, _ => none
  | n + 1, c :: cs => match c.easiest? fun _ => true with
    | none => some true
    | some x => match c.eliminate x with
      | some ds => anyHolds? n (ds ++ cs)
      | none => (anyHolds? n cs).filter id

def holds? (c : Cube) : Option Bool := anyHolds? maxSteps [c]

/-- The conjunction is known to hold for no values. -/
def isEmpty (c : Cube) : Bool := c.holds? == some false

def maxDivisor : Nat := 64

/-- The condition is known to hold wherever the conjunction does. -/
def entails (c : Cube) (a : Atom) : Bool :=
  match a with
  | .divides d _ => if maxDivisor < d then c.contains a else a.negate.all fun b => (c.add b).all isEmpty
  | a => a.negate.all fun b => (c.add b).all isEmpty

/-- The second conjunction is known to hold wherever the first does. -/
def implies (c d : Cube) : Bool := d.all c.entails

/-- The conjunctions that cover the first one where the second does not hold. -/
def minus : Cube → List Atom → List Cube
  | _, [] => []
  | c, a :: as =>
    let here := (a.negate.filterMap c.add).filter fun d => !d.isEmpty
    here ++ match c.add a with
      | some c => minus c as
      | none => []

/-- The conjunctions are known to hold together wherever the given one does. -/
def isCovered : List Cube → Cube → Bool
  | [], c => c.isEmpty
  | d :: ds, c => (c.minus d).all (isCovered ds)

end Cube

end Horn.Linear

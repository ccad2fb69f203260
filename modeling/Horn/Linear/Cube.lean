import Horn.Linear.Form

/-!
Conditions on integers and conjunctions of them. A conjunction is kept short as it grows: a condition
without variables is decided at once, of two bounds on one sum the sharper one is kept, and two bounds
that meet become an equation.
-/

namespace Horn.Linear

/-- A condition on the value of a form. -/
inductive Atom where
  | zero (t : Form)
  | nonneg (t : Form)
  | divides (d : Nat) (t : Form)
  deriving DecidableEq, Repr

/-- The sum of multiples of variables with its leading factor positive, and whether its sign was
turned. -/
def Form.oriented (t : Form) : Form :=
  match t.terms with
  | (_, a) :: _ => if a < 0 then t.neg else t
  | [] => t

namespace Atom

def form : Atom → Form
  | .zero t | .nonneg t | .divides _ t => t

def vars (a : Atom) : List Nat := a.form.vars

def withForm (t : Form) : Atom → Atom
  | .zero _ => .zero t
  | .nonneg _ => .nonneg t
  | .divides d _ => .divides d t

def bind (σ : Nat → Form) (a : Atom) : Atom := a.withForm (a.form.bind σ)

def lift (k : Nat) (a : Atom) : Atom := a.withForm (a.form.lift k)

/-- The condition, where `g` times a variable is the given form; `g` is positive. -/
def replace (x : Nat) (g : Nat) (s : Form) : Atom → Atom
  | .divides d t => if t.coeff x = 0 then .divides d t else .divides (d * g) (t.replace x g s)
  | a => if a.form.coeff x = 0 then a else a.withForm (a.form.replace x g s)

/-- A condition in lowest terms: its truth if it has no variables, or an equal condition. -/
def reduce : Atom → Bool ⊕ Atom
  | .zero t =>
    let g := t.content
    if g = 0 then .inl (t.const == 0)
    else if t.const % g != 0 then .inl false
    else .inr (.zero (Form.oriented ⟨t.const / g, t.terms.map fun (x, a) => (x, a / (g : Int))⟩))
  | .nonneg t =>
    let g := t.content
    if g = 0 then .inl (decide (0 ≤ t.const))
    else .inr (.nonneg ⟨t.const / g, t.terms.map fun (x, a) => (x, a / (g : Int))⟩)
  | .divides d t =>
    let ts := (t.terms.map fun (x, a) => (x, a % (d : Int))).filter fun e => e.2 != 0
    let s : Form := ⟨t.const % d, ts⟩
    let g := Nat.gcd s.content d
    if d ≤ 1 then .inl (d == 1 || t == Form.ofInt 0)
    else if ts.isEmpty then .inl (s.const == 0)
    else if s.const % g != 0 then .inl false
    else .inr (.divides (d / g) ⟨s.const / g, ts.map fun (x, a) => (x, a / (g : Int))⟩)

/-- The conditions of which one holds when the given one does not. -/
def negate : Atom → List Atom
  | .zero t => [.nonneg (t.plus (-1)), .nonneg (t.neg.plus (-1))]
  | .nonneg t => [.nonneg (t.neg.plus (-1))]
  | .divides d t => (List.range (d - 1)).map fun i => .divides d (t.plus (Int.ofNat i + 1))

end Atom

abbrev Cube := List Atom

namespace Cube

def value? (c : Cube) (ts : List (Nat × Int)) : Option Int :=
  c.findSome? fun a => match a with
    | .zero s =>
      if s.terms == ts then some (-s.const)
      else if s.neg.terms == ts then some s.const
      else none
    | _ => none

/-- The least value of a sum of multiples of variables, where a condition gives it. -/
def least? (c : Cube) (ts : List (Nat × Int)) : Option Int :=
  c.findSome? fun a => match a with
    | .nonneg s => if s.terms == ts then some (-s.const) else none
    | _ => none

/-- The conjunction without bounds of a sum of multiples of variables from below. -/
def withoutLeast (c : Cube) (ts : List (Nat × Int)) : Cube :=
  c.filter fun a => match a with
    | .nonneg s => s.terms != ts
    | _ => true

/-- The conjunction with one more condition, which is in lowest terms; none if it contradicts some
other one. -/
def push (c : Cube) : Atom → Option Cube
  | .nonneg t => match c.value? t.terms with
    | some n => if 0 ≤ n + t.const then some c else none
    | none =>
      if (c.least? t.terms).any fun n => 0 ≤ n + t.const then some c
      else
        let rest := c.withoutLeast t.terms
        match c.least? t.neg.terms with
        | none => some (.nonneg t :: rest)
        | some n =>
          if t.const < n then none
          else if t.const = n then some (.zero t.oriented :: rest.withoutLeast t.neg.terms)
          else some (.nonneg t :: rest)
  | .zero t => match c.value? t.terms with
    | some n => if n + t.const = 0 then some c else none
    | none =>
      if (c.least? t.terms).any fun n => 0 < n + t.const then none
      else if (c.least? t.neg.terms).any fun n => t.const < n then none
      else some (.zero t :: (c.withoutLeast t.terms).withoutLeast t.neg.terms)
  | a => some (if c.contains a then c else a :: c)

/-- The conditions with one more; none if they plainly contradict each other. -/
def add (c : Cube) (a : Atom) : Option Cube :=
  match a.reduce with
  | .inl b => if b then some c else none
  | .inr a => c.push a

def addAll (c : Cube) (as : List Atom) : Option Cube := as.foldlM add c

def ofList (as : List Atom) : Option Cube := addAll [] as

def vars (c : Cube) : List Nat := (c.flatMap Atom.vars).eraseDups

/-- A number that no variable of the conjunction has or exceeds. -/
def bound (c : Cube) : Nat := c.foldl (fun n a => max n a.form.bound) 0

def bind (σ : Nat → Form) (c : Cube) : List Atom := c.map (Atom.bind σ)

def lift (k : Nat) (c : Cube) : Cube := c.map (Atom.lift k)

end Cube

end Horn.Linear

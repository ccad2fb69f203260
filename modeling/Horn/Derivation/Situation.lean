import Horn.Derivation.Found
import Horn.Linear.Elimination
import Horn.Term.Basic

/-!
What is assumed when a formula is taken apart: conditions on integers, elements that were read from
arrays, and relations that have to hold. Wherever a formula may hold in more than one way the
situation splits. Integers and Booleans are linear forms; an array is a named array in which some
elements were replaced.
-/

namespace Horn

/-- What a term stands for. -/
inductive Shape where
  | number (t : Linear.Form)
  | array (base : Nat) (writes : List (Linear.Form × Shape))

/-- An element of an array at an index. -/
structure Reading where
  array : Nat
  index : Linear.Form
  element : Shape

/-- What is assumed. An assumption that could not be expressed makes a situation inexact: then it is
assumed less than is meant. -/
structure Situation where
  /-- No variable and no array has this number or one above it. -/
  next : Nat
  /-- The number of the first variable of the formula at hand. -/
  offset : Nat
  cube : Linear.Cube
  /-- The elements read so far; no two have the same array and index. -/
  readings : List Reading
  /-- Arrays that others determine. -/
  arrays : List (Nat × Shape)
  /-- Constants other than variables. -/
  constants : List (Symbol × Shape)
  /-- The relations that hold, and of what. -/
  facts : List (Symbol × List Shape)
  exact : Bool

/-- A computation in a situation, which may split. -/
def Inquiry (α : Type) : Type := Situation → Found (α × Situation)

namespace Inquiry

instance : Monad Inquiry where
  pure a := fun s => .one (a, s)
  bind f g := fun s => (f s).andThen fun (a, s) => g a s

def situation : Inquiry Situation := fun s => .one (s, s)

def change (f : Situation → Situation) : Inquiry Unit := fun s => .one ((), f s)

def oneOf (ps : List (Inquiry α)) : Inquiry α := fun s => .union (ps.map fun p => p s)

def impossible : Inquiry α := oneOf []

/-- Something is left out of the assumptions. -/
def blur : Inquiry Unit := change fun s => { s with exact := false }

def assume (a : Linear.Atom) : Inquiry Unit := fun s =>
  match s.cube.add a with
  | some c => .one ((), { s with cube := c })
  | none => ⟨[], true⟩

def assumeSame (t u : Linear.Form) : Inquiry Unit := assume (.zero (t.sub u))

def assumeLess (t u : Linear.Form) : Inquiry Unit := assume (.nonneg ((u.sub t).plus (-1)))

def assumeBool (t : Linear.Form) : Inquiry Unit := do
  assume (.nonneg t)
  assume (.nonneg (t.neg.plus 1))

/-- A number that names nothing yet. -/
def fresh : Inquiry Nat := fun s => .one (s.next, { s with next := s.next + 1 })

/-- What the variable or array of a number is, given its sort. -/
def numbered (i : Nat) : TermSort → Inquiry Shape
  | .int => return .number (.var i)
  | .bool => do
    assumeBool (.var i)
    return .number (.var i)
  | .array _ _ => return .array i []

def ofVariable (i : Nat) (s : TermSort) : Inquiry Shape := do
  numbered ((← situation).offset + i) s

/-- Something of a sort of which nothing is known. -/
def anything (s : TermSort) : Inquiry Shape := do numbered (← fresh) s

/-- A shape in which no array that others determine is the base. -/
def resolve (arrays : List (Nat × Shape)) : Nat → Shape → Shape
  | n + 1, .array b ws => match arrays.lookup b with
    | some (.array c vs) => resolve arrays n (.array c (ws ++ vs))
    | _ => .array b ws
  | _, s => s

/-- The shape as the situation knows it. -/
def known (x : Shape) : Inquiry Shape := do
  let s ← situation
  return resolve s.arrays (s.arrays.length + 1) x

/-- The element at an index among elements at other ones, or else what the last argument gives. -/
def elementAmong (i : Linear.Form) : List (Linear.Form × Shape) → Inquiry Shape → Inquiry Shape
  | [], other => other
  | (j, x) :: es, other => oneOf [
      do assumeSame i j; return x,
      do assumeLess i j; elementAmong i es other,
      do assumeLess j i; elementAmong i es other]

/-- The element of an array at an index, given the sort of elements. -/
def read (sort : TermSort) (x : Shape) (i : Linear.Form) : Inquiry Shape := do
  match ← known x with
  | .number _ => do
    blur
    anything sort
  | .array b ws =>
    elementAmong i ws (do
      let s ← situation
      let own := (s.readings.filter fun r => r.array == b).map fun r => (r.index, r.element)
      elementAmong i own (do
        let e ← anything sort
        change fun s => { s with readings := ⟨b, i, e⟩ :: s.readings }
        return e))

def writtenAt : Shape → List Linear.Form
  | .number _ => []
  | .array _ ws => (ws.map (·.1)).eraseDups

/-- Lets an array be determined by a shape; its elements read so far are those of the shape. -/
def determine (same : Shape → Shape → Inquiry Unit) (sort : TermSort) (b : Nat) (x : Shape) :
    Inquiry Unit := do
  let s ← situation
  let (own, others) := s.readings.partition fun r => r.array == b
  change fun s => { s with readings := others, arrays := (b, x) :: s.arrays }
  own.forM fun r => do same r.element (← read sort x r.index)

/-- Assumes that two shapes of a sort are the same. Arrays with one base are if they agree where either
was written; of others one determines the base of the other, bar where that was written. -/
def same : TermSort → Shape → Shape → Inquiry Unit
  | .array _ r, x, y => do
    let x ← known x
    let y ← known y
    match x, y with
    | .array a _, .array b vs =>
      let is := if a = b then (writtenAt x ++ writtenAt y).eraseDups else writtenAt x
      is.forM fun i => do same r (← read r x i) (← read r y i)
      if a = b then return ()
      else
        let ws ← is.mapM fun i => do return (i, ← anything r)
        determine (same r) r a (.array b (ws ++ vs))
    | _, _ => blur
  | _, .number t, .number u => assumeSame t u
  | _, _, _ => blur

/-- Assumes that two shapes of a sort differ; arrays differ at some index. -/
def differ : TermSort → Shape → Shape → Inquiry Unit
  | .array d r, x, y => do
    match ← anything d with
    | .number i => differ r (← read r x i) (← read r y i)
    | .array _ _ => blur
  | _, .number t, .number u => oneOf [assumeLess t u, assumeLess u t]
  | _, _, _ => blur

def constant (f : Symbol) : Inquiry Shape := do
  match (← situation).constants.lookup f with
  | some x => return x
  | none => do
    let x ← anything f.range
    change fun s => { s with constants := (f, x) :: s.constants }
    return x

def assumeFact (f : Symbol) (xs : List Shape) : Inquiry Unit :=
  change fun s => { s with facts := s.facts ++ [(f, xs)] }

end Inquiry

/-- The situation in which nothing is assumed of so many variables. -/
def Situation.ofVariables (n : Nat) : Situation := ⟨n, 0, [], [], [], [], [], true⟩

end Horn

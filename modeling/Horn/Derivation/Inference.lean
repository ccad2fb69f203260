import Horn.Derivation.Clause
import Horn.Derivation.Meaning

/-!
Rules and goals as conditions on integers. A relation is told apart by the Booleans that it holds of,
so what is left of its arguments are integers; of an array the elements at some watched indices are
taken. Premises are relations of linear forms under a conjunction of conditions, and an inference has a
conclusion from them.
-/

namespace Horn

/-- A relation and the Booleans among its arguments. -/
structure Cell where
  relation : Symbol
  flags : List Bool
  deriving DecidableEq, Repr

/-- A cell, and the integers that it is applied to. -/
structure Application where
  cell : Cell
  args : List Linear.Form

namespace Application

def lift (k : Nat) (a : Application) : Application := { a with args := a.args.map (Linear.Form.lift k) }

/-- A number that no variable of the application has or exceeds. -/
def bound (a : Application) : Nat := a.args.foldl (fun n t => max n t.bound) 0

end Application

/-- Relations that have to hold together with conditions. If they are not exact, fewer conditions are
given than are meant. -/
structure Premises where
  facts : List Application
  cube : Linear.Cube
  exact : Bool

namespace Premises

/-- A number that no variable of the premises has or exceeds. -/
def bound (p : Premises) : Nat := p.facts.foldl (fun n a => max n a.bound) p.cube.bound

def lift (k : Nat) (p : Premises) : Premises :=
  { p with facts := p.facts.map (Application.lift k), cube := p.cube.lift k }

end Premises

/-- A conclusion from premises. -/
structure Inference where
  premises : Premises
  conclusion : Application

namespace Inquiry

/-- A Boolean that a form stands for. -/
def decideFlag (t : Linear.Form) : Inquiry Bool := oneOf [
  do assumeSame t (.ofInt 1); return true,
  do assumeSame t (.ofInt 0); return false]

/-- The flags and the integers of an argument. An array does not keep all that is known of it. -/
def partsOf (watched : List Int) : TermSort → Shape → Inquiry (List Bool × List Linear.Form)
  | .int, .number t => return ([], [t])
  | .bool, .number t => do return ([← decideFlag t], [])
  | .array d r, x => do
    blur
    if d = .int && r = .int then do
      let ts ← watched.mapM fun n => do match ← read r x (.ofInt n) with
        | .number t => return t
        | .array _ _ => return .ofInt 0
      return ([], ts)
    else return ([], [])
  | _, _ => do
    blur
    return ([], [])

/-- A relation of shapes as a relation of integers. -/
def application (watched : List Int) (f : Symbol) (xs : List Shape) : Inquiry Application := do
  let ps ← (List.zip f.domain xs).mapM fun (s, x) => partsOf watched s x
  return ⟨⟨f, ps.flatMap (·.1)⟩, ps.flatMap (·.2)⟩

def applications (watched : List Int) : Inquiry (List Application) := do
  (← situation).facts.mapM fun (f, xs) => application watched f xs

end Inquiry

namespace Term

def width : Term → Nat
  | .quant _ bs _ => bs.length
  | _ => 0

mutual

/-- The integers at which elements of arrays are read or written. -/
def indices : Term → List Int
  | .op .select [a, .int n] => n :: indices a
  | .op .store [a, .int n, e] => n :: (indices a ++ indices e)
  | .app _ as | .op _ as => indicesOfAll as
  | .quant _ _ t => indices t
  | _ => []

def indicesOfAll : List Term → List Int
  | [] => []
  | t :: ts => indices t ++ indicesOfAll ts

end

/-- What a computation finds for the variables of the outer quantifier. -/
def inquire (t : Term) (p : Inquiry α) : Found (α × Situation) := p (.ofVariables t.width)

end Term

/-- The premises of a situation, in which the given relations hold. -/
def Situation.premises (s : Situation) (as : List Application) : Premises := ⟨as, s.cube, s.exact⟩

def Premises.ofGoal (watched : List Int) (goal : Term) : Found Premises :=
  let f := goal.inquire do
    goal.matrix.meaning.holds true
    Inquiry.applications watched
  ⟨f.results.map fun (as, s) => s.premises as, f.complete⟩

/-- The relation that a rule is about, its arguments, and the formula from which they follow. -/
def Term.headAndBody? (rule : Term) : Option (Symbol × List Term × Term) :=
  match rule.matrix with
  | .op .implies [b, .app f as] => some (f, as, b)
  | .app f as => some (f, as, .bool true)
  | _ => none

def Inference.ofRule (watched : List Int) (rule : Term) : Found Inference :=
  match rule.headAndBody? with
  | none => ⟨[], false⟩
  | some (f, as, b) =>
    let f := rule.inquire do
      b.meaning.holds true
      let xs ← (Term.meanings as).mapM (·.shape)
      let ps ← Inquiry.applications watched
      let c ← Inquiry.application watched f xs
      return (ps, c)
    ⟨(f.results.filter fun r => !r.2.cube.isEmpty).map fun ((ps, c), s) => ⟨s.premises ps, c⟩, f.complete⟩

end Horn

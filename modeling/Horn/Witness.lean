import Horn.Term.Printer
import Horn.Value.Basic

/-!
The values that witness a reachable goal: the printed arguments of the ground facts whose names begin
with a marker. A fact stands as a whole entry of a trace or answer, or as one conjunct of it. There are
no values where a name has to be compared with a marker that is no text.
-/

namespace Horn

namespace Value

def points? : Value → Option Text.Points
  | .text s => some (Text.Points.ofChars s.toList)
  | .points p => some p
  | _ => none

def beginsAlone? (m : Value) (name : String) : Option Bool :=
  m.points?.map fun p => p.isPrefixOf (Text.Points.ofChars name.toList)

/-- Whether a name begins with a text, or with one of two texts, of which the second is looked at only
if the name does not begin with the first. -/
def begins? (m : Value) (name : String) : Option Bool :=
  match m with
  | .pair a b => do if ← a.beginsAlone? name then return true else b.beginsAlone? name
  | m => m.beginsAlone? name

end Value

namespace Term

def headName? : Term → Option String
  | .bool b => some (if b then "true" else "false")
  | .int _ => some "Int"
  | .app f _ => some f.text
  | .op .ite _ => some "if"
  | .op .div _ => some "div"
  | .op o _ => some o.name
  | .var _ _ | .quant _ _ _ => none

/-- The conjuncts of a term, one level deep. -/
def conjuncts : Term → List Term
  | .op .and ts => ts
  | t => [t]

end Term

namespace Witness

/-- The values of all parts, one after the other. -/
def gather {α : Type} (f : α → Option (List String)) : List α → Option (List String)
  | [] => some []
  | a :: as => do return (← f a) ++ (← gather f as)

def ofConjunct? (m : Value) (t : Term) : Option (List String) :=
  match t.headName? with
  | none => some []
  | some n => do
    let begins ← m.begins? n
    return if begins && t.isGround then t.args.map Term.text else []

/-- The values of one entry of a trace, or of an answer. -/
def ofTerm? (m : Value) : Option Term → Option (List String)
  | none => some []
  | some t => gather (ofConjunct? m) t.conjuncts

def ofTrace? (m : Value) (ts : List (Option Term)) : Option (List String) := gather (ofTerm? m) ts

def traceText (ts : List (Option Term)) : String :=
  String.intercalate "\n" (ts.map fun t => (t.map Term.text).getD "None")

end Witness

end Horn

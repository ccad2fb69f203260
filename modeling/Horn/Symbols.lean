import Horn.SortSpec
import Horn.Term.Basic

/-!
The symbols declared so far, in the order of their declarations. A symbol declared with a function
sort is a function, any other a constant.
-/

namespace Horn

/-- Why a sort is not admitted. -/
inductive SortError where
  /-- A symbol is declared without a sort. -/
  | undeclarable (name : String)
  /-- A symbol is declared with a value that is no sort. -/
  | notSort (name : String) (v : Value)
  /-- A part of a sort is missing. -/
  | absent
  /-- A part of a sort is a value that is no sort. -/
  | junk (v : Value)
  /-- The sort is not that of a term. -/
  | notValue (s : SortSpec)
  /-- A relation has another codomain than the Booleans. -/
  | notRelation (name : String) (range : TermSort)
  /-- What is refused holds an integer with too many digits to be written out. -/
  | tooManyDigits

def SortError.message? : SortError → Option String
  | .undeclarable n => some ("cannot declare '" ++ n ++ "' without a sort")
  | .notSort n v => some ("cannot declare '" ++ n ++ "' with " ++ v.literal ++ ": not a sort")
  | .absent => some "sort is absent"
  | .junk v => some (v.literal ++ " is not a sort")
  | .notValue s => some ("sort " ++ s.text ++ " has no z3 counterpart as a value sort")
  | .notRelation n r => some ("relation '" ++ n ++ "' must have codomain Bool, got " ++ r.lines)
  | .tooManyDigits => none

inductive DeclareError where
  | sort (e : SortError)
  /-- The name is declared with another sort. -/
  | duplicate (name : String) (existing requested : SortSpec)
  /-- A code point of the name is no character. -/
  | notCharacters

def DeclareError.message? : DeclareError → Option String
  | .sort e => e.message?
  | .duplicate n s t => some ("'" ++ n ++ "' already declared with sort " ++ s.text ++
      ", cannot redeclare with sort " ++ t.text)
  | .notCharacters => none

namespace SortSpec

/-- What is refused is quoted, for which all its integers have to be written out. -/
def refusal : SortSpec → SortError
  | .absent => .absent
  | .junk v => if v.fits then .junk v else .tooManyDigits
  | s => if s.fits then .notValue s else .tooManyDigits

def toTermSort : SortSpec → Except SortError TermSort
  | .int => .ok .int
  | .bool => .ok .bool
  | .array d r => do
    let d ← d.toTermSort
    let r ← r.toTermSort
    return .array d r
  | s => .error s.refusal

def toSymbol (name : String) : SortSpec → Except SortError Symbol
  | .function ds c => do
    let ds ← ds.mapM toTermSort
    let c ← c.toTermSort
    return ⟨Symbol.nameOf name, ds, c⟩
  | s => do return ⟨Symbol.nameOf name, [], ← s.toTermSort⟩

end SortSpec

/-- A declaration: name and sort as they were written, and the symbol they made. -/
structure Declaration where
  name : String
  spec : SortSpec
  symbol : Symbol

namespace Declaration

def isFunction (d : Declaration) : Bool := d.spec.isFunction

end Declaration

structure Symbols where
  declarations : List Declaration

namespace Symbols

def empty : Symbols := ⟨[]⟩

def find? (Γ : Symbols) (name : String) : Option Declaration :=
  Γ.declarations.find? fun d => d.name == name

def constants (Γ : Symbols) : List Declaration := Γ.declarations.filter fun d => !d.isFunction

def functions (Γ : Symbols) : List Declaration := Γ.declarations.filter fun d => d.isFunction

def free (Γ : Symbols) : List Symbol := Γ.constants.map (·.symbol)

def constant? (Γ : Symbols) (name : String) : Option Symbol :=
  (Γ.constants.find? fun d => d.name == name).map (·.symbol)

def function? (Γ : Symbols) (name : String) : Option Symbol :=
  (Γ.functions.find? fun d => d.name == name).map (·.symbol)

/-- Declares a name. To declare it again with the same sort changes nothing. -/
def declare (Γ : Symbols) (name : String) (sort : SortSpec) : Except DeclareError Symbols :=
  match sort with
  | .absent => .error (.sort (.undeclarable name))
  | .junk v => .error (.sort (if v.fits then .notSort name v else .tooManyDigits))
  | _ => match Γ.find? name with
    | some d =>
      if d.spec.same sort then .ok Γ
      else if sort.fits then .error (.duplicate name d.spec sort)
      else .error (.sort .tooManyDigits)
    | none => match sort.toSymbol name with
      | .error e => .error (.sort e)
      | .ok f => .ok ⟨Γ.declarations ++ [⟨name, sort, f⟩]⟩

/-- Declares a name that is given by its code points. One that holds half of a surrogate pair is the name
of no symbol; its sort is looked at first. -/
def declarePoints (Γ : Symbols) (name : Text.Points) (sort : SortSpec) : Except DeclareError Symbols :=
  if name.areChars then Γ.declare (String.ofList name.chars) sort
  else match empty.declare (String.ofList name.chars) sort with
    | .error e => .error e
    | .ok _ => .error .notCharacters

end Symbols

end Horn

import Horn.Session.Basic

/-!
Declarations, relations and rules of a session. A rule is an implication or a fact whose head applies
a registered relation; a `false` head stands for the session's error relation. A rule is closed over
all constants declared when it is added.
-/

namespace Horn

namespace Expr

mutual

def size : Expr → Nat
  | .node _ as _ => 1 + sizes as

def sizes : List Expr → Nat
  | [] => 0
  | e :: es => e.size + sizes es

end

theorem sizes_append (xs ys : List Expr) : sizes (xs ++ ys) = sizes xs + sizes ys := by
  induction xs with
  | nil => simp [sizes]
  | cons x xs ih => simp [sizes, ih]; omega

theorem sizes_reverse (xs : List Expr) : sizes xs.reverse = sizes xs := by
  induction xs with
  | nil => rfl
  | cons x xs ih => simp [sizes, sizes_append, ih]; omega

/-- The first name that the given test finds in pending expressions, of which the first is looked at
first; the arguments of an expression are put in front, the last of them first. -/
def searchName (p : String → Bool) : List Expr → Option String
  | [] => none
  | .node n as _ :: es => if p n then some n else searchName p (as.reverse ++ es)
termination_by es => sizes es
decreasing_by simp [sizes, size, sizes_append, sizes_reverse]

end Expr

namespace Session

/-- The name of the session's own relation, which stands for `false` in the head of a rule. -/
def errorName : String := "chc!error"

def errorSort : SortSpec := .function [] .bool

def errorExpr : Expr := .node errorName [] .bool

/-- The name is that of a function to the Booleans that is not a registered relation. -/
def isUnregistered (s : Session) (name : String) : Bool :=
  (s.symbols.function? name).any fun f => f.range = .bool && !s.isRegistered name

def declare (name : String) (sort : SortSpec) : Action Unit := do
  let s ← Action.session
  let Γ ← Action.ofExcept .declare (s.symbols.declare name sort)
  if (s.symbols.find? name).isNone then
    Action.change fun s => { s with symbols := Γ }
    Action.log (.declared name sort)

def newVariable (name : String) (sort : SortSpec) : Action Expr := do
  declare name sort
  return .symbol name sort

/-- Registers the relation that an expression names. To register it again changes nothing. -/
def register (e : Expr) : Action Unit := do
  let s ← Action.session
  if s.isRegistered e.name then Action.log (.alreadyRegistered e.name)
  else match s.symbols.functions.find? fun d => d.name == e.name with
    | none => Action.fail (.unknownRelation e.name)
    | some d =>
      if d.symbol.range = .bool then do
        Action.demand (.register d.symbol) fun E => E.register d.symbol
        Action.change fun s => { s with relations := s.relations ++ [d] }
        Action.log (.registered d.symbol)
      else Action.fail (.sort (.notRelation e.name d.symbol.range))

/-- The error relation, declared and registered when it is first asked for. -/
def errorRelation : Action Expr := do
  let s ← Action.session
  if s.isRegistered errorName then return errorExpr
  else do
    declare errorName errorSort
    register (.symbol errorName errorSort)
    return errorExpr

/-- Fails if some name in the expression is that of a function to the Booleans that is not a
registered relation. -/
def checkRelations (e : Expr) : Action Unit := do
  let s ← Action.session
  match Expr.searchName s.isUnregistered [e] with
  | some n => Action.fail (.unknownRelation n)
  | none => return ()

/-- The head of a rule: an application of a registered relation, or the error relation for
`false`. -/
def head (e : Expr) : Action Expr := do
  let s ← Action.session
  if e.name = "false" && e.args.isEmpty then errorRelation
  else if s.isRegistered e.name then return e
  else Action.fail (.term (.notHead e))

def withHead : Expr → Action Expr
  | .node "=>" [body, h] _ => do return .implies body (← head h)
  | e => head e

def addRule (e : Expr) (label : String) : Action Unit := do
  checkRelations e
  let e ← withHead e
  let s ← Action.session
  let t ← Action.ofExcept .term (e.toFormula s.symbols)
  let rule := t.close .all s.symbols.free
  Action.demand (.addRule rule label) fun E => E.addRule rule label
  Action.change fun s => { s with rules := s.rules ++ [(label, rule)] }
  Action.log (.ruleAdded label rule)

end Session

end Horn

import Horn.Term.Basic

/-!
Applying symbols and operators to terms of any sorts. A Boolean becomes 1 or 0 where an integer is
wanted, and a comparison is turned round where its right side is an integer literal and its left side
is an integer term that is none.
-/

namespace Horn

inductive CastError where
  /-- The sorts do not fit. -/
  | refused
  /-- An array stands where an integer is wanted. -/
  | arrayAsInt
  deriving DecidableEq, Repr

namespace Term

def boolToInt (t : Term) : Term := .op .ite [t, .int 1, .int 0]

/-- A term where one of the given sort is wanted. -/
def castTo (s : TermSort) (t : Term) : Except CastError Term :=
  if t.sort = s then .ok t
  else match s, t.sort with
    | .int, .bool => .ok t.boolToInt
    | .int, .array _ _ => .error .arrayAsInt
    | _, _ => .error .refused

def castAll : List TermSort → List Term → Except CastError (List Term)
  | s :: ss, t :: ts => do
    let t ← castTo s t
    let ts ← castAll ss ts
    return t :: ts
  | _, _ => .ok []

def isNumeral : Term → Bool
  | .int _ => true
  | _ => false

/-- Terms that are all Boolean, under a connective. -/
def connect (o : Operator) (ts : List Term) : Except CastError Term :=
  if ts.all fun t => t.sort = .bool then .ok (.op o ts) else .error .refused

/-- Two terms brought to one sort: equal sorts stay, and of an integer and a Boolean the latter is
cast. -/
def meet (a b : Term) : Except CastError (Term × Term) :=
  match a.sort, b.sort with
  | .int, .bool => .ok (a, b.boolToInt)
  | .bool, .int => .ok (a.boolToInt, b)
  | s, t => if s = t then .ok (a, b) else .error .refused

/-- Two integers, of which one may be given as a Boolean. -/
def meetInt (a b : Term) : Except CastError (Term × Term) :=
  match a.sort, b.sort with
  | .int, .int => .ok (a, b)
  | .int, .bool => .ok (a, b.boolToInt)
  | .bool, .int => .ok (a.boolToInt, b)
  | _, _ => .error .refused

def sum (a b : Term) : Except CastError Term :=
  match a.sort, b.sort with
  | .bool, .bool => .ok (.op .add [a.boolToInt, b.boolToInt])
  | _, _ => do
    let (a, b) ← meetInt a b
    return .op .add [a, b]

/-- The product of two terms; with a Boolean factor it is a choice between the other factor and
zero. -/
def product (a b : Term) : Except CastError Term :=
  match a.sort, b.sort with
  | .int, .int => .ok (.op .mul [a, b])
  | .int, .bool => .ok (.op .ite [b, a, .int 0])
  | .bool, .int => .ok (.op .ite [a, b, .int 0])
  | .bool, .bool => .ok (.op .ite [a, b.boolToInt, .int 0])
  | _, _ => .error .refused

def arith (o : Operator) (a b : Term) : Except CastError Term := do
  let (a, b) ← meetInt a b
  return .op o [a, b]

/-- The operator that says the same of two terms the other way round. -/
def turned : Operator → Operator
  | .lt => .gt
  | .le => .ge
  | .gt => .lt
  | .ge => .le
  | o => o

/-- The literal on the right changes places with an integer term on the left. -/
def literalFirst (a b : Term) : Bool := a.sort = .int && !a.isNumeral && b.isNumeral

def compare (o : Operator) (a b : Term) : Except CastError Term := do
  let (a', b') ← meetInt a b
  return if literalFirst a b || a.sort = .bool then .op (turned o) [b', a'] else .op o [a', b']

def equation (a b : Term) : Except CastError Term := do
  let (a', b') ← meet a b
  return if literalFirst a b then .op .eq [b', a'] else .op .eq [a', b']

def choice (c t f : Term) : Except CastError Term :=
  if c.sort = .bool then do
    let (t, f) ← meet t f
    return .op .ite [c, t, f]
  else .error .refused

def element (a i : Term) : Except CastError Term :=
  match a.sort with
  | .array d _ => do return .op .select [a, ← castTo d i]
  | _ => .error .refused

def update (a i v : Term) : Except CastError Term :=
  match a.sort with
  | .array d r => do
    let i ← castTo d i
    let v ← castTo r v
    return .op .store [a, i, v]
  | _ => .error .refused

def ofOperator : Operator → List Term → Except CastError Term
  | .ite, [c, t, f] => choice c t f
  | .not, [a] => connect .not [a]
  | .and, [a, b] => connect .and [a, b]
  | .or, [a, b] => connect .or [a, b]
  | .implies, [a, b] => connect .implies [a, b]
  | .eq, [a, b] => equation a b
  | .lt, [a, b] => compare .lt a b
  | .le, [a, b] => compare .le a b
  | .gt, [a, b] => compare .gt a b
  | .ge, [a, b] => compare .ge a b
  | .add, [a, b] => sum a b
  | .sub, [a, b] => arith .sub a b
  | .mul, [a, b] => product a b
  | .div, [a, b] => arith .div a b
  | .select, [a, i] => element a i
  | .store, [a, i, v] => update a i v
  | _, _ => .error .refused

/-- A formula under a binder for the given constants, of which there has to be one. -/
def bind (q : Quantifier) (cs : List Symbol) (t : Term) : Except CastError Term :=
  if cs.isEmpty || t.sort != .bool || cs.any fun c => !c.domain.isEmpty then .error .refused
  else .ok (t.close q cs)

/-- A symbol applied to as many terms as its domain has sorts. -/
def ofSymbol (f : Symbol) (ts : List Term) : Except CastError Term := do
  return .app f (← castAll f.domain ts)

end Term

end Horn

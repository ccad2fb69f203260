import Horn.Derivation.Situation

/-!
Formulas and terms taken apart. The meaning of a term tells what it stands for in a situation and, of a
formula, what to assume so that it is true or false. A product of two unknown numbers, a quotient by
one and an applied function are left open.
-/

namespace Horn

/-- What a term means. -/
structure Meaning where
  sort : TermSort
  /-- What the term stands for. -/
  shape : Inquiry Shape
  /-- Assumes that the formula has a truth value. -/
  holds : Bool → Inquiry Unit

namespace Meaning

open Inquiry

def truth (b : Bool) : Linear.Form := .ofInt b.toInt

/-- The meaning of a term by what it stands for. -/
def ofShape (sort : TermSort) (p : Inquiry Shape) : Meaning where
  sort := sort
  shape := p
  holds b := do
    match ← p with
    | .number t => assumeSame t (truth b)
    | .array _ _ => blur

/-- The meaning of a formula by what to assume. -/
def ofHolds (h : Bool → Inquiry Unit) : Meaning where
  sort := .bool
  shape := oneOf [
    do h true; return .number (truth true),
    do h false; return .number (truth false)]
  holds := h

def unclear (sort : TermSort) : Meaning :=
  ofShape sort (do blur; anything sort)

def number (m : Meaning) : Inquiry Linear.Form := do
  match ← m.shape with
  | .number t => return t
  | .array _ _ => do
    blur
    return .var (← fresh)

/-- The meaning of an integer term by its form. -/
def ofNumber (p : Inquiry Linear.Form) : Meaning := ofShape .int (do return .number (← p))

/-- The meaning of a comparison: what to assume if it is true and if it is false. -/
def ofOrder (a b : Meaning) (yes no : Linear.Form → Linear.Form → Inquiry Unit) : Meaning :=
  ofHolds fun v => do
    let t ← a.number
    let u ← b.number
    if v then yes t u else no t u

def assumeAtMost (t u : Linear.Form) : Inquiry Unit := assume (.nonneg (u.sub t))

def product (t u : Linear.Form) : Inquiry Linear.Form :=
  if t.isConst then return u.scale t.const
  else if u.isConst then return t.scale u.const
  else do
    blur
    let p := Linear.Form.var (← fresh)
    oneOf [
      do assume (.zero t); assume (.zero p),
      do assume (.zero u); assume (.zero p),
      do assumeLess (.ofInt 0) t; assumeLess (.ofInt 0) u; assumeAtMost t p; assumeAtMost u p,
      do assumeLess t (.ofInt 0); assumeLess u (.ofInt 0); assumeAtMost t.neg p; assumeAtMost u.neg p,
      do assumeLess (.ofInt 0) t; assumeLess u (.ofInt 0); assumeAtMost p t.neg; assumeAtMost p u,
      do assumeLess t (.ofInt 0); assumeLess (.ofInt 0) u; assumeAtMost p t; assumeAtMost p u.neg]
    return p

/-- A quotient, rounded so that no remainder is negative. -/
def quotient (t u : Linear.Form) : Inquiry Linear.Form := do
  let q := Linear.Form.var (← fresh)
  if u.isConst && u.const != 0 then do
    let r := t.sub (q.scale u.const)
    assume (.nonneg r)
    assumeLess r (.ofInt u.const.natAbs)
  else blur
  return q

def ofOperator : Operator → List Meaning → Meaning
  | .ite, [c, a, b] =>
    { sort := a.sort
      shape := oneOf [do c.holds true; a.shape, do c.holds false; b.shape]
      holds := fun v => oneOf [do c.holds true; a.holds v, do c.holds false; b.holds v] }
  | .not, [a] => ofHolds fun v => a.holds !v
  | .and, [a, b] => ofHolds fun v =>
    if v then do a.holds true; b.holds true else oneOf [a.holds false, b.holds false]
  | .or, [a, b] => ofHolds fun v =>
    if v then oneOf [a.holds true, b.holds true] else do a.holds false; b.holds false
  | .implies, [a, b] => ofHolds fun v =>
    if v then oneOf [a.holds false, b.holds true] else do a.holds true; b.holds false
  | .eq, [a, b] => ofHolds fun v => do
    let x ← a.shape
    let y ← b.shape
    if v then same a.sort x y else differ a.sort x y
  | .lt, [a, b] => ofOrder a b assumeLess fun t u => assumeAtMost u t
  | .le, [a, b] => ofOrder a b assumeAtMost fun t u => assumeLess u t
  | .gt, [a, b] => ofOrder b a assumeLess fun t u => assumeAtMost u t
  | .ge, [a, b] => ofOrder b a assumeAtMost fun t u => assumeLess u t
  | .add, [a, b] => ofNumber do return (← a.number).add (← b.number)
  | .sub, [a, b] => ofNumber do return (← a.number).sub (← b.number)
  | .mul, [a, b] => ofNumber do product (← a.number) (← b.number)
  | .div, [a, b] => ofNumber do quotient (← a.number) (← b.number)
  | .select, [a, i] => match a.sort with
    | .array _ r => ofShape r do read r (← a.shape) (← i.number)
    | s => unclear s
  | .store, [a, i, e] => ofShape a.sort do
    match ← known (← a.shape) with
    | .array b ws => return .array b ((← i.number, ← e.shape) :: ws)
    | x => return x
  | _, _ => unclear .bool

end Meaning

namespace Term

open Inquiry

mutual

def meaning : Term → Meaning
  | .bool b => Meaning.ofHolds fun v => if v = b then return () else impossible
  | .int n => Meaning.ofNumber (return .ofInt n)
  | .var i s => Meaning.ofShape s (ofVariable i s)
  | .op o as => Meaning.ofOperator o (meanings as)
  | .app f as =>
    let ms := meanings as
    if f.range = .bool then Meaning.ofHolds fun v => do
      assumeFact f (← ms.mapM (·.shape))
      if v then return () else blur
    else if ms.isEmpty then Meaning.ofShape f.range (constant f)
    else Meaning.unclear f.range
  | .quant _ _ _ => Meaning.unclear .bool

def meanings : List Term → List Meaning
  | [] => []
  | t :: ts => meaning t :: meanings ts

end

end Term

end Horn

import Mathlib.Logic.Function.Basic
import Mathlib.Tactic.Lemma
import Horn.Expr.Operator
import Horn.Term.Sort

/-!
Values: integers, Booleans, and arrays, which are all functions from the values of one sort to those of
another. An operator is applied to values under a reading, which says what a value stands for where one
of a sort is wanted: strictly, only a value of that sort will do; loosely, a Boolean will also do where an
integer is wanted, for 1 or 0.
-/

namespace Horn

def TermSort.Carrier : TermSort → Type
  | .int => Int
  | .bool => Bool
  | .array d r => d.Carrier → r.Carrier

def TermSort.someValue : (s : TermSort) → s.Carrier
  | .int => (0 : Int)
  | .bool => false
  | .array _ r => fun _ => r.someValue

def TermSort.otherValue : (s : TermSort) → s.Carrier
  | .int => (1 : Int)
  | .bool => true
  | .array _ r => fun _ => r.otherValue

lemma TermSort.otherValue_ne (s : TermSort) : s.otherValue ≠ s.someValue := by
  induction s with
  | int => exact (by decide : (1 : Int) ≠ 0)
  | bool => exact (by decide : true ≠ false)
  | array d r _ ih => exact fun h => ih (congrFun h d.someValue)

structure Element where
  sort : TermSort
  val : sort.Carrier

namespace Element

def ofBool (b : Bool) : Element := ⟨.bool, b⟩

def ofInt (n : Int) : Element := ⟨.int, n⟩

@[simp] lemma ofBool_inj {a b : Bool} : ofBool a = ofBool b ↔ a = b :=
  ⟨fun h => eq_of_heq (Element.mk.inj h).2, fun h => by rw [h]⟩

/-- What a value stands for where one of the given sort is wanted. -/
abbrev Reading := (s : TermSort) → Element → Option s.Carrier

/-- Only a value of the sort will do. -/
def strict : Reading := fun s x => if h : x.sort = s then some (h ▸ x.val) else none

/-- A Boolean will also do for an integer. -/
def loose : Reading
  | .int, ⟨.bool, b⟩ => some (cond (b : Bool) (1 : Int) (0 : Int))
  | s, x => strict s x

@[simp] lemma strict_mk (s : TermSort) (v : s.Carrier) : strict s ⟨s, v⟩ = some v := by
  unfold strict
  rw [dif_pos rfl]

@[simp] lemma loose_mk (s : TermSort) (v : s.Carrier) : loose s ⟨s, v⟩ = some v := by
  cases s <;> exact strict_mk _ v

/-- Two values brought to one sort, which is that of the integers if they have different ones. -/
def meet? (read : Reading) (x y : Element) : Option (Element × Element) :=
  if x.sort = y.sort then some (x, y)
  else do return (⟨.int, ← read .int x⟩, ⟨.int, ← read .int y⟩)

def readAll? (read : Reading) : List TermSort → List Element → Option (List Element)
  | [], [] => some []
  | s :: ss, x :: xs => do
    let v ← read s x
    let vs ← readAll? read ss xs
    return ⟨s, v⟩ :: vs
  | _, _ => none

end Element

namespace Operator

/-- What an operator on two integers gives. Division is the one that leaves no negative remainder, and
`z` says what becomes of a number that is divided by zero. -/
def onInts? (z : Int → Int) : Operator → Option (Int → Int → Element)
  | .lt => some fun m n => .ofBool (decide (m < n))
  | .le => some fun m n => .ofBool (decide (m ≤ n))
  | .gt => some fun m n => .ofBool (decide (m > n))
  | .ge => some fun m n => .ofBool (decide (m ≥ n))
  | .add => some fun m n => .ofInt (m + n)
  | .sub => some fun m n => .ofInt (m - n)
  | .mul => some fun m n => .ofInt (m * n)
  | .div => some fun m n => .ofInt (if n = 0 then z m else m / n)
  | _ => none

def onBools? : Operator → Option (Bool → Bool → Bool)
  | .and => some fun a b => a && b
  | .or => some fun a b => a || b
  | .implies => some fun a b => !a || b
  | _ => none

open scoped Classical in
/-- **An operator applied to values.** -/
noncomputable def value? (read : Element.Reading) (z : Int → Int) :
    Operator → List Element → Option Element
  | .ite, [c, x, y] => do
    let c : Bool ← read .bool c
    let (x, y) ← x.meet? read y
    return cond c x y
  | .not, [x] => do
    let a : Bool ← read .bool x
    return .ofBool !a
  | .eq, [x, y] => do
    let (x, y) ← x.meet? read y
    return .ofBool (decide (x = y))
  | .select, [⟨.array d r, a⟩, i] => do
    let i : d.Carrier ← read d i
    return ⟨r, (a : d.Carrier → r.Carrier) i⟩
  | .store, [⟨.array d r, a⟩, i, x] => do
    let i : d.Carrier ← read d i
    let v : r.Carrier ← read r x
    return ⟨.array d r, Function.update (a : d.Carrier → r.Carrier) i v⟩
  | o, [x, y] => match o.onInts? z, o.onBools? with
    | some f, _ => do
      let m : Int ← read .int x
      let n : Int ← read .int y
      return f m n
    | none, some f => do
      let a : Bool ← read .bool x
      let b : Bool ← read .bool y
      return .ofBool (f a b)
    | none, none => none
  | _, _ => none

section

variable {read : Element.Reading} {z : Int → Int} {x y x' y' c : Element}

lemma value?_ite {p : Bool} (hc : read .bool c = some p) (hm : x.meet? read y = some (x', y')) :
    value? read z .ite [c, x, y] = some (cond p x' y') := by
  change (read .bool c >>= fun (c : Bool) => x.meet? read y >>= fun (x, y) => some (cond c x y)) = _
  rw [hc, hm]
  rfl

lemma value?_not {p : Bool} (hx : read .bool x = some p) :
    value? read z .not [x] = some (.ofBool !p) := by
  change (read .bool x >>= fun (a : Bool) => some (Element.ofBool !a)) = _
  rw [hx]
  rfl

open scoped Classical in
lemma value?_eq (hm : x.meet? read y = some (x', y')) :
    value? read z .eq [x, y] = some (.ofBool (decide (x' = y'))) := by
  change (x.meet? read y >>= fun (x, y) => some (Element.ofBool (decide (x = y)))) = _
  rw [hm]
  rfl

lemma value?_select {d r : TermSort} {a : d.Carrier → r.Carrier} {i : d.Carrier}
    (hi : read d x = some i) : value? read z .select [⟨.array d r, a⟩, x] = some ⟨r, a i⟩ := by
  change (read d x >>= fun i => some (Element.mk r (a i))) = _
  rw [hi]
  rfl

open scoped Classical in
lemma value?_store {d r : TermSort} {a : d.Carrier → r.Carrier} {i : d.Carrier} {v : r.Carrier}
    (hi : read d x = some i) (hv : read r y = some v) :
    value? read z .store [⟨.array d r, a⟩, x, y] = some ⟨.array d r, Function.update a i v⟩ := by
  change (read d x >>= fun i => read r y >>= fun v =>
    some (Element.mk (.array d r) (Function.update a i v))) = _
  rw [hi, hv]
  rfl

lemma value?_onInts {o : Operator} {f : Int → Int → Element} {m n : Int}
    (ho : o.onInts? z = some f) (hx : read .int x = some m) (hy : read .int y = some n) :
    o.value? read z [x, y] = some (f m n) := by
  have ho' : o.value? read z [x, y] =
      read .int x >>= fun (m : Int) => read .int y >>= fun (n : Int) => some (f m n) := by
    cases o <;> cases ho <;> rfl
  rw [ho', hx, hy]
  rfl

lemma value?_onBools {o : Operator} {f : Bool → Bool → Bool} {p q : Bool}
    (ho : o.onBools? = some f) (hx : read .bool x = some p) (hy : read .bool y = some q) :
    o.value? read z [x, y] = some (.ofBool (f p q)) := by
  have ho' : o.value? read z [x, y] =
      read .bool x >>= fun (a : Bool) => read .bool y >>= fun (b : Bool) =>
        some (Element.ofBool (f a b)) := by
    cases o <;> cases ho <;> rfl
  rw [ho', hx, hy]
  rfl

end

end Operator

end Horn

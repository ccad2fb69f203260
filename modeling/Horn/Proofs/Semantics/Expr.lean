import Horn.Expr.Term
import Horn.Proofs.Names
import Horn.Proofs.Semantics.Term

/-!
Values of expressions over the declared symbols. A declared name stands for what is given for that name,
any other leaf is a literal, and any other name with arguments an operator. Symbols do not matter here,
so names that share one still stand for different things.
-/

namespace Horn

/-- What the declared functions stand for, by their names and the sorts of their values, and what becomes
of a number that is divided by zero. -/
structure Denotation where
  apply : (name : String) → (range : TermSort) → List Element → range.Carrier
  byZero : Int → Int

/-- Values for the declared constants, by their names and sorts. -/
abbrev Valuation := (name : String) → (s : TermSort) → s.Carrier

def Declaration.meaning (d : Declaration) (I : Denotation) (ρ : Valuation) :
    List Element → d.symbol.range.Carrier :=
  if d.isFunction then I.apply d.name d.symbol.range else fun _ => ρ d.name d.symbol.range

lemma Declaration.meaning_function {d : Declaration} (hk : d.isFunction = true) (I : Denotation)
    (ρ : Valuation) : d.meaning I ρ = I.apply d.name d.symbol.range := if_pos hk

lemma Declaration.meaning_constant {d : Declaration} (hk : d.isFunction = false) (I : Denotation)
    (ρ : Valuation) : d.meaning I ρ = fun _ => ρ d.name d.symbol.range :=
  if_neg (by rw [hk]; exact Bool.false_ne_true)

namespace Expr

open Element

def leaf? (n : String) : Option Element :=
  if n = "true" then some (.ofBool true)
  else if n = "false" then some (.ofBool false)
  else (Decimal.toInt? n.toList).map .ofInt

/-- The value of a name over the values of its arguments. A constant has no arguments. -/
noncomputable def root? (Γ : Symbols) (I : Denotation) (ρ : Valuation) (n : String)
    (xs : List Element) : Option Element :=
  match Γ.find? n with
  | some d => do
    let ys ← readAll? loose d.symbol.domain xs
    return ⟨d.symbol.range, d.meaning I ρ ys⟩
  | none =>
    if xs.isEmpty then leaf? n else do
      let o ← Operator.ofName? n
      o.value? loose I.byZero xs

mutual

/-- **The value of an expression.** The declared functions are interpreted and the declared constants
have assigned values; a Boolean stands for 1 or 0 where an integer is wanted. -/
noncomputable def value? (Γ : Symbols) (I : Denotation) (ρ : Valuation) : Expr → Option Element
  | .node n as _ => do
    let xs ← values? Γ I ρ as
    root? Γ I ρ n xs

noncomputable def values? (Γ : Symbols) (I : Denotation) (ρ : Valuation) :
    List Expr → Option (List Element)
  | [] => some []
  | e :: es => do
    let x ← value? Γ I ρ e
    let xs ← values? Γ I ρ es
    return x :: xs

end

def Holds (e : Expr) (Γ : Symbols) (I : Denotation) (ρ : Valuation) : Prop :=
  e.value? Γ I ρ = some (.ofBool true)

section

variable {Γ : Symbols} {I : Denotation} {ρ : Valuation} {n : String} {xs : List Element}

lemma root?_declared {d : Declaration} {ys : List Element} (hd : Γ.find? n = some d)
    (hy : readAll? loose d.symbol.domain xs = some ys) :
    root? Γ I ρ n xs = some ⟨d.symbol.range, d.meaning I ρ ys⟩ := by
  unfold root?
  rw [hd]
  dsimp only
  rw [hy]
  rfl

lemma root?_leaf (hn : Γ.find? n = none) : root? Γ I ρ n [] = leaf? n := by
  unfold root?
  rw [hn]
  rfl

lemma root?_operator {o : Operator} (hn : Γ.find? n = none) (hx : xs ≠ [])
    (ho : Operator.ofName? n = some o) : root? Γ I ρ n xs = o.value? loose I.byZero xs := by
  unfold root?
  rw [hn]
  dsimp only
  rw [if_neg (by rw [List.isEmpty_iff]; exact hx), ho]
  rfl

/-- A declared name without arguments has the value that it stands for. -/
lemma value?_symbol {d : Declaration} (hd : Γ.find? n = some d) (hdom : d.symbol.domain = [])
    (s : SortSpec) : (symbol n s).value? Γ I ρ = some ⟨d.symbol.range, d.meaning I ρ []⟩ := by
  rw [symbol, value?, values?]
  exact root?_declared hd (by rw [hdom]; rfl)

end

end Expr

end Horn

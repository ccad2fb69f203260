import Horn.Proofs.Semantics.Expr
import Horn.Proofs.Session.Outcome

/-!
Values of rules as they are meant: a bare `false` for the head of a rule stands for the error relation.
Main statement: a rule with its head in place has the value that the rule is meant to have.
-/

namespace Horn

open Element

def Denotation.error (I : Denotation) : Bool := I.apply Session.errorName .bool []

namespace Symbols

/-- No built-in name is declared: no operator, no truth value, and no text that is read as an integer. -/
def KeepsBuiltins (Γ : Symbols) : Prop :=
  ∀ d ∈ Γ.declarations, Operator.ofName? d.name = none ∧ d.name ≠ "true" ∧ d.name ≠ "false" ∧
    Decimal.toInt? d.name.toList = none

instance (Γ : Symbols) : Decidable Γ.KeepsBuiltins :=
  inferInstanceAs (Decidable (∀ d ∈ Γ.declarations, Operator.ofName? d.name = none ∧
    d.name ≠ "true" ∧ d.name ≠ "false" ∧ Decimal.toInt? d.name.toList = none))

lemma KeepsBuiltins.operator {Γ : Symbols} (h : Γ.KeepsBuiltins) (o : Operator) :
    Γ.find? o.name = none := by
  rw [find?_eq_none_iff]
  intro d hd hn
  have hnone := (h d hd).1
  rw [hn, Operator.ofName?_name] at hnone
  cases hnone

lemma KeepsBuiltins.false {Γ : Symbols} (h : Γ.KeepsBuiltins) : Γ.find? "false" = none := by
  rw [find?_eq_none_iff]
  intro d hd
  exact (h d hd).2.2.1

end Symbols

/-! ### Rules as they are meant -/

namespace Expr

/-- The value of a head, in which a bare `false` is the value of the error relation. -/
noncomputable def headValue? (Γ : Symbols) (I : Denotation) (ρ : Valuation) (h : Expr) :
    Option Element :=
  if h.isBareFalse then some (.ofBool I.error) else h.value? Γ I ρ

/-- The value of a rule, in which a bare `false` for its head is the value of the error relation. -/
noncomputable def ruleValue? (Γ : Symbols) (I : Denotation) (ρ : Valuation) :
    Expr → Option Element
  | .node "=>" [b, h] _ => do
    let x ← b.value? Γ I ρ
    let y ← h.headValue? Γ I ρ
    Operator.implies.value? loose I.byZero [x, y]
  | h => h.headValue? Γ I ρ

/-- The rule is true, with the error relation for a bare `false` as its head. -/
def HoldsAsRule (e : Expr) (Γ : Symbols) (I : Denotation) (ρ : Valuation) : Prop :=
  e.ruleValue? Γ I ρ = some (.ofBool true)

section

variable {Γ : Symbols} {I : Denotation} {ρ : Valuation}

lemma value?_implies (hn : Γ.find? "=>" = none) (b h : Expr) (s : SortSpec) :
    (Expr.node "=>" [b, h] s).value? Γ I ρ = (do
      let x ← b.value? Γ I ρ
      let y ← h.value? Γ I ρ
      Operator.implies.value? loose I.byZero [x, y]) := by
  rw [value?, values?, values?, values?]
  rcases b.value? Γ I ρ with _ | x
  · rfl
  · rcases h.value? Γ I ρ with _ | y
    · rfl
    · exact root?_operator hn (List.cons_ne_nil x [y]) rfl

lemma value?_errorExpr {d : Declaration} (hd : Γ.find? Session.errorName = some d)
    (hk : d.isFunction = true) (hs : d.symbol = Session.errorSymbol) :
    Session.errorExpr.value? Γ I ρ = some (.ofBool I.error) := by
  refine (value?_symbol hd (by rw [hs]; rfl) .bool).trans ?_
  rw [Declaration.meaning_function hk, Symbols.name_of_find? hd, hs]
  rfl

lemma ruleValue?_of_ne {e : Expr} (hne : ∀ b h s, e ≠ .node "=>" [b, h] s) :
    e.ruleValue? Γ I ρ = e.headValue? Γ I ρ := by
  unfold ruleValue?
  split
  · exact absurd rfl (hne _ _ _)
  · rfl

/-- A rule with its head in place has the value that the rule is meant to have. -/
lemma value?_ruleForm {e : Expr} (hn : Γ.find? "=>" = none)
    (herr : e.ruleHead.isBareFalse = true →
      Session.errorExpr.value? Γ I ρ = some (.ofBool I.error)) :
    e.ruleForm.value? Γ I ρ = e.ruleValue? Γ I ρ := by
  have hhead : (if e.ruleHead.isBareFalse then Session.errorExpr else e.ruleHead).value? Γ I ρ =
      e.ruleHead.headValue? Γ I ρ := by
    unfold headValue?
    split
    · exact herr ‹_›
    · rfl
  unfold ruleForm
  rcases e.rule_cases with ⟨b, h, s, rfl⟩ | ⟨hne, hh, hp, -⟩
  · rw [ruleValue?]
    refine (value?_implies hn _ _ _).trans ?_
    rw [hhead]
    rfl
  · rw [hp, hhead, hh, ruleValue?_of_ne hne]

/-- Where the error relation is false, a bare `false` may stand for itself. -/
lemma ruleValue?_of_error {e : Expr} (hf : Γ.find? "false" = none) (hn : Γ.find? "=>" = none)
    (hI : I.error = false) : e.ruleValue? Γ I ρ = e.value? Γ I ρ := by
  have hhead : ∀ h : Expr, h.headValue? Γ I ρ = h.value? Γ I ρ := by
    rintro ⟨n, as, s⟩
    unfold headValue?
    split
    · rename_i hbare
      rw [isBareFalse, Bool.and_eq_true] at hbare
      obtain rfl : n = "false" := of_decide_eq_true hbare.1
      obtain rfl : as = [] := List.isEmpty_iff.mp hbare.2
      rw [hI, value?, values?]
      exact (root?_leaf hf).symm
    · rfl
  rcases e.rule_cases with ⟨b, h, s, rfl⟩ | ⟨hne, -⟩
  · rw [ruleValue?, value?_implies hn, hhead]
  · rw [ruleValue?_of_ne hne, hhead]

end

end Expr

end Horn

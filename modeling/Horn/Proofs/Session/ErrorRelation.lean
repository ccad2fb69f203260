import Horn.Proofs.Declarable
import Horn.Proofs.Session.Containment
import Horn.Proofs.Session.Refusal
import Horn.Proofs.Session.Submission
import Horn.Proofs.Sorting.Translation

/-!
The use of the error relation. Main statement: what a session gives as its error relation is an application
of it that can be asked for and can head rules, unless the caller has registered a relation with arguments
under its name.
-/

namespace Horn

/-! ### Implications -/

/-- The name of the implication, if it is declared, is that of a function that takes two formulas to a
formula. -/
def Symbols.TakesFormulas (Γ : Symbols) : Prop :=
  ∀ d, Γ.find? Operator.implies.name = some d → ∃ p q : TermSort, p.Fits .bool ∧ q.Fits .bool ∧
    d.spec = .function [.ofTermSort p, .ofTermSort q] .bool

namespace Expr

def ruleBody? : Expr → Option Expr
  | .node "=>" [b, _] _ => some b
  | _ => none

/-- A rule with a bare `false` for its head is translated with the error relation in its place. -/
lemma ruleForm_of_isBareFalse {e : Expr} (hf : e.ruleHead.isBareFalse = true) :
    (∃ b, e.ruleBody? = some b ∧ e.ruleForm = .implies b Session.errorExpr) ∨
      (e.ruleBody? = none ∧ e.ruleForm = Session.errorExpr) := by
  unfold ruleForm
  rw [if_pos hf]
  rcases e.rule_cases with ⟨b, h, a, rfl⟩ | ⟨hne, -, hp, -⟩
  · exact .inl ⟨b, rfl, rfl⟩
  · refine .inr ⟨?_, hp _⟩
    unfold ruleBody?
    split
    · exact absurd rfl (hne _ _ _)
    · rfl

variable {Γ : Symbols}

/-- What is a formula has the Boolean sort. -/
lemma exists_toFormula_iff (hΓ : Γ.WellFormed) {e : Expr} :
    (∃ t, e.toFormula Γ = .ok t) ↔ e.HasSort Γ .bool := by
  simp only [toFormula_eq_ok]
  constructor
  · rintro ⟨t, ht, hb⟩
    obtain ⟨s, he, hs⟩ := toTerm_hasSort hΓ ht
    rwa [← hb, hs.sort_eq]
  · intro h
    obtain ⟨t, ht, hs⟩ := h.exists_toTerm hΓ
    exact ⟨t, ht, hs.sort_eq⟩

lemma hasSort_unique (hΓ : Γ.WellFormed) {e : Expr} {r s : TermSort} (hr : e.HasSort Γ r)
    (hs : e.HasSort Γ s) : r = s := by
  obtain ⟨t, ht, hr⟩ := hr.exists_toTerm hΓ
  obtain ⟨u, hu, hs⟩ := hs.exists_toTerm hΓ
  cases ht.symm.trans hu
  exact hr.sort_eq.symm.trans hs.sort_eq

/-- **When an implication of two formulas is a formula**: it is unless its name has been declared as
something else. -/
lemma toFormula_implies_iff (hΓ : Γ.WellFormed) {b h : Expr} (hb : b.HasSort Γ .bool)
    (hh : h.HasSort Γ .bool) : (∃ t, (implies b h).toFormula Γ = .ok t) ↔ Γ.TakesFormulas := by
  rw [exists_toFormula_iff hΓ]
  constructor
  · intro hs d hd
    change HasSort Γ (.node Operator.implies.name [b, h] .bool) .bool at hs
    cases hs with
    | @call _ _ _ d' ds c dom ss _ hd' hf hdom hc hes hfits =>
      obtain rfl := Option.some.inj (hd.symm.trans hd')
      obtain ⟨p, q, rfl, hp, hq⟩ := Term.forall₂_pair hes
      obtain ⟨x, y, rfl, hx, hy⟩ := Term.forall₂_pair hfits.flip
      rw [hasSort_unique hΓ hp hb] at hx
      rw [hasSort_unique hΓ hq hh] at hy
      refine ⟨x, y, hx, hy, ?_⟩
      rw [hf, SortSpec.mapM_toTermSort_eq_ok_iff.mp hdom, SortSpec.toTermSort_eq_ok_iff.mp hc]
      rfl
    | operator hn _ _ _ => cases hn.symm.trans hd
  · intro htake
    rcases hd : Γ.find? Operator.implies.name with _ | d
    · exact .operator hd rfl (.cons hb (.cons hh .nil)) rfl
    · obtain ⟨p, q, hp, hq, hspec⟩ := htake d hd
      have hdom : [SortSpec.ofTermSort p, .ofTermSort q].mapM SortSpec.toTermSort = .ok [p, q] :=
        SortSpec.mapM_toTermSort_eq_ok_iff.mpr rfl
      exact .call hd hspec hdom rfl (.cons hb (.cons hh .nil)) (.cons hp (.cons hq .nil))

end Expr

namespace Session

/-! ### The error relation, applied -/

section

variable {E : Engine} {s : Session} {J : List (Engine × EngineCall)}

/-- What is given as the error relation is registered under its name, and the name is taken only if it was
before. -/
lemma errorRelation_given (hg : Good J s) {r : Expr} (h : (errorRelation E s).result = .ok r) :
    r = errorExpr ∧ (errorRelation E s).session.isRegistered errorName = true ∧
      ((errorRelation E s).session.ErrorTaken ↔ s.ErrorTaken) := by
  have hend := errorRelation_ends E s
  have hg' := hend.preparing.good hg
  generalize errorRelation E s = o at h hend hg'
  obtain ⟨rfl, hreg, -⟩ := hend.ok h
  refine ⟨rfl, hreg, ?_⟩
  cases hend with
  | known hr => rfl
  | undeclared hr hd ho => cases h
  | unregistered hr hd ho hn ho' => cases h
  | @made o o' hr hd ho hn ho' =>
    have hfresh : ¬ s.ErrorTaken := by
      rintro ⟨d, hd', hname, -⟩
      rw [isRegistered_iff.mpr ⟨d, hd', hname⟩] at hr
      cases hr
    refine ⟨?_, fun ht => absurd ht hfresh⟩
    -- the declaration that has just been made is the only one of the name
    rintro ⟨d, hd', hname, hspec⟩
    have hfind := hd.find?_error hg.symbols ho
    have hown : errorDeclaration ∈ o'.session.symbols.declarations :=
      hn.preparing.grows.declared _ (List.mem_of_find?_eq_some hfind)
    have hmem := (List.mem_filter.mp (hg'.relation d hd').1).1
    rw [hg'.symbols.unique hmem hown hname] at hspec
    exact absurd rfl hspec

/-- The error relation is a term, and then a formula, just if its name is not taken. -/
lemma Good.error_formula_iff (hg : Good J s) (hr : s.isRegistered errorName = true) :
    ((∃ t, errorExpr.toTerm s.symbols = .ok t) ↔ ¬ s.ErrorTaken) ∧
      ((∃ t, errorExpr.toFormula s.symbols = .ok t) ↔ ¬ s.ErrorTaken) := by
  simp only [Expr.toFormula_eq_ok]
  rcases hg.error_cases hr with ⟨hfree, -, hterm⟩ | ⟨htaken, k, hterm⟩
  · simp [hterm, hfree, Term.const, Term.sort, errorSymbol]
  · simp [hterm, htaken]

lemma admits_errorExpr (hr : s.isRegistered errorName = true) : s.Admits errorExpr := fun n hn => by
  obtain rfl : n = errorName := by simpa [errorExpr, Expr.names, Expr.namesOfAll] using hn
  exact isUnregistered_eq_false hr

/-- **The error relation can be asked for** just if its name is not taken. -/
lemma Good.query_error_iff (hg : Good J s) (hr : s.isRegistered errorName = true) :
    (∃ p g, (p, .query g) ∈ (query errorExpr E s).calls) ↔ ¬ s.ErrorTaken := by
  rw [← (hg.error_formula_iff hr).2]
  constructor
  · rintro ⟨p, g, hgoal⟩
    obtain ⟨t, -, ht, -⟩ := query_goal hgoal
    exact ⟨t, ht⟩
  · rintro ⟨t, ht⟩
    exact ⟨_, _, query_hands (admits_errorExpr hr) ht E⟩

/-! ### Rules with a bare `false` for their heads -/

lemma withHead_of_registered {e : Expr} (hr : s.isRegistered errorName = true)
    (hf : e.ruleHead.isBareFalse = true) : withHead e E s = ⟨.ok e.ruleForm, s, [], []⟩ := by
  have hform : e.putHead errorExpr = e.ruleForm := by rw [Expr.ruleForm, hf, if_pos rfl]
  have hhead : head e.ruleHead E s = ⟨.ok errorExpr, s, [], []⟩ := by
    have hend := head_ends e.ruleHead E s
    generalize head e.ruleHead E s = o at hend
    cases hend with
    | error =>
      have hend := errorRelation_ends E s
      generalize errorRelation E s = o at hend ⊢
      cases hend with
      | known _ => rfl
      | undeclared hr' _ _ => rw [hr] at hr'; cases hr'
      | unregistered hr' _ _ _ _ => rw [hr] at hr'; cases hr'
      | made hr' _ _ _ _ => rw [hr] at hr'; cases hr'
    | registered hf' _ => rw [hf] at hf'; cases hf'
    | notHead hf' _ => rw [hf] at hf'; cases hf'
  rw [withHead_eq, hhead, ← hform]
  rfl

/-- A rule with a bare `false` for its head fails in its translation just if its names are admitted and it
is no formula with the error relation in place of the head. -/
lemma addRule_eq_term_of_registered {e : Expr} {l : String} {x : TermError}
    (hr : s.isRegistered errorName = true) (hf : e.ruleHead.isBareFalse = true) :
    (addRule e l E s).result = .error (.term x) ↔
      s.Admits e ∧ e.ruleForm.toFormula s.symbols = .error x := by
  have hend := addRule_ends e l E s
  rw [withHead_of_registered hr hf] at hend
  generalize addRule e l E s = o at hend ⊢
  rw [Admits, ← Expr.searchName_eq_none_iff]
  cases hend with
  | unknown hn => simp [hn]
  | noHead _ ho => cases ho
  | noTerm hn ho ht => cases ho; simp [hn, ht]
  | @refused e' t u f _ ho ht _ _ => cases ho; simp [ht, f.error_ne_term]
  | added _ ho ht _ _ => cases ho; simp [ht]

/-- **When such a rule is a formula**, if its body is one: the error relation must be one, and an
implication of formulas too if the rule is an implication. -/
lemma Good.ruleForm_iff (hg : Good J s) {e : Expr} (hr : s.isRegistered errorName = true)
    (hf : e.ruleHead.isBareFalse = true) (hb : ∀ b ∈ e.ruleBody?, ∃ t, b.toFormula s.symbols = .ok t) :
    (∃ t, e.ruleForm.toFormula s.symbols = .ok t) ↔
      ¬ s.ErrorTaken ∧ (e.ruleBody?.isSome → s.symbols.TakesFormulas) := by
  have herror := hg.error_formula_iff hr
  by_cases htaken : s.ErrorTaken
  · -- an application without arguments is no term, and so neither is the rule
    refine ⟨?_, fun h => absurd htaken h.1⟩
    rintro ⟨t, ht⟩
    obtain ⟨u, hu⟩ := errorExpr_toTerm hf (Expr.toFormula_eq_ok.mp ht).1
    exact absurd htaken (herror.1.mp ⟨u, hu⟩)
  · have hformula := herror.2.mpr htaken
    rcases Expr.ruleForm_of_isBareFalse hf with ⟨b, hbody, hform⟩ | ⟨hbody, hform⟩ <;> rw [hform, hbody]
    · rw [Expr.toFormula_implies_iff hg.symbols
        ((Expr.exists_toFormula_iff hg.symbols).mp (hb b hbody))
        ((Expr.exists_toFormula_iff hg.symbols).mp hformula)]
      simp [htaken]
    · simp [htaken, hformula]

/-- **When such a rule fails in its translation.** -/
lemma Good.addRule_false_fails_iff (hg : Good J s) {e : Expr} {l : String}
    (hr : s.isRegistered errorName = true) (hf : e.ruleHead.isBareFalse = true)
    (hb : ∀ b ∈ e.ruleBody?, ∃ t, b.toFormula s.symbols = .ok t) :
    (∃ x, (addRule e l E s).result = .error (.term x)) ↔
      s.Admits e ∧ (s.ErrorTaken ∨ (e.ruleBody?.isSome ∧ ¬ s.symbols.TakesFormulas)) := by
  have hform := hg.ruleForm_iff hr hf hb
  simp only [addRule_eq_term_of_registered hr hf, exists_and_left]
  refine and_congr_right fun _ => ?_
  have hfails : (∃ x, e.ruleForm.toFormula s.symbols = .error x) ↔
      ¬ ∃ t, e.ruleForm.toFormula s.symbols = .ok t := by
    rcases e.ruleForm.toFormula s.symbols with x | t <;> simp
  rw [hfails, hform]
  tauto

end

/-- **What is given as the error relation can be used just if nobody has taken its name**, then and after
anything that is done next. It is always the application of that name, and passes the check of its
relations. If no relation of another sort was registered under the name before, it is a formula that
applies the registered relation without arguments, and can be asked for; otherwise the translation fails,
since the relation of that name takes arguments. A rule with a bare `false` for its head and a formula for
its body fails in its translation just if its names are admitted and the name was taken or, if it is an
implication, the name of the implication is declared as something that does not take formulas. -/
theorem error_relation_usable_iff (c : Config) (cs : List (Engine × Command)) (E : Engine) (r : Expr)
    (h : (errorRelation E (run (new c) cs)).result = .ok r) (cs' : List (Engine × Command)) :
    let taken := (run (new c) cs).ErrorTaken
    let s := run (errorRelation E (run (new c) cs)).session cs'
    r = errorExpr ∧
    (∀ E', (checkRelations r E' s).result = .ok ()) ∧
    ((∃ t, r.toTerm s.symbols = .ok t) ↔ ¬ taken) ∧
    (∀ t, r.toTerm s.symbols = .ok t →
      t = .app errorSymbol [] ∧ t.sort = .bool ∧ errorDeclaration ∈ s.relations) ∧
    (∀ x, r.toTerm s.symbols = .error x → ∃ k, x = .arity errorName (k + 1) 0) ∧
    (∀ E', (∃ p g, (p, .query g) ∈ (query r E' s).calls) ↔ ¬ taken) ∧
    ∀ E' e l, e.ruleHead.isBareFalse = true →
      (∀ b ∈ e.ruleBody?, ∃ t, b.toFormula s.symbols = .ok t) →
      ((∃ x, (addRule e l E' s).result = .error (.term x)) ↔
        s.Admits e ∧ (taken ∨ (e.ruleBody?.isSome ∧ ¬ s.symbols.TakesFormulas))) := by
  intro taken s
  have hg₀ := good_run c cs
  have hg₁ := (errorRelation_ends E (run (new c) cs)).preparing.good hg₀
  obtain ⟨rfl, hreg, htaken⟩ := errorRelation_given hg₀ h
  have hg := run_good cs' hg₁
  have hgrows := run_grows (errorRelation E (run (new c) cs)).session cs'
  have hr : s.isRegistered errorName = true := by
    obtain ⟨d, hd, hn⟩ := isRegistered_iff.mp hreg
    exact isRegistered_iff.mpr ⟨d, hgrows.registered d hd, hn⟩
  have htaken : s.ErrorTaken ↔ taken := (hgrows.errorTaken_iff hg hreg).trans htaken
  refine ⟨rfl, fun E' => ?_, ?_, fun t ht => ?_, fun x hx => ?_, fun E' => ?_, fun E' e l hf hb => ?_⟩
  · exact checkRelations_eq_ok.mpr (Expr.searchName_eq_none_iff.mpr (admits_errorExpr hr))
  · rw [← htaken]
    exact (hg.error_formula_iff hr).1
  · rcases hg.error_cases hr with ⟨-, hmem, hterm⟩ | ⟨-, k, hterm⟩ <;> cases hterm.symm.trans ht
    exact ⟨rfl, rfl, hmem⟩
  · rcases hg.error_cases hr with ⟨-, -, hterm⟩ | ⟨-, k, hterm⟩ <;> cases hterm.symm.trans hx
    exact ⟨k, rfl⟩
  · rw [← htaken]
    exact hg.query_error_iff hr
  · rw [← htaken]
    exact hg.addRule_false_fails_iff hr hf hb

/-- A fresh session: the error relation can be asked for, and so it can after another relation has been
declared and registered. -/
theorem error_relation_usable_fresh :
    let cs' := [(obliging, .declare "p" (.function [.int] .bool)),
      (obliging, .register (.symbol "p" .absent))]
    let s := run (errorRelation obliging (run (new .default) [])).session cs'
    (errorRelation obliging (run (new .default) [])).result = .ok errorExpr ∧
      (∃ t, errorExpr.toTerm s.symbols = .ok t) ∧
      ∃ p g, (p, .query g) ∈ (query errorExpr obliging s).calls := by
  intro cs' s
  have hgiven : (errorRelation obliging (run (new .default) [])).result = .ok errorExpr := by
    with_unfolding_all rfl
  have hfree : ¬ (run (new .default) []).ErrorTaken := fun ⟨_, hd, _⟩ => nomatch hd
  obtain ⟨-, -, hterm, -, -, hquery, -⟩ :=
    error_relation_usable_iff .default [] obliging errorExpr hgiven cs'
  exact ⟨hgiven, hterm.mpr hfree, (hquery obliging).mpr hfree⟩

/-- The caller has taken the name for a relation with an argument: what is given as the error relation can
neither be asked for nor head a rule. -/
theorem error_relation_taken :
    let s := run (new .default) [(obliging, .declare errorName (.function [.int] .bool)),
      (obliging, .register (.symbol errorName .absent)), (obliging, .errorRelation)]
    (errorRelation obliging s).result = .ok errorExpr ∧
      (query errorExpr obliging s).result = .error (.term (.arity "chc!error" 1 0)) ∧
      (addRule (.implies (.ofBool true) (.ofBool false)) "safe" obliging s).result =
        .error (.term (.arity "chc!error" 1 0)) := by
  intro s
  exact ⟨by with_unfolding_all rfl, by with_unfolding_all rfl, by with_unfolding_all rfl⟩

end Session

end Horn

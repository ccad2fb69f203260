import Horn.Proofs.Sorting.Building

/-!
Expressions that have a sort are those that have a term. Main statement: an expression has a sort exactly
if it has a term, and the term has the same sort, each of its parts being of just the sort that is wanted.
-/

namespace Horn

/-! ### Sorts of declared names -/

namespace SortSpec

lemma toSymbol_function_eq_ok {n : String} {ds : List SortSpec} {c : SortSpec} {f : Symbol}
    (h : (function ds c).toSymbol n = .ok f) :
    ds.mapM toTermSort = .ok f.domain ∧ c.toTermSort = .ok f.range := by
  unfold toSymbol at h
  obtain ⟨dom, hd, h⟩ := bind_eq_ok h
  obtain ⟨r, hc, h⟩ := bind_eq_ok h
  cases h
  exact ⟨hd, hc⟩

lemma toSymbol_constant_eq_ok {n : String} {s : SortSpec} {f : Symbol} (hs : s.isFunction = false)
    (h : s.toSymbol n = .ok f) : s.toTermSort = .ok f.range := by
  unfold toSymbol at h
  split at h
  · cases hs
  · obtain ⟨r, hr, h⟩ := bind_eq_ok h
    cases h
    exact hr

lemma isFunction_of_toTermSort {s : SortSpec} {r : TermSort} (h : s.toTermSort = .ok r) :
    s.isFunction = false := by
  cases s with
  | function ds c => unfold toTermSort at h; cases h
  | _ => rfl

end SortSpec

namespace Symbols

variable {Γ : Symbols} (hΓ : Γ.WellFormed) {n : String}
include hΓ

/-- A constant has the sort that it was declared with. -/
lemma WellFormed.constant?_sort {s : TermSort} : (∃ c, Γ.constant? n = some c ∧ c.range = s) ↔
    ∃ d, Γ.find? n = some d ∧ d.spec.toTermSort = .ok s := by
  constructor
  · rintro ⟨c, hc, rfl⟩
    obtain ⟨d, hd, hk, rfl⟩ := hΓ.constant?_eq_some_iff.mp hc
    have hmade := hΓ.made d (hΓ.find?_eq_some_iff.mp hd).1
    exact ⟨d, hd, SortSpec.toSymbol_constant_eq_ok hk hmade⟩
  · rintro ⟨d, hd, hs⟩
    have hk := SortSpec.isFunction_of_toTermSort hs
    have hmade := hΓ.made d (hΓ.find?_eq_some_iff.mp hd).1
    have hs' := SortSpec.toSymbol_constant_eq_ok hk hmade
    rw [hs] at hs'
    exact ⟨_, hΓ.constant?_eq_some_iff.mpr ⟨d, hd, hk, rfl⟩, (Except.ok.inj hs').symm⟩

/-- A function has the domain and the codomain that it was declared with. -/
lemma WellFormed.function?_sorts {dom : List TermSort} {s : TermSort} :
    (∃ f, Γ.function? n = some f ∧ f.domain = dom ∧ f.range = s) ↔
      ∃ d ds c, Γ.find? n = some d ∧ d.spec = .function ds c ∧
        ds.mapM SortSpec.toTermSort = .ok dom ∧ c.toTermSort = .ok s := by
  constructor
  · rintro ⟨f, hf, rfl, rfl⟩
    obtain ⟨d, hd, hk, rfl⟩ := hΓ.function?_eq_some_iff.mp hf
    have hmade := hΓ.made d (hΓ.find?_eq_some_iff.mp hd).1
    rcases hs : d.spec with _ | _ | _ | _ | _ | _ | _ | ⟨ds, c⟩
    case function =>
      rw [hs] at hmade
      exact ⟨d, ds, c, hd, hs, SortSpec.toSymbol_function_eq_ok hmade⟩
    all_goals
      rw [Declaration.isFunction, hs] at hk
      cases hk
  · rintro ⟨d, ds, c, hd, hs, hdom, hc⟩
    have hk : d.isFunction = true := by rw [Declaration.isFunction, hs]; rfl
    have hmade := hΓ.made d (hΓ.find?_eq_some_iff.mp hd).1
    rw [hs] at hmade
    obtain ⟨hdom', hc'⟩ := SortSpec.toSymbol_function_eq_ok hmade
    rw [hdom] at hdom'
    rw [hc] at hc'
    exact ⟨_, hΓ.function?_eq_some_iff.mpr ⟨d, hd, hk, rfl⟩, (Except.ok.inj hdom').symm,
      (Except.ok.inj hc').symm⟩

lemma WellFormed.constant?_eq_none_of_function? {f : Symbol} (hf : Γ.function? n = some f) :
    Γ.constant? n = none := by
  obtain ⟨d, hd, hk, -⟩ := hΓ.function?_eq_some_iff.mp hf
  rw [hΓ.constant?_eq_none_iff]
  intro d' hd'
  rw [hd] at hd'
  cases hd'
  exact hk

end Symbols

lemma Operator.arity_of_looseSort? (o : Operator) {ss : List TermSort} {s : TermSort}
    (h : o.looseSort? ss = some s) : o.arity = ss.length := by
  unfold looseSort? at h
  split at h <;> first | rfl | cases h

lemma Operator.ne_nil_of_arity {o : Operator} {α : Type} {l : List α} (h : o.arity = l.length) :
    l ≠ [] := by
  rintro rfl
  cases o <;> cases h

namespace Expr

open TermSort (Fits)

variable {Γ : Symbols} {n : String} {es : List Expr} {a : SortSpec}

/-! ### Sorts of translated expressions -/

lemma const_hasSort (hΓ : Γ.WellFormed) {c : Symbol} (hc : Γ.constant? n = some c) :
    (Term.const c).HasSort c.range := by
  refine .app ?_
  obtain ⟨d, hd, hk, rfl⟩ := hΓ.constant?_eq_some_iff.mp hc
  obtain ⟨-, rfl⟩ := hΓ.find?_eq_some_iff.mp hd
  rw [hΓ.domain_of_mem_free (List.mem_map_of_mem (hΓ.mem_constants_iff.mpr ⟨hd, hk⟩))]
  exact .nil

/-- The sort of a root over arguments that have terms. -/
lemma rootTerm_hasSort (hΓ : Γ.WellFormed) {ts : List Term} {ss : List TermSort} {t : Term}
    (hes : List.Forall₂ (HasSort Γ) es ss) (hts : List.Forall₂ Term.HasSort ts ss)
    (h : rootTerm Γ (.node n es a) ts = .ok t) :
    ∃ s, HasSort Γ (.node n es a) s ∧ t.HasSort s := by
  rcases rootTerm_eq_ok h with ⟨f, us, hf, hl, hus, rfl⟩ | ⟨hf, hc, hcase⟩
  · obtain ⟨_, ⟨rfl, hfits⟩, hus⟩ := (Term.castAll_built hl hts).of_ok hus
    obtain ⟨d, ds, c, hd, hspec, hdom, hr⟩ := hΓ.function?_sorts.mp ⟨f, hf, rfl, rfl⟩
    exact ⟨f.range, .call hd hspec hdom hr hes hfits, .app hus⟩
  · have hn : Γ.find? n = none := Symbols.find?_eq_none_iff_kinds.mpr ⟨hf, hc⟩
    rcases hcase with ⟨rfl, hlit⟩ | ⟨-, o, ho, hop⟩
    · cases hts
      cases hes
      rcases literalTerm_eq_ok hlit with ⟨rfl, rfl⟩ | ⟨rfl, rfl⟩ | ⟨-, -, k, hk, rfl⟩
      · exact ⟨.bool, .truth hn (.inl rfl), .bool true⟩
      · exact ⟨.bool, .truth hn (.inr rfl), .bool false⟩
      · exact ⟨.int, .numeral hn hk, .int k⟩
    · obtain ⟨s, hs, ht⟩ := (Term.ofOperator_built (Term.arity_of_ofOperator hop) hts).of_ok hop
      exact ⟨s, .operator hn (Operator.ofName?_eq_some_iff.mp ho) hes hs, ht⟩

mutual

/-- **What has a term has a sort**, and the term has that sort. -/
theorem toTerm_hasSort (hΓ : Γ.WellFormed) {e : Expr} {t : Term} (h : e.toTerm Γ = .ok t) :
    ∃ s, e.HasSort Γ s ∧ t.HasSort s := by
  match e with
  | .node n es a =>
    rcases toTerm_eq_ok h with ⟨c, rfl, hc, rfl⟩ | ⟨-, ts, hts, hroot⟩
    · obtain ⟨d, hd, hs⟩ := hΓ.constant?_sort.mp ⟨c, hc, rfl⟩
      exact ⟨c.range, .constant hd hs, const_hasSort hΓ hc⟩
    · obtain ⟨ss, hes, hts⟩ := toTerms_hasSort hΓ hts
      exact rootTerm_hasSort hΓ hes hts hroot

theorem toTerms_hasSort (hΓ : Γ.WellFormed) {es : List Expr} {ts : List Term}
    (h : toTerms Γ es = .ok ts) :
    ∃ ss, List.Forall₂ (HasSort Γ) es ss ∧ List.Forall₂ Term.HasSort ts ss := by
  match es with
  | [] =>
    unfold toTerms at h
    cases h
    exact ⟨[], .nil, .nil⟩
  | e :: es =>
    obtain ⟨t, us, ht, hus, rfl⟩ := toTerms_cons_eq_ok h
    obtain ⟨s, he, ht⟩ := toTerm_hasSort hΓ ht
    obtain ⟨ss, hes, hts⟩ := toTerms_hasSort hΓ hus
    exact ⟨s :: ss, .cons he hes, .cons ht hts⟩

end

/-! ### Terms of expressions with sorts -/

/-- What is no declared leaf is read by its root over the terms of its arguments. -/
lemma toTerm_node (h : es = [] → Γ.constant? n = none) :
    toTerm Γ (.node n es a) = toTerms Γ es >>= rootTerm Γ (.node n es a) := by
  unfold toTerm
  split
  · rename_i c hc
    rw [h rfl] at hc
    cases hc
  · rfl

lemma rootTerm_function {f : Symbol} {ts : List Term} (hf : Γ.function? n = some f)
    (hl : f.domain.length = ts.length) :
    rootTerm Γ (.node n es a) ts = blame (.node n es a) (Term.ofSymbol f ts) := by
  unfold rootTerm
  rw [show (Expr.node n es a).name = n from rfl, hf]
  exact if_pos hl

lemma rootTerm_operator {o : Operator} {ts : List Term} (hf : Γ.function? n = none)
    (hc : Γ.constant? n = none) (ho : Operator.ofName? n = some o) (hl : o.arity = ts.length) :
    rootTerm Γ (.node n es a) ts = blame (.node n es a) (Term.ofOperator o ts) := by
  rcases ts with _ | ⟨t, ts⟩
  · exact absurd rfl (Operator.ne_nil_of_arity hl)
  · unfold rootTerm undeclaredTerm
    rw [show (Expr.node n es a).name = n from rfl, hf, hc, ho]
    exact if_pos hl

mutual

/-- **What has a sort has a term**, of that sort. -/
theorem HasSort.exists_toTerm (hΓ : Γ.WellFormed) {e : Expr} {s : TermSort} (h : e.HasSort Γ s) :
    ∃ t, e.toTerm Γ = .ok t ∧ t.HasSort s := by
  match e with
  | .node n es a =>
    cases h with
    | constant hd hs =>
      obtain ⟨c, hc, rfl⟩ := hΓ.constant?_sort.mpr ⟨_, hd, hs⟩
      exact ⟨.const c, toTerm_constant a hc, const_hasSort hΓ hc⟩
    | call hd hspec hdom hr hes hfits =>
      obtain ⟨f, hf, rfl, rfl⟩ := hΓ.function?_sorts.mpr ⟨_, _, _, hd, hspec, hdom, hr⟩
      obtain ⟨ts, hts, hss⟩ := exists_toTerms hΓ hes
      have hl : f.domain.length = ts.length := hfits.length_eq.trans hss.length_eq.symm
      have hb := Term.castAll_built hl hss
      obtain ⟨us, hus⟩ := hb.exists_ok ⟨rfl, hfits⟩
      obtain ⟨_, ⟨rfl, -⟩, hus'⟩ := hb.of_ok hus
      refine ⟨.app f us, ?_, .app hus'⟩
      rw [toTerm_node fun _ => hΓ.constant?_eq_none_of_function? hf, hts]
      change rootTerm Γ _ ts = _
      rw [rootTerm_function hf hl, Term.ofSymbol, hus]
      rfl
    | truth hn h =>
      obtain ⟨hf, hc⟩ := Symbols.find?_eq_none_iff_kinds.mp hn
      rcases h with rfl | rfl
      · exact ⟨.bool true, toTerm_literal a hf hc, .bool true⟩
      · exact ⟨.bool false, toTerm_literal a hf hc, .bool false⟩
    | @numeral _ _ k hn hk =>
      obtain ⟨hf, hc⟩ := Symbols.find?_eq_none_iff_kinds.mp hn
      refine ⟨.int k, (toTerm_literal a hf hc).trans ?_, .int k⟩
      -- the two words are looked at first, and neither is a numeral
      have hword : ∀ w : String, Decimal.toInt? w.toList = none → n ≠ w := by
        rintro w hw rfl
        rw [hw] at hk
        cases hk
      unfold literalTerm
      rw [if_neg (hword "true" (by decide)), if_neg (hword "false" (by decide)), hk]
    | @operator _ _ _ o ss _ hn ho hes hs =>
      obtain ⟨hf, hc⟩ := Symbols.find?_eq_none_iff_kinds.mp hn
      obtain ⟨ts, hts, hss⟩ := exists_toTerms hΓ hes
      have hl : o.arity = ts.length := (o.arity_of_looseSort? hs).trans hss.length_eq.symm
      have hb := Term.ofOperator_built hl hss
      obtain ⟨u, hu⟩ := hb.exists_ok hs
      obtain ⟨s', hs', hu'⟩ := hb.of_ok hu
      rw [hs] at hs'
      cases hs'
      refine ⟨u, ?_, hu'⟩
      rw [toTerm_node fun _ => hc, hts]
      change rootTerm Γ _ ts = _
      rw [rootTerm_operator hf hc (Operator.ofName?_eq_some_iff.mpr ho) hl, hu]
      rfl

theorem exists_toTerms (hΓ : Γ.WellFormed) {es : List Expr} {ss : List TermSort}
    (h : List.Forall₂ (HasSort Γ) es ss) :
    ∃ ts, toTerms Γ es = .ok ts ∧ List.Forall₂ Term.HasSort ts ss := by
  match es with
  | [] =>
    cases h
    exact ⟨[], by rw [toTerms], .nil⟩
  | e :: es =>
    cases h with
    | cons he hes =>
      obtain ⟨t, ht, hs⟩ := he.exists_toTerm hΓ
      obtain ⟨ts, hts, hss⟩ := exists_toTerms hΓ hes
      exact ⟨t :: ts, by rw [toTerms, ht, hts]; rfl, .cons hs hss⟩

end

/-- **Translation accepts exactly the expressions that have a sort**, whatever has been declared, and as a
rule or a goal those that have the Boolean one. The term of an expression has the sort of the expression,
which has no other one, and each part of it has just the sort that is wanted there. -/
theorem hasSort_iff_toTerm (ds : List (String × SortSpec)) (e : Expr) :
    let Γ := Symbols.empty.declareAll ds
    (∀ s, e.HasSort Γ s ↔ ∃ t, e.toTerm Γ = .ok t ∧ t.sort = s) ∧
    (e.HasSort Γ .bool ↔ ∃ t, e.toFormula Γ = .ok t) ∧
    ∀ t, e.toTerm Γ = .ok t → t.HasSort t.sort := by
  intro Γ
  have hΓ : Γ.WellFormed := Symbols.wellFormed_empty.declareAll ds
  have hiff : ∀ s, e.HasSort Γ s ↔ ∃ t, e.toTerm Γ = .ok t ∧ t.sort = s := by
    intro s
    constructor
    · intro h
      obtain ⟨t, ht, hs⟩ := h.exists_toTerm hΓ
      exact ⟨t, ht, hs.sort_eq⟩
    · rintro ⟨t, ht, rfl⟩
      obtain ⟨s, he, hs⟩ := toTerm_hasSort hΓ ht
      rwa [hs.sort_eq]
  refine ⟨hiff, ?_, fun t ht => ?_⟩
  · simp only [hiff, toFormula_eq_ok]
  · obtain ⟨s, -, hs⟩ := toTerm_hasSort hΓ ht
    rwa [hs.sort_eq]

end Expr

end Horn

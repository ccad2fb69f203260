import Horn.Proofs.Semantics.Translation
import Horn.Proofs.Sorting.Translation

/-!
Names that share a symbol. A symbol has the name of its declaration only up to the first NUL, so two
declared names can become one symbol, and then mean the same in terms. Main statement: translation
preserves meaning, for all interpretations of the functions and all values of the constants, exactly if
no two names share a symbol that expressions can name.
-/

namespace Horn

open Element

/-! ### Expressions with a declared name at their root -/

namespace Expr

variable {Γ : Symbols} {n : String} {as : List Expr} {s : SortSpec} {u : Term} {d : Declaration}

/-- A declared name is read as its symbol, a constant like a function without arguments. -/
lemma toTerm_declared_iff (hΓ : Γ.WellFormed) (hd : Γ.find? n = some d) :
    toTerm Γ (.node n as s) = .ok u ↔ ∃ ts us, toTerms Γ as = .ok ts ∧
      d.symbol.domain.length = ts.length ∧ Term.castAll d.symbol.domain ts = .ok us ∧
      u = .app d.symbol us := by
  rcases hk : d.isFunction with _ | _
  · have hc : Γ.constant? n = some d.symbol := hΓ.constant?_eq_some_iff.mpr ⟨d, hd, hk, rfl⟩
    have hdom := (SortSpec.toSymbol_eq_ok (hΓ.made d (hΓ.find?_eq_some_iff.mp hd).1)).2 hk
    rw [hdom]
    constructor
    · intro h
      rcases toTerm_eq_ok h with ⟨c, rfl, hc', rfl⟩ | ⟨-, ts, hts, hr⟩
      · cases hc.symm.trans hc'
        exact ⟨[], [], by rw [toTerms], rfl, rfl, rfl⟩
      · rcases rootTerm_eq_ok hr with ⟨f, us, hf, -⟩ | ⟨-, hnone, -⟩
        · rw [show (Expr.node n as s).name = n from rfl] at hf
          rw [hΓ.constant?_eq_none_of_function? hf] at hc
          cases hc
        · cases hc.symm.trans hnone
    · rintro ⟨ts, us, hts, hl, hus, rfl⟩
      obtain rfl := List.length_eq_zero_iff.mp hl.symm
      cases hus
      cases as with
      | nil => exact toTerm_constant s hc
      | cons a as =>
        obtain ⟨_, _, -, -, h⟩ := toTerms_cons_eq_ok hts
        cases h
  · have hf : Γ.function? n = some d.symbol := hΓ.function?_eq_some_iff.mpr ⟨d, hd, hk, rfl⟩
    rw [toTerm_node fun _ => hΓ.constant?_eq_none_of_function? hf]
    constructor
    · intro h
      obtain ⟨ts, hts, hr⟩ := bind_eq_ok h
      rcases rootTerm_eq_ok hr with ⟨f, us, hf', hl, hus, rfl⟩ | ⟨hnone, -⟩
      · cases hf.symm.trans hf'
        exact ⟨ts, us, hts, hl, hus, rfl⟩
      · cases hf.symm.trans hnone
    · rintro ⟨ts, us, hts, hl, hus, rfl⟩
      rw [hts]
      change rootTerm Γ (.node n as s) ts = _
      rw [rootTerm_function hf hl, Term.ofSymbol, hus]
      rfl

lemma toTerm_symbol (hΓ : Γ.WellFormed) (hd : Γ.find? n = some d) (hdom : d.symbol.domain = []) :
    toTerm Γ (symbol n s) = .ok (.const d.symbol) := by
  rw [symbol, toTerm_declared_iff hΓ hd, hdom]
  exact ⟨[], [], by rw [toTerms], rfl, rfl, rfl⟩

/-- The value of a declared name is one that it stands for. -/
lemma value?_declared {I : Denotation} {ρ : Valuation} {v : Element} (hd : Γ.find? n = some d)
    (h : (Expr.node n as s).value? Γ I ρ = some v) :
    ∃ ys, v = ⟨d.symbol.range, d.meaning I ρ ys⟩ := by
  rw [value?, Option.bind_eq_bind, Option.bind_eq_some_iff] at h
  obtain ⟨xs, -, h⟩ := h
  unfold root? at h
  rw [hd] at h
  obtain ⟨ys, -, h⟩ := Option.bind_eq_some_iff.mp h
  exact ⟨ys, (Option.some.inj h).symm⟩

mutual

/-- **A part of a translated expression is one**: each name in it is the root of such a part. -/
theorem exists_node : ∀ {e : Expr} {t : Term}, toTerm Γ e = .ok t → n ∈ e.names →
    ∃ as s u, toTerm Γ (.node n as s) = .ok u ∧ ∀ m ∈ (Expr.node n as s).names, m ∈ e.names
  | .node m as s, t, h, hn => by
    rw [names] at hn
    rcases List.mem_cons.mp hn with rfl | hn
    · exact ⟨as, s, t, h, fun _ hm => hm⟩
    · rcases toTerm_eq_ok h with ⟨c, rfl, -⟩ | ⟨-, ts, hts, -⟩
      · cases hn
      · obtain ⟨bs, s', u, hu, hsub⟩ := exists_node_of_mem hts hn
        exact ⟨bs, s', u, hu, fun m hm => by rw [names]; exact .tail _ (hsub m hm)⟩

theorem exists_node_of_mem : ∀ {es : List Expr} {ts : List Term}, toTerms Γ es = .ok ts →
    n ∈ namesOfAll es →
    ∃ as s u, toTerm Γ (.node n as s) = .ok u ∧ ∀ m ∈ (Expr.node n as s).names, m ∈ namesOfAll es
  | [], _, _, hn => by cases hn
  | e :: es, ts, h, hn => by
    obtain ⟨t, us, ht, hus, -⟩ := toTerms_cons_eq_ok h
    rw [namesOfAll] at hn ⊢
    rcases List.mem_append.mp hn with hn | hn
    · obtain ⟨as, s, u, hu, hsub⟩ := exists_node_of_mem hus hn
      exact ⟨as, s, u, hu, fun m hm => List.mem_append_left _ (hsub m hm)⟩
    · obtain ⟨as, s, u, hu, hsub⟩ := exists_node ht hn
      exact ⟨as, s, u, hu, fun m hm => List.mem_append_right _ (hsub m hm)⟩

end

end Expr

/-! ### Names apart -/

namespace Symbols

/-- The declaration is named by an expression that has a term, all of whose names are admitted. -/
def Named (Γ : Symbols) (P : String → Prop) (d : Declaration) : Prop :=
  d ∈ Γ.declarations ∧ ∃ e t, (∀ n ∈ Expr.names e, P n) ∧ e.toTerm Γ = .ok t ∧ d.name ∈ e.names

/-- **No two names that expressions can name share a symbol.** -/
def Apart (Γ : Symbols) (P : String → Prop) : Prop :=
  ∀ d d', Γ.Named P d → Γ.Named P d' → d.symbol = d'.symbol → d = d'

variable {Γ : Symbols} {P : String → Prop} {d d' : Declaration}

lemma WellFormed.apart_of_whole (hΓ : Γ.WellFormed)
    (h : ∀ d ∈ Γ.declarations, '\x00' ∉ d.name.toList) : Γ.Apart P :=
  fun _ _ hd hd' => hΓ.eq_of_symbol_eq h hd.1 hd'.1

/-- A declaration that is named stands at the root of an expression, and another of the same symbol can
stand in its place. -/
lemma Named.exists_node (hΓ : Γ.WellFormed) (hd : Γ.Named P d) (hd' : Γ.Named P d')
    (hs : d.symbol = d'.symbol) : ∃ as s u, (Expr.node d.name as s).toTerm Γ = .ok u ∧
      (Expr.node d'.name as s).toTerm Γ = .ok u := by
  obtain ⟨hd, e, t, -, ht, hn⟩ := hd
  obtain ⟨as, s, u, hu, -⟩ := Expr.exists_node ht hn
  refine ⟨as, s, u, hu, ?_⟩
  rw [Expr.toTerm_declared_iff hΓ (hΓ.find?_eq_some_iff.mpr ⟨hd, rfl⟩), hs] at hu
  exact (Expr.toTerm_declared_iff hΓ (hΓ.find?_eq_some_iff.mpr ⟨hd'.1, rfl⟩)).mpr hu

end Symbols

/-- Each name has the same value of a sort, bar one, which has another. -/
def Valuation.single (n : String) : Valuation := fun m s =>
  if m = n then s.otherValue else s.someValue

/-- Each function has the same value of a sort, bar one, which has another. -/
def Denotation.single (n : String) : Denotation := ⟨fun m s _ => Valuation.single n m s, id⟩

lemma Declaration.meaning_single (d : Declaration) (n : String) (ys : List Element) :
    d.meaning (.single n) (.single n) ys = Valuation.single n d.name d.symbol.range := by
  unfold meaning
  split <;> rfl

/-- Two names that share a symbol do not stand for the same. -/
lemma Declaration.meaning_ne {d d' : Declaration} (hn : d.name ≠ d'.name) (hs : d.symbol = d'.symbol)
    (ys ys' : List Element) :
    (⟨d.symbol.range, d.meaning (.single d'.name) (.single d'.name) ys⟩ : Element) ≠
      ⟨d'.symbol.range, d'.meaning (.single d'.name) (.single d'.name) ys'⟩ := by
  rw [meaning_single, meaning_single, Valuation.single, Valuation.single, if_neg hn, if_pos rfl, hs]
  intro h
  exact d'.symbol.range.otherValue_ne (eq_of_heq (Element.mk.inj h).2).symm

open scoped Classical in
/-- **Symbols can stand for what names do**, if no two of the names share one. -/
lemma exists_represents {D : Declaration → Prop}
    (hD : ∀ d d', D d → D d' → d.symbol = d'.symbol → d = d') (I : Denotation) (ρ : Valuation) :
    ∃ J : Interpretation, J.Represents D I ρ := by
  refine ⟨⟨fun f xs => if h : ∃ d, D d ∧ d.symbol = f then h.choose_spec.2 ▸ h.choose.meaning I ρ xs
    else f.range.someValue, I.byZero⟩, fun d hd => ?_, rfl⟩
  funext xs
  have h : ∃ d', D d' ∧ d'.symbol = d.symbol := ⟨d, hd, rfl⟩
  have heq : h.choose = d := hD _ _ h.choose_spec.1 hd h.choose_spec.2
  refine (dif_pos h).trans ?_
  generalize h.choose_spec.2 = hs
  revert hs
  rw [heq]
  exact fun _ => rfl

/-! ### Closed terms -/

/-- **The symbols of the functions stand for what their names do.** -/
structure Interpretation.Interprets (J : Interpretation) (D : Declaration → Prop) (I : Denotation) :
    Prop where
  apply : ∀ d, D d → d.isFunction = true → J.apply d.symbol = I.apply d.name d.symbol.range
  byZero : J.byZero = I.byZero

/-- The values of the constants, from those of their symbols. -/
def Valuation.ofSymbols (Γ : Symbols) (σ : Assignment) : Valuation := fun n s =>
  ((Γ.find? n).bind fun d => strict s ⟨d.symbol.range, σ d.symbol⟩).getD s.someValue

section

variable {Γ : Symbols} {D : Declaration → Prop} {J : Interpretation} {I : Denotation}

lemma Interpretation.Represents.interprets {ρ : Valuation} (h : J.Represents D I ρ) :
    J.Interprets D I where
  apply d hd hk := by rw [h.apply d hd, d.meaning_function hk]
  byZero := h.byZero

section

variable (hΓ : Γ.WellFormed) (hD : ∀ d, D d → d ∈ Γ.declarations) (hc : ∀ c ∈ Γ.constants, D c)
  (hap : ∀ d d', D d → D d' → d.symbol = d'.symbol → d = d') (hJ : J.Interprets D I)
include hΓ hD hc hap hJ

/-- Symbols of constants may be assigned values without touching the functions. -/
lemma represents_assign {ρ : Valuation} {σ : Assignment}
    (hσ : ∀ d, D d → d.isFunction = false → σ d.symbol = ρ d.name d.symbol.range) :
    (J.assign Γ.free σ).Represents D I ρ where
  apply d hd := by
    rcases hk : d.isFunction with _ | _
    · have hmem : d.symbol ∈ Γ.free := List.mem_map_of_mem
        (hΓ.mem_constants_iff.mpr ⟨hΓ.find?_eq_some_iff.mpr ⟨hD d hd, rfl⟩, hk⟩)
      funext xs
      rw [Interpretation.assign_of_mem hmem, hσ d hd hk, d.meaning_constant hk]
    · have hmem : d.symbol ∉ Γ.free := by
        intro hmem
        obtain ⟨c, hcm, hs⟩ := List.mem_map.mp hmem
        rw [hap c d (hc c hcm) hd hs, hΓ.mem_constants_iff, hk] at hcm
        cases hcm.2
      rw [Interpretation.assign_of_not_mem hmem, hJ.apply d hd hk, d.meaning_function hk]
  byZero := hJ.byZero

lemma exists_assign_of_valuation (ρ : Valuation) :
    ∃ σ, (J.assign Γ.free σ).Represents D I ρ := by
  obtain ⟨K, hK⟩ := exists_represents hap I ρ
  refine ⟨fun f => K.apply f [], represents_assign hΓ hD hc hap hJ fun d hd hk => ?_⟩
  rw [hK.apply d hd, d.meaning_constant hk]

lemma exists_valuation_of_assign (σ : Assignment) :
    ∃ ρ, (J.assign Γ.free σ).Represents D I ρ := by
  refine ⟨.ofSymbols Γ σ, represents_assign hΓ hD hc hap hJ fun d hd _ => ?_⟩
  rw [Valuation.ofSymbols, hΓ.find?_eq_some_iff.mpr ⟨hD d hd, rfl⟩, Option.bind_some, strict_mk,
    Option.getD_some]

variable {e : Expr} {t : Term} (he : ∀ d ∈ Γ.declarations, d.name ∈ e.names → D d)
  (ht : e.toTerm Γ = .ok t)
include he ht

/-- **A closed rule holds if the rule holds for all constants.** -/
lemma holds_close_all_iff : (t.close .all Γ.free).Holds J ↔ ∀ ρ, e.Holds Γ I ρ := by
  rw [Term.holds_close_all fun c hc => hΓ.domain_of_mem_free hc]
  constructor
  · intro h ρ
    obtain ⟨σ, hσ⟩ := exists_assign_of_valuation hΓ hD hc hap hJ ρ
    exact (Expr.holds_toTerm hΓ hσ he ht).mp (h σ)
  · intro h σ
    obtain ⟨ρ, hρ⟩ := exists_valuation_of_assign hΓ hD hc hap hJ σ
    exact (Expr.holds_toTerm hΓ hρ he ht).mpr (h ρ)

/-- **A closed goal holds if the goal holds for some constants.** -/
lemma holds_close_any_iff : (t.close .any Γ.free).Holds J ↔ ∃ ρ, e.Holds Γ I ρ := by
  rw [Term.holds_close_any fun c hc => hΓ.domain_of_mem_free hc]
  constructor
  · rintro ⟨σ, h⟩
    obtain ⟨ρ, hρ⟩ := exists_valuation_of_assign hΓ hD hc hap hJ σ
    exact ⟨ρ, (Expr.holds_toTerm hΓ hρ he ht).mp h⟩
  · rintro ⟨ρ, h⟩
    obtain ⟨σ, hσ⟩ := exists_assign_of_valuation hΓ hD hc hap hJ ρ
    exact ⟨σ, (Expr.holds_toTerm hΓ hσ he ht).mpr h⟩

end

end

namespace Expr

open Term (Means)

/-- **Translation preserves meaning where names are apart.** Whatever has been declared, an expression
that has a term has the value of the term, if the symbols stand for what the names in it do. For every
interpretation of the functions and all values of the constants the symbols can stand for them, so that
this holds of all expressions, exactly if no two names share a symbol that expressions can name. Names
without a NUL never do. -/
theorem toTerm_preserves_value_iff (ds : List (String × SortSpec)) :
    let Γ := Symbols.empty.declareAll ds
    (∀ (J : Interpretation) (I : Denotation) (ρ : Valuation) (e : Expr) (t : Term),
      J.Represents (fun d => d ∈ Γ.declarations ∧ d.name ∈ e.names) I ρ → e.toTerm Γ = .ok t →
        ∃ v, e.value? Γ I ρ = some v ∧ Means J [] t v) ∧
    ((∀ (I : Denotation) (ρ : Valuation), ∃ J : Interpretation, ∀ (e : Expr) (t : Term),
      e.toTerm Γ = .ok t → ∃ v, e.value? Γ I ρ = some v ∧ Means J [] t v) ↔ Γ.Apart fun _ => True) ∧
    ((∀ d ∈ Γ.declarations, '\x00' ∉ d.name.toList) → Γ.Apart fun _ => True) := by
  intro Γ
  have hΓ : Γ.WellFormed := Symbols.wellFormed_empty.declareAll ds
  refine ⟨fun J I ρ e t hJ => toTerm_means hΓ hJ fun d hd hn => ⟨hd, hn⟩,
    ⟨fun h => ?_, fun h I ρ => ?_⟩, hΓ.apart_of_whole⟩
  · intro d d' hd hd' hs
    by_contra hne
    have hn : d.name ≠ d'.name := fun hn => hne (hΓ.unique hd.1 hd'.1 hn)
    obtain ⟨as, s, u, hu, hu'⟩ := hd.exists_node hΓ hd' hs
    -- both names are translated to one term, and so would have to have one value
    obtain ⟨J, hJ⟩ := h (.single d'.name) (.single d'.name)
    obtain ⟨v, he, hv⟩ := hJ _ _ hu
    obtain ⟨v', he', hv'⟩ := hJ _ _ hu'
    cases hv.value.symm.trans hv'.value
    obtain ⟨ys, rfl⟩ := value?_declared (hΓ.find?_eq_some_iff.mpr ⟨hd.1, rfl⟩) he
    obtain ⟨ys', heq⟩ := value?_declared (hΓ.find?_eq_some_iff.mpr ⟨hd'.1, rfl⟩) he'
    exact Declaration.meaning_ne hn hs ys ys' heq
  · obtain ⟨J, hJ⟩ := exists_represents h I ρ
    refine ⟨J, fun e t ht => ?_⟩
    exact toTerm_means hΓ hJ (fun d hd hn => ⟨hd, e, t, fun _ _ => trivial, ht, hn⟩) ht

/-- A sum with a Boolean on the left of a literal: the one is cast, the comparison turned round. -/
theorem toTerm_preserves_value_turned :
    let Γ := Symbols.empty.declareAll [("x", .int), ("b", .bool)]
    let e : Expr := .node "<" [.node "+" [.symbol "x" .int, .symbol "b" .bool] .int,
      .symbol "3" .int] .bool
    let t : Term := .op .gt [.int 3, .op .add [.const ⟨"x", [], .int⟩,
      (Term.const ⟨"b", [], .bool⟩).boolToInt]]
    e.toTerm Γ = .ok t ∧ ∀ I ρ, ∃ J v, e.value? Γ I ρ = some v ∧ Means J [] t v := by
  intro Γ e t
  have ht : e.toTerm Γ = .ok t := rfl
  have hapart : Γ.Apart fun _ => True := (toTerm_preserves_value_iff _).2.2 (by decide)
  refine ⟨ht, fun I ρ => ?_⟩
  obtain ⟨J, hJ⟩ := (toTerm_preserves_value_iff _).2.1.mpr hapart I ρ
  exact ⟨J, hJ e t ht⟩

/-- Two constants that share a symbol are the same in a term, and so an equation between them is true
whatever they stand for. -/
theorem equation_of_names_cut :
    let Γ := Symbols.empty.declareAll [("x\x00a", .int), ("x\x00b", .int)]
    let e : Expr := .node "=" [.symbol "x\x00a" .int, .symbol "x\x00b" .int] .bool
    let t : Term := .op .eq [.const ⟨"x", [], .int⟩, .const ⟨"x", [], .int⟩]
    e.toTerm Γ = .ok t ∧ (∀ J, t.value? J [] = some (.ofBool true)) ∧
      e.value? Γ (.single "x\x00b") (.single "x\x00b") = some (.ofBool false) := by
  intro Γ e t
  have hvalue : ∀ n, Γ.find? n = some ⟨n, .int, ⟨"x", [], .int⟩⟩ → (symbol n .int).value? Γ
      (.single "x\x00b") (.single "x\x00b") = some (.ofInt (if n = "x\x00b" then 1 else 0)) := by
    intro n hn
    refine (value?_symbol hn rfl .int).trans ?_
    rw [Declaration.meaning_single, Valuation.single]
    split <;> rfl
  refine ⟨rfl, fun J => ?_, ?_⟩
  · have hx : Means J [] (.const ⟨"x", [], .int⟩) ⟨.int, J.apply ⟨"x", [], .int⟩ []⟩ :=
      ⟨Term.value?_const rfl, rfl⟩
    rw [(Term.means_eq rfl hx hx).value]
    simp
  · have hn : Γ.find? "=" = none := rfl
    have hs : (Element.ofInt 0).sort = (Element.ofInt 1).sort := rfl
    have hne : Element.ofInt 0 ≠ Element.ofInt 1 := fun h =>
      (by decide : (0 : Int) ≠ 1) (eq_of_heq (Element.mk.inj h).2)
    rw [value?, values?, values?, values?, hvalue _ rfl, hvalue _ rfl, if_neg (by decide), if_pos rfl]
    change root? Γ (.single "x\x00b") (.single "x\x00b") "=" [.ofInt 0, .ofInt 1] = _
    rw [root?_operator hn (List.cons_ne_nil _ _) (Operator.ofName?_name .eq),
      Operator.value?_eq (meet?_of_sort_eq hs)]
    simp [hne]

end Expr

end Horn

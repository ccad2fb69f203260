import Horn.Proofs.Sorting.Translation

/-!
Arrays where integers are wanted. Of all parts that do not fit these alone are not refused as such. Main
statement: the sorts tell exactly which expressions have no term because such a part is met first.
-/

namespace Horn

lemma Term.StopsAtArray.not_fits {ds ss : List TermSort} (h : StopsAtArray ds ss) :
    ¬ List.Forall₂ TermSort.Fits ds ss := by
  induction h with
  | here =>
    intro hfits
    cases hfits with
    | cons hfit _ => simp at hfit
  | later _ _ ih =>
    intro hfits
    cases hfits with
    | cons _ hfits => exact ih hfits

lemma Operator.StopsAtArray.looseSort?_eq_none {o : Operator} {ss : List TermSort}
    (h : o.StopsAtArray ss) : o.looseSort? ss = none := by
  unfold StopsAtArray at h
  split at h
  · exact if_neg fun hfit => h.not_fits (.cons hfit .nil)
  · exact if_neg fun hfit => h.not_fits (.cons hfit.1 (.cons hfit.2 .nil))
  · cases h

lemma Operator.StopsAtArray.arity {o : Operator} {ss : List TermSort} (h : o.StopsAtArray ss) :
    o.arity = ss.length := by
  unfold StopsAtArray at h
  split at h
  · rfl
  · rfl
  · cases h

lemma Term.StopsAtArray.exists_array {ds ss : List TermSort} (h : StopsAtArray ds ss) :
    ∃ x y, .array x y ∈ ss := by
  induction h with
  | @here x y ds ss => exact ⟨x, y, by simp⟩
  | later _ _ ih =>
    obtain ⟨x, y, hmem⟩ := ih
    exact ⟨x, y, List.mem_cons_of_mem _ hmem⟩

namespace Operator

lemma StopsAtArray.exists_array {o : Operator} {ss : List TermSort} (h : o.StopsAtArray ss) :
    ∃ x y, .array x y ∈ ss := by
  unfold StopsAtArray at h
  split at h
  · exact ⟨_, _, List.mem_cons_self⟩
  · exact ⟨_, _, List.mem_cons_self⟩
  · cases h

/-- An operator gives an array only of an array. -/
lemma exists_array_of_looseSort? {o : Operator} {ss : List TermSort} {x y : TermSort}
    (h : o.looseSort? ss = some (.array x y)) : ∃ x' y', .array x' y' ∈ ss := by
  unfold looseSort? at h
  split at h
  all_goals first
    | exact ⟨_, _, List.mem_cons_self⟩
    | simp at h
    | simp only [TermSort.eq_array_of_join? h]
      exact ⟨x, y, List.mem_cons_of_mem _ List.mem_cons_self⟩

end Operator

namespace Term

variable {ts : List Term} {ss : List TermSort}

lemma castAll_stops_iff {ds : List TermSort} (hl : ds.length = ts.length)
    (hts : List.Forall₂ HasSort ts ss) :
    castAll ds ts = .error .arrayAsInt ↔ StopsAtArray ds ss :=
  (castAll_built hl hts).arrayAsInt_iff fun h _ hfits => h.not_fits hfits.2

lemma ofOperator_stops_iff {o : Operator} (hl : o.arity = ts.length)
    (hts : List.Forall₂ HasSort ts ss) :
    ofOperator o ts = .error .arrayAsInt ↔ o.StopsAtArray ss := by
  refine (ofOperator_built hl hts).arrayAsInt_iff fun h u hu => ?_
  rw [h.looseSort?_eq_none] at hu
  cases hu

end Term

namespace Expr

mutual

/-- The first part of the expression that has no term, from left to right and arguments first, applies a
function, `select` or `store` to parts with sorts and casts an array to the integers. -/
inductive StopsAtArray (Γ : Symbols) : Expr → Prop where
  | call {n : String} {es : List Expr} {a : SortSpec} {d : Declaration} {ds : List SortSpec}
    {c : SortSpec} {dom ss : List TermSort} {s : TermSort} (hd : Γ.find? n = some d)
    (hf : d.spec = .function ds c) (hdom : ds.mapM SortSpec.toTermSort = .ok dom)
    (hc : c.toTermSort = .ok s) (hes : List.Forall₂ (HasSort Γ) es ss)
    (hl : dom.length = ss.length) (h : Term.StopsAtArray dom ss) : StopsAtArray Γ (.node n es a)
  | operator {n : String} {es : List Expr} {a : SortSpec} {o : Operator} {ss : List TermSort}
    (hn : Γ.find? n = none) (ho : o.name = n)
    (hes : List.Forall₂ (HasSort Γ) es ss) (h : o.StopsAtArray ss) : StopsAtArray Γ (.node n es a)
  | argument {n : String} {es : List Expr} {a : SortSpec} (h : SomeStopsAtArray Γ es) :
    StopsAtArray Γ (.node n es a)

inductive SomeStopsAtArray (Γ : Symbols) : List Expr → Prop where
  | here {e : Expr} {es : List Expr} (h : StopsAtArray Γ e) : SomeStopsAtArray Γ (e :: es)
  | later {e : Expr} {es : List Expr} {s : TermSort} (he : HasSort Γ e s)
    (h : SomeStopsAtArray Γ es) : SomeStopsAtArray Γ (e :: es)

end

variable {Γ : Symbols} {n : String} {es : List Expr} {a : SortSpec}

lemma blame_eq_arrayAsInt_iff {e : Expr} {x : Except CastError Term} :
    blame e x = .error .arrayAsInt ↔ x = .error .arrayAsInt := by
  rcases x with (_ | _) | t
  · exact ⟨nofun, nofun⟩
  · exact ⟨fun _ => rfl, fun _ => rfl⟩
  · exact ⟨nofun, nofun⟩

lemma ofSymbol_eq_error_iff {f : Symbol} {ts : List Term} {x : CastError} :
    Term.ofSymbol f ts = .error x ↔ Term.castAll f.domain ts = .error x := by
  unfold Term.ofSymbol
  rw [bind_eq_error]
  constructor
  · rintro (h | ⟨us, -, h⟩)
    · exact h
    · cases h
  · exact .inl

lemma literalTerm_ne (n : String) : literalTerm n ≠ .error .arrayAsInt := by
  unfold literalTerm
  split
  · exact nofun
  · split
    · exact nofun
    · split <;> exact nofun

/-- How a root over terms casts an array to the integers. -/
lemma rootTerm_eq_arrayAsInt_iff {ts : List Term} :
    rootTerm Γ (.node n es a) ts = .error .arrayAsInt ↔
      (∃ f, Γ.function? n = some f ∧ f.domain.length = ts.length ∧
        Term.castAll f.domain ts = .error .arrayAsInt) ∨
      (Γ.function? n = none ∧ Γ.constant? n = none ∧ ∃ o, Operator.ofName? n = some o ∧
        o.arity = ts.length ∧ Term.ofOperator o ts = .error .arrayAsInt) := by
  constructor
  · intro h
    unfold rootTerm at h
    split at h
    · rename_i f hf
      split at h
      · rename_i hl
        rw [blame_eq_arrayAsInt_iff, ofSymbol_eq_error_iff] at h
        exact .inl ⟨f, hf, hl, h⟩
      · cases h
    · rename_i hf
      split at h
      · cases h
      · rename_i hc
        unfold undeclaredTerm at h
        split at h
        · exact absurd h (literalTerm_ne _)
        · split at h
          · cases h
          · rename_i o ho
            split at h
            · rename_i hl
              rw [blame_eq_arrayAsInt_iff] at h
              exact .inr ⟨hf, hc, o, ho, hl, h⟩
            · cases h
  · rintro (⟨f, hf, hl, h⟩ | ⟨hf, hc, o, ho, hl, h⟩)
    · rw [rootTerm_function hf hl, blame_eq_arrayAsInt_iff, ofSymbol_eq_error_iff, h]
    · rw [rootTerm_operator hf hc ho hl, blame_eq_arrayAsInt_iff, h]

mutual

/-- **Where translation stops at an array is told by the sorts.** -/
theorem toTerm_eq_arrayAsInt_iff (hΓ : Γ.WellFormed) (e : Expr) :
    e.toTerm Γ = .error .arrayAsInt ↔ e.StopsAtArray Γ := by
  match e with
  | .node n es a =>
    constructor
    · intro h
      -- a declared constant never fails, so that the root is read over the terms of the arguments
      have hleaf : es = [] → Γ.constant? n = none := by
        rintro rfl
        rcases hc : Γ.constant? n with _ | c
        · rfl
        · rw [show toTerm Γ (.node n [] a) = .ok (.const c) from toTerm_constant a hc] at h
          cases h
      rw [toTerm_node hleaf, bind_eq_error] at h
      rcases h with h | ⟨ts, hts, h⟩
      · exact .argument ((toTerms_eq_arrayAsInt_iff hΓ es).mp h)
      · obtain ⟨ss, hes, hss⟩ := toTerms_hasSort hΓ hts
        rcases rootTerm_eq_arrayAsInt_iff.mp h with ⟨f, hf, hl, h⟩ | ⟨hf, hc, o, ho, hl, h⟩
        · obtain ⟨d, ds, c, hd, hspec, hdom, hr⟩ := hΓ.function?_sorts.mp ⟨f, hf, rfl, rfl⟩
          exact .call hd hspec hdom hr hes (hl.trans hss.length_eq)
            ((Term.castAll_stops_iff hl hss).mp h)
        · exact .operator (Symbols.find?_eq_none_iff_kinds.mpr ⟨hf, hc⟩)
            (Operator.ofName?_eq_some_iff.mp ho) hes
            ((Term.ofOperator_stops_iff hl hss).mp h)
    · intro h
      cases h with
      | call hd hspec hdom hr hes hl h =>
        obtain ⟨f, hf, rfl, -⟩ := hΓ.function?_sorts.mpr ⟨_, _, _, hd, hspec, hdom, hr⟩
        obtain ⟨ts, hts, hss⟩ := exists_toTerms hΓ hes
        have hl' : f.domain.length = ts.length := hl.trans hss.length_eq.symm
        rw [toTerm_node fun _ => hΓ.constant?_eq_none_of_function? hf, bind_eq_error]
        refine .inr ⟨ts, hts, rootTerm_eq_arrayAsInt_iff.mpr (.inl ⟨f, hf, hl', ?_⟩)⟩
        exact (Term.castAll_stops_iff hl' hss).mpr h
      | @operator _ _ _ o ss hn ho hes h =>
        obtain ⟨hf, hc⟩ := Symbols.find?_eq_none_iff_kinds.mp hn
        obtain ⟨ts, hts, hss⟩ := exists_toTerms hΓ hes
        have hl : o.arity = ts.length := h.arity.trans hss.length_eq.symm
        rw [toTerm_node fun _ => hc, bind_eq_error]
        have ho := Operator.ofName?_eq_some_iff.mpr ho
        refine .inr ⟨ts, hts, rootTerm_eq_arrayAsInt_iff.mpr (.inr ⟨hf, hc, o, ho, hl, ?_⟩)⟩
        exact (Term.ofOperator_stops_iff hl hss).mpr h
      | argument h =>
        have hne : es ≠ [] := by
          rintro rfl
          cases h
        rw [toTerm_node fun hnil => absurd hnil hne, bind_eq_error]
        exact .inl ((toTerms_eq_arrayAsInt_iff hΓ es).mpr h)

theorem toTerms_eq_arrayAsInt_iff (hΓ : Γ.WellFormed) (es : List Expr) :
    toTerms Γ es = .error .arrayAsInt ↔ SomeStopsAtArray Γ es := by
  match es with
  | [] => exact ⟨fun h => (by rw [toTerms] at h; cases h), nofun⟩
  | e :: es =>
    have he := toTerm_eq_arrayAsInt_iff hΓ e
    have hes := toTerms_eq_arrayAsInt_iff hΓ es
    rw [toTerms, bind_eq_error]
    constructor
    · rintro (h | ⟨t, ht, h⟩)
      · exact .here (he.mp h)
      · obtain ⟨s, hs, -⟩ := toTerm_hasSort hΓ ht
        rcases bind_eq_error.mp h with h | ⟨us, -, h⟩
        · exact .later hs (hes.mp h)
        · cases h
    · intro h
      cases h with
      | here h => exact .inl (he.mpr h)
      | later hs h =>
        obtain ⟨t, ht, -⟩ := hs.exists_toTerm hΓ
        exact .inr ⟨t, ht, bind_eq_error.mpr (.inl (hes.mpr h))⟩

end

/-! ### Tables without arrays -/

end Expr

def Symbols.ArrayFree (Γ : Symbols) : Prop :=
  ∀ d ∈ Γ.declarations, ∀ x y, d.symbol.range ≠ .array x y

namespace Expr

variable {Γ : Symbols}

mutual

/-- Where no symbol gives an array, no expression does. -/
theorem HasSort.ne_array (hΓ : Γ.WellFormed) (hno : Γ.ArrayFree) {e : Expr} {s : TermSort} (h : e.HasSort Γ s) :
    ∀ x y, s ≠ .array x y := by
  match e with
  | .node n es a =>
    cases h with
    | constant hd hs =>
      obtain ⟨c, hc, rfl⟩ := hΓ.constant?_sort.mpr ⟨_, hd, hs⟩
      obtain ⟨d, hd, -, rfl⟩ := hΓ.constant?_eq_some_iff.mp hc
      exact hno d (hΓ.find?_eq_some_iff.mp hd).1
    | call hd hspec hdom hr hes hfits =>
      obtain ⟨f, hf, -, rfl⟩ := hΓ.function?_sorts.mpr ⟨_, _, _, hd, hspec, hdom, hr⟩
      obtain ⟨d, hd, -, rfl⟩ := hΓ.function?_eq_some_iff.mp hf
      exact hno d (hΓ.find?_eq_some_iff.mp hd).1
    | truth hn h => exact nofun
    | numeral hn hk => exact nofun
    | operator hn ho hes hs =>
      rintro x y rfl
      obtain ⟨x, y, hmem⟩ := Operator.exists_array_of_looseSort? hs
      exact hasSorts_ne_array hΓ hno hes _ hmem x y rfl

theorem hasSorts_ne_array (hΓ : Γ.WellFormed) (hno : Γ.ArrayFree) {es : List Expr}
    {ss : List TermSort} (h : List.Forall₂ (HasSort Γ) es ss) : ∀ s ∈ ss, ∀ x y, s ≠ .array x y := by
  match es with
  | [] => cases h; simp
  | e :: es =>
    cases h with
    | cons he hes =>
      rw [List.forall_mem_cons]
      exact ⟨he.ne_array hΓ hno, hasSorts_ne_array hΓ hno hes⟩

end

mutual

/-- **Where no symbol gives an array, translation does not stop at one.** -/
theorem not_stopsAtArray (hΓ : Γ.WellFormed) (hno : Γ.ArrayFree) (e : Expr) : ¬ e.StopsAtArray Γ := by
  match e with
  | .node n es a =>
    intro h
    cases h with
    | call _ _ _ _ hes _ h =>
      obtain ⟨x, y, hmem⟩ := h.exists_array
      exact hasSorts_ne_array hΓ hno hes _ hmem x y rfl
    | operator _ _ hes h =>
      obtain ⟨x, y, hmem⟩ := h.exists_array
      exact hasSorts_ne_array hΓ hno hes _ hmem x y rfl
    | argument h => exact not_someStopsAtArray hΓ hno es h

theorem not_someStopsAtArray (hΓ : Γ.WellFormed) (hno : Γ.ArrayFree) (es : List Expr) :
    ¬ SomeStopsAtArray Γ es := by
  match es with
  | [] => exact nofun
  | e :: es =>
    intro h
    cases h with
    | here h => exact not_stopsAtArray hΓ hno e h
    | later _ h => exact not_someStopsAtArray hΓ hno es h

end

lemma toFormula_eq_arrayAsInt_iff (hΓ : Γ.WellFormed) {e : Expr} :
    e.toFormula Γ = .error .arrayAsInt ↔ e.StopsAtArray Γ := by
  rw [← toTerm_eq_arrayAsInt_iff hΓ, toFormula, bind_eq_error]
  constructor
  · rintro (h | ⟨t, -, h⟩)
    · exact h
    · split at h <;> cases h
  · exact .inl

end Expr

end Horn

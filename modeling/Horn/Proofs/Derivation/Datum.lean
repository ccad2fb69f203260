import Horn.Derivation.Datum
import Horn.Proofs.Semantics.Evaluation

/-!
Integers and Booleans as values of terms. Main statement: solving a term for a value finds the valuations
under which the term has the value, and no others.
-/

namespace Horn

open Element Term

variable {J : Interpretation} {env : List Element}

namespace Datum

/-- The datum as a value. -/
def element : Datum → Element
  | .int n => .ofInt n
  | .bool b => .ofBool b

@[simp] lemma element_int (n : Int) : (int n).element = .ofInt n := rfl

@[simp] lemma element_bool (b : Bool) : (bool b).element = .ofBool b := rfl

@[simp] lemma element_sort (d : Datum) : d.element.sort = d.sort := by cases d <;> rfl

@[simp] lemma element_inj {d e : Datum} : d.element = e.element ↔ d = e := by
  constructor
  · intro h
    cases d <;> cases e <;> cases h <;> rfl
  · exact congrArg element

lemma sortsOf_map_element (ds : List Datum) : sortsOf (ds.map element) = ds.map sort := by
  rw [sortsOf, List.map_map]
  exact List.map_congr_left fun d _ => d.element_sort

lemma means_term (d : Datum) : Means J env d.term d.element := by
  cases d with
  | int n => exact means_int n
  | bool b => exact means_bool b

/-- **What an operator makes of data is its value** where it takes their sorts. -/
lemma value?_of_operate? {o : Operator} {ds : List Datum} {d : Datum} {s : TermSort} {z : Int → Int}
    (h : operate? o ds = some d) (hs : o.strictSort? (ds.map sort) = some s) :
    o.value? strict z (ds.map element) = some d.element := by
  unfold operate? at h
  split at h
  case h_1 c t f =>
    cases h
    have hsorts := Operator.strictSort?_ite hs
    simp only [List.map_cons, List.map_nil, List.cons.injEq, and_true] at hsorts
    have hmeet : t.element.meet? strict f.element = some (t.element, f.element) :=
      meet?_of_sort_eq (by rw [element_sort, element_sort, hsorts.2.1, hsorts.2.2])
    refine (Operator.value?_ite (strict_ofBool c) hmeet).trans ?_
    cases c <;> rfl
  case h_2 a =>
    cases h
    exact Operator.value?_not (strict_ofBool a)
  case h_3 a b =>
    cases h
    exact Operator.value?_onBools (o := .and) rfl (strict_ofBool a) (strict_ofBool b)
  case h_4 a b =>
    cases h
    exact Operator.value?_onBools (o := .or) rfl (strict_ofBool a) (strict_ofBool b)
  case h_5 a b =>
    cases h
    exact (Operator.value?_onBools (o := .implies) rfl (strict_ofBool a) (strict_ofBool b)).trans rfl
  case h_6 a b =>
    cases h
    have hab : a.sort = b.sort := by
      have hs : (if a.sort = b.sort then some .bool else none) = some s := hs
      by_contra hne
      rw [if_neg hne] at hs
      cases hs
    have hmeet : a.element.meet? strict b.element = some (a.element, b.element) :=
      meet?_of_sort_eq (by rw [element_sort, element_sort, hab])
    refine (Operator.value?_eq hmeet).trans ?_
    simp [beq_eq_decide]
  case h_7 a b =>
    cases h
    exact Operator.value?_onInts (o := .lt) rfl (strict_ofInt a) (strict_ofInt b)
  case h_8 a b =>
    cases h
    exact Operator.value?_onInts (o := .le) rfl (strict_ofInt a) (strict_ofInt b)
  case h_9 a b =>
    cases h
    exact Operator.value?_onInts (o := .gt) rfl (strict_ofInt a) (strict_ofInt b)
  case h_10 a b =>
    cases h
    exact Operator.value?_onInts (o := .ge) rfl (strict_ofInt a) (strict_ofInt b)
  case h_11 a b =>
    cases h
    exact Operator.value?_onInts (o := .add) rfl (strict_ofInt a) (strict_ofInt b)
  case h_12 a b =>
    cases h
    exact Operator.value?_onInts (o := .sub) rfl (strict_ofInt a) (strict_ofInt b)
  case h_13 a b =>
    cases h
    exact Operator.value?_onInts (o := .mul) rfl (strict_ofInt a) (strict_ofInt b)
  case h_14 a b =>
    split at h <;> cases h
    rename_i hb
    refine (Operator.value?_onInts (o := .div) rfl (strict_ofInt a) (strict_ofInt b)).trans ?_
    rw [if_neg hb]
    rfl
  case h_15 => cases h

namespace Valuation

/-- The variables have the values that the valuation gives them. -/
def Fits (ρ : Valuation) (env : List Element) : Prop :=
  ∀ i d, ρ.lookup i = some d → env[i]? = some d.element

/-- The values are of the sorts of the variables. -/
def IsSorted (ρ : Valuation) (Δ : List TermSort) : Prop :=
  ∀ i d, ρ.lookup i = some d → Δ[i]? = some d.sort

variable {ρ : Valuation} {Δ : List TermSort} {i : Nat} {d : Datum}

lemma lookup_cons (ρ : Valuation) (i j : Nat) (d : Datum) :
    List.lookup j ((i, d) :: ρ) = if j = i then some d else ρ.lookup j := by
  by_cases h : j = i
  · simp [h]
  · have hbeq : (j == i) = false := by simpa using h
    rw [List.lookup_cons, hbeq, if_neg h]

lemma fits_nil (env : List Element) : Fits [] env := nofun

lemma isSorted_nil (Δ : List TermSort) : IsSorted [] Δ := nofun

/-- A variable that had no value is given one. -/
lemma fits_cons_iff (h : ρ.lookup i = none) :
    Fits ((i, d) :: ρ) env ↔ ρ.Fits env ∧ env[i]? = some d.element := by
  constructor
  · intro hfits
    refine ⟨fun j e he => hfits j e ?_, hfits i d (by rw [lookup_cons, if_pos rfl])⟩
    rw [lookup_cons, if_neg (by rintro rfl; rw [h] at he; cases he), he]
  · rintro ⟨hfits, hi⟩ j e he
    rw [lookup_cons] at he
    split at he
    · rename_i hji
      cases he
      rw [hji, hi]
    · exact hfits j e he

lemma IsSorted.cons (h : ρ.IsSorted Δ) (hi : Δ[i]? = some d.sort) : IsSorted ((i, d) :: ρ) Δ := by
  intro j e he
  rw [lookup_cons] at he
  split at he
  · rename_i hji
    cases he
    rw [hji, hi]
  · exact h j e he

/-- **Some variables have the values of a valuation** that gives them values of their sorts. -/
lemma IsSorted.exists_fits (h : ρ.IsSorted Δ) : ∃ env, sortsOf env = Δ ∧ ρ.Fits env := by
  refine ⟨Δ.mapIdx fun i s => ((ρ.lookup i).map element).getD ⟨s, s.someValue⟩, ?_, ?_⟩
  · refine List.ext_getElem? fun i => ?_
    rw [List.getElem?_map, List.getElem?_mapIdx]
    rcases hs : Δ[i]? with _ | s
    · rfl
    · rcases hd : ρ.lookup i with _ | d
      · simp
      · have hsort := h i d hd
        rw [hs] at hsort
        simp [← hsort]
  · intro i d hd
    rw [List.getElem?_mapIdx, h i d hd]
    simp [hd]

end Valuation

end Datum

namespace Term

/-! ### Data of terms -/

mutual

/-- **The datum of a term is its value**, where the variables have the values of the valuation. -/
theorem HasSort.means_of_datum? {t : Term} {s : TermSort} {ρ : Datum.Valuation} {d : Datum}
    (ht : t.HasSort s) (hscoped : t.isScoped (sortsOf env) = true) (hρ : ρ.Fits env)
    (h : t.datum? ρ = some d) : Means J env t d.element := by
  match t with
  | .bool b => rw [datum?] at h; cases h; exact means_bool b
  | .int n => rw [datum?] at h; cases h; exact means_int n
  | .var i r =>
    rw [datum?] at h
    have hi := hρ i d h
    rw [isScoped, beq_iff_eq, List.getElem?_map, hi] at hscoped
    cases hscoped
    exact means_var hi
  | .app f ts => rw [datum?] at h; cases h
  | .quant q bs u => rw [datum?] at h; cases h
  | .op o ts =>
    cases ht with
    | op hts hs =>
      rw [datum?] at h
      obtain ⟨ds, hds, hd⟩ := Option.bind_eq_some_iff.mp h
      have hmeans := means_of_data? hts hscoped hρ hds
      have hsorts : ts.map sort = ds.map Datum.sort := by
        rw [← sortsOf_of_means hmeans, Datum.sortsOf_map_element]
      rw [← map_sort_of_hasSort hts] at hs
      have hv : o.value? strict J.byZero (ds.map Datum.element) = some d.element :=
        Datum.value?_of_operate? hd (hsorts ▸ hs)
      have hs' : o.strictSort? (sortsOf (ds.map Datum.element)) = some s := by
        rw [Datum.sortsOf_map_element, ← hsorts, hs]
      obtain ⟨v, hv', hsort⟩ := Operator.exists_value? (z := J.byZero) hs'
      cases hv.symm.trans hv'
      exact .op hmeans hv (by rw [hsort, Operator.sort_of_strictSort? hs])

theorem means_of_data? {ts : List Term} {ss : List TermSort} {ρ : Datum.Valuation} {ds : List Datum}
    (hts : List.Forall₂ HasSort ts ss) (hscoped : areScoped (sortsOf env) ts = true)
    (hρ : ρ.Fits env) (h : data? ρ ts = some ds) :
    List.Forall₂ (Means J env) ts (ds.map Datum.element) := by
  match ts with
  | [] => rw [data?] at h; cases h; exact .nil
  | t :: ts =>
    cases hts with
    | cons ht hts =>
      rw [areScoped, Bool.and_eq_true] at hscoped
      rw [data?] at h
      obtain ⟨d, hd, h⟩ := Option.bind_eq_some_iff.mp h
      obtain ⟨es, hes, rfl⟩ := Option.map_eq_some_iff.mp h
      exact .cons (ht.means_of_datum? hscoped.1 hρ hd) (means_of_data? hts hscoped.2 hρ hes)

end

/-- The datum of a term is its value. -/
lemma Evaluates.eq_of_datum? {t : Term} {x : Element} {ρ : Datum.Valuation} {d : Datum}
    (h : Evaluates J env t x) (hρ : ρ.Fits env) (hd : t.datum? ρ = some d) : x = d.element :=
  h.means.unique (h.hasSort.means_of_datum? h.isScoped hρ hd)

/-! ### Solving -/

/-- What is solved for is of the sort of the term. -/
lemma solve?_isSorted {ρ : Datum.Valuation} {v : Datum} {t : Term} {ρs : List Datum.Valuation}
    {Δ : List TermSort} (h : t.solve? ρ v = some ρs) (hscoped : t.isScoped Δ = true)
    (hρ : ρ.IsSorted Δ) : ∀ ρ' ∈ ρs, ρ'.IsSorted Δ := by
  fun_induction solve? ρ v t generalizing ρs with
  | case1 t v w hw =>
    cases h
    split
    · simpa using hρ
    · simp
  | case2 i r v hv =>
    cases h
    rw [isScoped, beq_iff_eq] at hscoped
    split
    · rename_i hr
      simpa using hρ.cons (hscoped.trans (congrArg some hr.symm))
    · simp
  | case3 a p hv ih => exact ih h (isScoped_one.mp hscoped)
  | case4 a n hn hv ih => exact ih h (isScoped_three.mp hscoped).1
  | case5 => cases h; simp
  | case6 a b n m hb ha hv ih | case9 a b n m hb ha hv ih | case12 a b w hb ha hv ih =>
    exact ih h (isScoped_two.mp hscoped).2
  | case7 a b n m hb ha hv ih | case10 a b n m hb ha hv ih | case13 a b w hb ha hv ih =>
    exact ih h (isScoped_two.mp hscoped).1
  | case8 | case11 | case14 | case15 => cases h

/-- **Solving finds the valuations under which the term has the value**, and no others. -/
lemma Evaluates.solve?_iff {ρ : Datum.Valuation} {v : Datum} {t : Term} {x : Element}
    {ρs : List Datum.Valuation} (hx : Evaluates J env t x) (h : t.solve? ρ v = some ρs) :
    (∃ ρ' ∈ ρs, ρ'.Fits env) ↔ ρ.Fits env ∧ x = v.element := by
  fun_induction solve? ρ v t generalizing ρs x with
  | case1 t v w hw =>
    cases h
    have hiff : ρ.Fits env → (x = v.element ↔ w = v) := by
      intro hρ
      rw [hx.eq_of_datum? hρ hw, Datum.element_inj]
    by_cases hwv : w = v
    · simp only [if_pos hwv, List.mem_singleton, exists_eq_left]
      exact (and_iff_left_of_imp fun hρ => (hiff hρ).mpr hwv).symm
    · simp only [if_neg hwv, List.not_mem_nil, false_and, exists_false, false_iff]
      exact fun h => hwv ((hiff h.1).mp h.2)
  | case2 i r v hv =>
    cases h
    rw [datum?] at hv
    have hr : x.sort = r := hx.means.sort
    split
    · rw [← Option.some_inj, ← hx.var, ← Datum.Valuation.fits_cons_iff hv]
      simp
    · rename_i hvr
      simp only [List.not_mem_nil, false_and, exists_false, false_iff, not_and]
      rintro - rfl
      exact hvr ((Datum.element_sort v).symm.trans hr)
  | case3 a p hv ih =>
    obtain ⟨q, hq, rfl⟩ := hx.not
    rw [ih hq h, Datum.element_bool, Datum.element_bool, ofBool_inj, ofBool_inj]
    cases p <;> cases q <;> simp
  | case4 c n hn hv ih =>
    obtain ⟨q, hq, rfl⟩ := hx.boolToInt
    rw [ih hq h, Datum.element_bool, Datum.element_int, ofBool_inj, ofInt_inj]
    refine and_congr_right fun _ => ?_
    rcases hn with rfl | rfl <;> cases q <;> simp
  | case5 c n hn hv =>
    cases h
    obtain ⟨q, hq, rfl⟩ := hx.boolToInt
    rw [Datum.element_int, ofInt_inj]
    simp only [List.not_mem_nil, false_and, exists_false, false_iff, not_and]
    rintro - rfl
    exact hn (by cases q <;> simp)
  | case6 a b n m hb ha hv ih | case9 a b n m hb ha hv ih =>
    obtain ⟨k, l, hk, hl, rfl⟩ := hx.onInts rfl
    rw [ih hl h]
    refine and_congr_right fun hρ => ?_
    have hkm := hk.eq_of_datum? hρ ha
    simp only [Datum.element_int, ofInt_inj] at hkm ⊢
    omega
  | case7 a b n m hb ha hv ih | case10 a b n m hb ha hv ih =>
    obtain ⟨k, l, hk, hl, rfl⟩ := hx.onInts rfl
    rw [ih hk h]
    refine and_congr_right fun hρ => ?_
    have hlm := hl.eq_of_datum? hρ hb
    simp only [Datum.element_int, ofInt_inj] at hlm ⊢
    omega
  | case12 a b w hb ha hv ih =>
    obtain ⟨y, z, p, hy, hz, rfl, hp⟩ := hx.eq
    rw [ih hz h, Datum.element_bool, ofBool_inj, hp]
    refine and_congr_right fun hρ => ?_
    rw [hy.eq_of_datum? hρ ha, eq_comm]
  | case13 a b w hb ha hv ih =>
    obtain ⟨y, z, p, hy, hz, rfl, hp⟩ := hx.eq
    rw [ih hy h, Datum.element_bool, ofBool_inj, hp]
    refine and_congr_right fun hρ => ?_
    rw [hz.eq_of_datum? hρ hb]
  | case8 | case11 | case14 | case15 => cases h

/-- Solving a formula for its truth. -/
lemma IsFormula.solve?_iff {ρ : Datum.Valuation} {t : Term} {ρs : List Datum.Valuation}
    (ht : t.IsFormula (sortsOf env)) (h : t.solve? ρ (.bool true) = some ρs) :
    (∃ ρ' ∈ ρs, ρ'.Fits env) ↔ ρ.Fits env ∧ Means J env t (.ofBool true) := by
  obtain ⟨p, hp⟩ := Evaluates.of_bool (J := J) ht.hasSort ht.isScoped
  rw [hp.solve?_iff h, hp.means.iff_eq, Datum.element_bool]

end Term

end Horn

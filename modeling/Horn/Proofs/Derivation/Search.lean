import Horn.Derivation.Saturation
import Horn.Proofs.Derivation.Clause

/-!
Searching for solutions of cases. Main statements: what a search finds solves the case, from facts that
hold; and a search that finds everything finds all values of variables that solve it.
-/

namespace Horn

open Element Term

variable {J : Interpretation} {env : List Element} {Δ : List TermSort}

namespace Found

variable {α β : Type} {g : α → Found β} {xs : List α} {b : β}

@[simp] lemma mem_union_map : b ∈ (union (xs.map g)).results ↔ ∃ x ∈ xs, b ∈ (g x).results := by
  simp [union]

@[simp] lemma complete_union_map :
    (union (xs.map g)).complete = true ↔ ∀ x ∈ xs, (g x).complete = true := by
  simp [union]

end Found

/-! ### Facts -/

namespace Fact

def Holds (φ : Fact) (J : Interpretation) : Prop := φ.term.Holds J

end Fact

lemma sortsOf_of_readAll?_strict {ss : List TermSort} {xs ys : List Element}
    (h : readAll? strict ss xs = some ys) : sortsOf xs = ss := by
  induction ss generalizing xs ys with
  | nil =>
    cases xs with
    | nil => rfl
    | cons => cases h
  | cons s ss ih =>
    cases xs with
    | nil => cases h
    | cons x xs =>
      rw [readAll?, Option.bind_eq_bind, Option.bind_eq_some_iff] at h
      obtain ⟨v, hv, h⟩ := h
      obtain ⟨vs, hvs, -⟩ := Option.bind_eq_some_iff.mp h
      have hs : x.sort = s := by
        unfold strict at hv
        split at hv
        · assumption
        · cases hv
      rw [sortsOf, List.map_cons, ← sortsOf, ih hvs, hs]

lemma forall₂_means_term (ds : List Datum) :
    List.Forall₂ (Means J env) (ds.map Datum.term) (ds.map Datum.element) := by
  induction ds with
  | nil => exact .nil
  | cons d ds ih => exact .cons d.means_term ih

namespace Fact

variable {φ : Fact}

/-- The data of a fact that holds are of the sorts of its relation. -/
lemma Holds.sorts (h : φ.Holds J) : φ.args.map Datum.sort = φ.relation.domain := by
  unfold Holds Term.Holds term at h
  rw [value?, values?_of_forall₂ (forall₂_means_term φ.args), Option.bind_eq_bind, Option.bind_some]
    at h
  obtain ⟨ys, hys, -⟩ := Option.bind_eq_some_iff.mp h
  rw [← Datum.sortsOf_map_element]
  exact sortsOf_of_readAll?_strict hys

/-- A relation holds of terms that have the values of a fact if the fact holds. -/
lemma means_iff {as : List Term} (hform : (Term.app φ.relation as).IsFormula Δ)
    (h : List.Forall₂ (Means J env) as (φ.args.map Datum.element)) :
    Means J env (.app φ.relation as) (.ofBool true) ↔ φ.Holds J := by
  rw [hform.means_iff, Holds, Term.Holds, term, value?, value?, values?_of_forall₂ h,
    values?_of_forall₂ (forall₂_means_term φ.args)]

end Fact

/-- The fact says that a relation holds of the terms. -/
def Fact.Meets (φ : Fact) (f : Symbol) (as : List Term) (J : Interpretation) (env : List Element) :
    Prop :=
  φ.relation = f ∧ List.Forall₂ (Means J env) as (φ.args.map Datum.element)

/-- The interpretation in which relations hold of what the facts say. -/
noncomputable def Interpretation.ofFacts (φs : List Fact) : Interpretation :=
  .ofRelations fun f xs => ∃ φ ∈ φs, φ.relation = f ∧ φ.args.map Datum.element = xs

namespace Term

variable {φs : List Fact} {env : List Element} {f : Symbol} {as : List Term}

lemma means_ofFacts_iff (h : (Term.app f as).IsFormula (sortsOf env)) :
    Means (.ofFacts φs) env (.app f as) (.ofBool true) ↔
      ∃ φ ∈ φs, φ.Meets f as (.ofFacts φs) env := by
  obtain ⟨-, has, hscoped⟩ := h.args
  obtain ⟨xs, hxs⟩ := exists_means_all (J := .ofFacts φs) has hscoped
  refine (means_ofRelations_iff h hxs).trans (exists_congr fun φ => and_congr_right fun _ => ?_)
  refine and_congr_right fun _ => ?_
  constructor
  · rintro rfl
    exact hxs
  · exact fun h => Option.some.inj ((values?_of_forall₂ h).symm.trans (values?_of_forall₂ hxs))

end Term

/-! ### Literals of a case -/

namespace Literal

@[simp] lemma formula_fact (f : Symbol) (as : List Term) : (fact f as).formula = .app f as := rfl

@[simp] lemma formula_test (t : Term) : (test t).formula = t := rfl

end Literal

namespace Pending

variable {ρ : Datum.Valuation} {ρs : List Datum.Valuation} {ls rest : Case} {f : Symbol}
  {as : List Term} {ds : List Datum}

lemma perm_of_test? (h : test? ρ ls = some (ρs, rest)) :
    ∃ t, t.solve? ρ (.bool true) = some ρs ∧ ls.Perm (.test t :: rest) := by
  fun_induction test? ρ ls generalizing rest with
  | case1 => cases h
  | case2 t ls σs hs =>
    cases h
    exact ⟨t, hs, .refl _⟩
  | case3 t ls hs ih =>
    obtain ⟨⟨σs, us⟩, hus, heq⟩ := Option.map_eq_some_iff.mp h
    cases heq
    obtain ⟨u, hu, hperm⟩ := ih hus
    exact ⟨u, hu, (hperm.cons _).trans (.swap _ _ _)⟩
  | case4 l ls hl ih =>
    obtain ⟨⟨σs, us⟩, hus, heq⟩ := Option.map_eq_some_iff.mp h
    cases heq
    obtain ⟨u, hu, hperm⟩ := ih hus
    exact ⟨u, hu, (hperm.cons _).trans (.swap _ _ _)⟩

lemma perm_of_fact? (h : fact? ls = some ((f, as), rest)) : ls.Perm (.fact f as :: rest) := by
  fun_induction fact? ls generalizing rest with
  | case1 => cases h
  | case2 g bs ls =>
    cases h
    exact .refl _
  | case3 l ls hl ih =>
    obtain ⟨⟨a, us⟩, hus, heq⟩ := Option.map_eq_some_iff.mp h
    cases heq
    exact ((ih hus).cons _).trans (.swap _ _ _)

end Pending

/-- The order of literals does not matter. -/
lemma Case.forall_congr {P : Literal → Prop} {c d : Case} (h : c.Perm d) :
    (∀ l ∈ c, P l) ↔ ∀ l ∈ d, P l :=
  forall_congr' fun l => by rw [h.mem_iff]

/-! ### Values of variables -/

namespace Term

mutual

/-- An index carries the sort of its variable. -/
theorem getElem?_of_mem_vars {t : Term} {v : Nat × TermSort} (hv : v ∈ t.vars)
    (ht : t.isScoped Δ = true) : Δ[v.1]? = some v.2 := by
  match t with
  | .bool _ | .int _ | .quant _ _ _ => rw [vars] at hv; cases hv; all_goals nofun
  | .var i s =>
    rw [vars, List.mem_singleton] at hv
    rw [isScoped, beq_iff_eq] at ht
    rw [hv, ht]
  | .app _ ts | .op _ ts =>
    rw [vars] at hv
    rw [isScoped] at ht
    exact getElem?_of_mem_varsOfAll hv ht

theorem getElem?_of_mem_varsOfAll {ts : List Term} {v : Nat × TermSort} (hv : v ∈ varsOfAll ts)
    (hts : areScoped Δ ts = true) : Δ[v.1]? = some v.2 := by
  match ts with
  | [] => rw [varsOfAll] at hv; cases hv
  | t :: ts =>
    rw [varsOfAll, List.mem_append] at hv
    rw [areScoped, Bool.and_eq_true] at hts
    rcases hv with hv | hv
    · exact getElem?_of_mem_vars hv hts.1
    · exact getElem?_of_mem_varsOfAll hv hts.2

end

end Term

namespace Pending

variable {ρ : Datum.Valuation} {ls : Case} {as : List Term} {ds : List Datum} {v : Nat × TermSort}

lemma unbound?_eq_some (h : unbound? ρ ls = some v) (hls : Case.IsFormula Δ ls) :
    ρ.lookup v.1 = none ∧ Δ[v.1]? = some v.2 := by
  refine ⟨by simpa using List.find?_some h, ?_⟩
  obtain ⟨l, hl, hv⟩ := List.mem_flatMap.mp (List.mem_of_find?_eq_some h)
  have hscoped := (hls l hl).isScoped
  cases l with
  | fact f as => exact getElem?_of_mem_varsOfAll hv (by rwa [Literal.formula, isScoped] at hscoped)
  | test t => exact getElem?_of_mem_varsOfAll hv (by simpa [Literal.terms, areScoped] using hscoped)

section

variable (hsorts : List.Forall₂ HasSort as (ds.map Datum.sort))
include hsorts

lemma equations_isFormula (hscoped : areScoped Δ as = true) :
    Case.IsFormula Δ (equations as ds) := by
  induction as generalizing ds with
  | nil =>
    obtain rfl : ds = [] := List.map_eq_nil_iff.mp (List.forall₂_nil_left_iff.mp hsorts)
    exact fun _ => nofun
  | cons a as ih =>
    obtain ⟨s, ss, ha, has, hds⟩ := List.forall₂_cons_left_iff.mp hsorts
    obtain ⟨d, ds, rfl, rfl, rfl⟩ := List.map_eq_cons_iff.mp hds
    rw [areScoped, Bool.and_eq_true] at hscoped
    have hd : d.term.HasSort d.sort := by cases d <;> constructor
    have hdscoped : d.term.isScoped Δ = true := by cases d <;> rfl
    refine List.forall_mem_cons.mpr ⟨⟨.op (.cons ha (.cons hd .nil)) ?_, ?_⟩, ih has hscoped.2⟩
    · simp [Operator.strictSort?]
    · simp [isScoped, areScoped, hscoped.1, hdscoped]

/-- Terms meet data if all equations hold. -/
lemma equations_holds_iff (hscoped : areScoped (sortsOf env) as = true) :
    Case.Holds (equations as ds) J env ↔ List.Forall₂ (Means J env) as (ds.map Datum.element) := by
  induction as generalizing ds with
  | nil =>
    obtain rfl : ds = [] := List.map_eq_nil_iff.mp (List.forall₂_nil_left_iff.mp hsorts)
    simp [equations, Case.Holds]
  | cons a as ih =>
    obtain ⟨s, ss, ha, has, hds⟩ := List.forall₂_cons_left_iff.mp hsorts
    obtain ⟨d, ds, rfl, rfl, rfl⟩ := List.map_eq_cons_iff.mp hds
    rw [areScoped, Bool.and_eq_true] at hscoped
    obtain ⟨x, hx⟩ := ha.exists_means (J := J) hscoped.1
    rw [List.map_cons, List.forall₂_cons, ← ih has hscoped.2]
    refine List.forall_mem_cons.trans (and_congr_left' ?_)
    rw [Literal.Holds, Literal.formula, means_eq_true_iff hx d.means_term
      (by rw [hx.sort, ha.sort_eq, Datum.element_sort]), hx.iff_eq]

end

/-! ### What a search finds -/

/-- All literals that are left to be met. -/
def all (p : Pending) : Case := (p.fresh.toList.map fun a => .fact a.1 a.2) ++ p.literals

@[simp] lemma all_none (ls : Case) : all ⟨none, ls⟩ = ls := rfl

@[simp] lemma all_some (a : Symbol × List Term) (ls : Case) :
    all ⟨some a, ls⟩ = .fact a.1 a.2 :: ls := rfl

end Pending

/-- The facts of a base, new ones too, are of the sorts of their relations, and end their proofs. -/
structure Base.IsSound (B : Base) : Prop where
  sorts : ∀ d, d ∈ B.known ∨ d ∈ B.fresh → d.fact.args.map Datum.sort = d.fact.relation.domain
  proof : ∀ d, d ∈ B.known ∨ d ∈ B.fresh → d.fact ∈ d.proof

namespace Pending

/-- **How a solution is found**: a test is solved, a literal about a relation is met by a fact of the base,
or a variable is given a value, until nothing is left. -/
inductive Leads (B : Base) : Pending → Solution → Solution → Prop where
  | done {s : Solution} : Leads B ⟨none, []⟩ s s
  | test {t : Term} {ls rest : Case} {ρs : List Datum.Valuation} {ρ : Datum.Valuation}
      {s r : Solution} (ht : t.solve? s.valuation (.bool true) = some ρs) (hρ : ρ ∈ ρs)
      (hls : ls.Perm (.test t :: rest)) (h : Leads B ⟨none, rest⟩ { s with valuation := ρ } r) :
      Leads B ⟨none, ls⟩ s r
  | met {p : Pending} {as : List Term} {rest : Case} {d : Derived} {s r : Solution}
      (hd : d ∈ B.known ∨ d ∈ B.fresh) (hp : p.all.Perm (.fact d.fact.relation as :: rest))
      (h : Leads B ⟨none, equations as d.fact.args ++ rest⟩ ⟨s.valuation, join s.proof d.proof⟩ r) :
      Leads B p s r
  | value {p : Pending} {i : Nat} {d : Datum} {s r : Solution}
      (hi : unbound? s.valuation p.literals = some (i, d.sort))
      (h : Leads B p { s with valuation := (i, d) :: s.valuation } r) : Leads B p s r

variable {B : Base} {p : Pending} {s r : Solution} {n : Nat}

lemma leads_of_mem_search (h : r ∈ (search B n p s).results) : Leads B p s r := by
  induction n generalizing p s with
  | zero => cases h
  | succ n ih =>
    obtain ⟨fresh, ls⟩ := p
    unfold search at h
    simp only at h
    split at h
    case h_1 a =>
      obtain ⟨d, hd, hr⟩ := Found.mem_union_map.mp h
      obtain ⟨hd, ha⟩ := List.mem_filter.mp hd
      exact .met (.inr hd) (by rw [beq_iff_eq.mp ha]; exact .refl _) (ih hr)
    case h_2 _ ρs rest hf =>
      obtain ⟨t, ht, hls⟩ := perm_of_test? hf
      obtain ⟨ρ, hρ, hr⟩ := Found.mem_union_map.mp h
      exact .test ht hρ hls (ih hr)
    case h_3 a rest ht hf =>
      obtain ⟨d, hd, hr⟩ := Found.mem_union_map.mp h
      obtain ⟨hd, ha⟩ := List.mem_filter.mp hd
      exact .met (.inl hd) (by rw [beq_iff_eq.mp ha]; exact perm_of_fact? hf) (ih hr)
    case h_4 =>
      split at h
      case h_1 i hu =>
        obtain ⟨d, hd, hr⟩ := Found.mem_union_map.mp h
        have hsort : d.sort = .bool := by
          rcases List.mem_pair.mp hd with rfl | rfl <;> rfl
        exact .value (hsort ▸ hu) (ih hr)
      case h_2 i hu =>
        obtain ⟨d, hd, hr⟩ := Found.mem_union_map.mp h
        obtain ⟨m, -, rfl⟩ := List.mem_map.mp hd
        exact .value hu (ih hr)
      case h_3 => cases h
      case h_4 =>
        split at h
        · rename_i hls
          obtain rfl := List.isEmpty_iff.mp hls
          obtain rfl := List.mem_singleton.mp h
          exact .done
        · cases h

lemma Leads.proof_subset (h : Leads B p s r) : s.proof ⊆ r.proof := by
  induction h with
  | done => exact List.Subset.refl _
  | test _ _ _ _ ih => exact ih
  | met _ _ _ ih => exact List.Subset.trans (List.subset_append_left _ _) ih
  | value _ _ ih => exact ih

lemma mem_join {ps qs : List Fact} {φ : Fact} : φ ∈ join ps qs ↔ φ ∈ ps ∨ φ ∈ qs := by
  by_cases hφ : φ ∈ ps <;> simp [join, hφ]

/-- **What is found solves the case**: the values are of the sorts of their variables, and wherever the
variables have them and the facts used hold, all literals hold. -/
theorem Leads.sound (h : Leads B p s r) (hB : B.IsSound) (hp : Case.IsFormula Δ p.all)
    (hs : s.valuation.IsSorted Δ) : r.valuation.IsSorted Δ ∧
      ∀ J env, sortsOf env = Δ → (∀ φ ∈ r.proof, φ.Holds J) → r.valuation.Fits env →
        s.valuation.Fits env ∧ Case.Holds p.all J env := by
  induction h with
  | done => exact ⟨hs, fun J env _ _ hfits => ⟨hfits, by simp [all, Case.Holds]⟩⟩
  | @test t ls rest ρs ρ s r ht hρ hls h ih =>
    obtain ⟨hform, hrest⟩ := List.forall_mem_cons.mp ((Case.forall_congr hls).mp hp)
    obtain ⟨hsorted, hsound⟩ := ih hrest (solve?_isSorted ht hform.isScoped hs ρ hρ)
    refine ⟨hsorted, fun J env henv hproof hfits => ?_⟩
    obtain ⟨hfits, hholds⟩ := hsound J env henv hproof hfits
    rw [← henv] at hform
    obtain ⟨hfits, hmeans⟩ := (hform.solve?_iff ht).mp ⟨ρ, hρ, hfits⟩
    exact ⟨hfits, (Case.forall_congr hls).mpr (List.forall_mem_cons.mpr ⟨hmeans, hholds⟩)⟩
  | @met p as rest d s r hd hperm h ih =>
    obtain ⟨happ, hrest⟩ := List.forall_mem_cons.mp ((Case.forall_congr hperm).mp hp)
    obtain ⟨-, has, hscoped⟩ := happ.args
    rw [← hB.sorts d hd] at has
    have hform : Case.IsFormula Δ (equations as d.fact.args ++ rest) :=
      List.forall_mem_append.mpr ⟨equations_isFormula has hscoped, hrest⟩
    obtain ⟨hsorted, hsound⟩ := ih hform hs
    refine ⟨hsorted, fun J env henv hproof hfits => ?_⟩
    obtain ⟨hfits, hholds⟩ := hsound J env henv hproof hfits
    rw [all_none] at hholds
    obtain ⟨hmeets, hholds⟩ := List.forall_mem_append.mp hholds
    rw [← henv] at hscoped
    have hfact : d.fact.Holds J :=
      hproof _ (h.proof_subset (mem_join.mpr (.inr (hB.proof d hd))))
    have hmeans := (Fact.means_iff happ ((equations_holds_iff has hscoped).mp hmeets)).mpr hfact
    exact ⟨hfits, (Case.forall_congr hperm).mpr (List.forall_mem_cons.mpr ⟨hmeans, hholds⟩)⟩
  | @value p i d s r hi h ih =>
    obtain ⟨hnone, hsome⟩ := unbound?_eq_some hi fun l hl => hp l (List.mem_append_right _ hl)
    obtain ⟨hsorted, hsound⟩ := ih hp (hs.cons hsome)
    refine ⟨hsorted, fun J env henv hproof hfits => ?_⟩
    obtain ⟨hfits, hholds⟩ := hsound J env henv hproof hfits
    exact ⟨((Datum.Valuation.fits_cons_iff hnone).mp hfits).1, hholds⟩

end Pending

/-! ### Searches that find everything -/

/-- A search does not miss values of the variables unless it says so. -/
def Found.Answers (f : Found Solution) (env : List Element) : Prop :=
  f.complete = true → ∃ r ∈ f.results, r.valuation.Fits env

lemma Found.answers_union_map {α : Type} {g : α → Found Solution} {xs : List α} {x : α}
    (hx : x ∈ xs) (h : (g x).Answers env) : (union (xs.map g)).Answers env := by
  intro hc
  obtain ⟨r, hr, hfits⟩ := h (complete_union_map.mp hc x hx)
  exact ⟨r, mem_union_map.mpr ⟨x, hx, hr⟩, hfits⟩

/-- The literal holds if relations hold of what the facts say. -/
def Literal.MetBy (ds : List Derived) (J : Interpretation) (env : List Element) : Literal → Prop
  | .fact f as => ∃ d ∈ ds, d.fact.Meets f as J env
  | .test t => Means J env t (.ofBool true)

/-- All literals hold if relations hold of what the facts say. -/
def Case.MetBy (ds : List Derived) (J : Interpretation) (env : List Element) (c : Case) : Prop :=
  ∀ l ∈ c, l.MetBy ds J env

namespace Pending

variable {es : List Derived} {f : Symbol} {as : List Term} {d : Derived} {rest : Case}

/-- Equations do not ask for facts. -/
lemma equations_metBy_iff {ds : List Datum} :
    Case.MetBy es J env (equations as ds) ↔ Case.Holds (equations as ds) J env := by
  refine forall₂_congr fun l hl => ?_
  obtain ⟨a, d, rfl⟩ : ∃ a d, l = .test (.op .eq [a, Datum.term d]) := by
    rw [equations, List.mem_iff_getElem] at hl
    obtain ⟨i, hi, rfl⟩ := hl
    exact ⟨_, _, List.getElem_zipWith⟩
  rfl

/-- The equations of a literal hold with a fact that meets it. -/
lemma equations_of_meets (hm : d.fact.Meets f as J env)
    (hd : d.fact.args.map Datum.sort = d.fact.relation.domain)
    (hform : Case.IsFormula (sortsOf env) (.fact f as :: rest)) (hrest : Case.MetBy es J env rest) :
    Case.IsFormula (sortsOf env) (equations as d.fact.args ++ rest) ∧
      Case.MetBy es J env (equations as d.fact.args ++ rest) := by
  obtain ⟨rfl, hmeans⟩ := hm
  obtain ⟨happ, hform⟩ := List.forall_mem_cons.mp hform
  obtain ⟨-, has, hscoped⟩ := happ.args
  rw [← hd] at has
  exact ⟨List.forall_mem_append.mpr ⟨equations_isFormula has hscoped, hform⟩, List.forall_mem_append.mpr
    ⟨equations_metBy_iff.mpr ((equations_holds_iff has hscoped).mpr hmeans), hrest⟩⟩

/-- **A search that finds everything** finds all values of the variables under which known facts meet the
literals and a new one meets the literal that asks for it. -/
theorem search_answers (hB : B.IsSound) (hp : Case.IsFormula (sortsOf env) p.all)
    (hfresh : ∀ a ∈ p.fresh, ∃ d ∈ B.fresh, d.fact.Meets a.1 a.2 J env)
    (hls : Case.MetBy B.known J env p.literals) (hs : s.valuation.Fits env) :
    (search B n p s).Answers env := by
  induction n generalizing p s with
  | zero => exact nofun
  | succ n ih =>
    obtain ⟨fresh, ls⟩ := p
    unfold search
    simp only
    split
    case h_1 a =>
      obtain ⟨d, hd, hm⟩ := hfresh a rfl
      obtain ⟨hform, hmet⟩ := equations_of_meets hm (hB.sorts d (.inr hd)) hp hls
      exact Found.answers_union_map (List.mem_filter.mpr ⟨hd, by simp [hm.1]⟩)
        (ih hform nofun hmet hs)
    case h_2 _ ρs rest htest =>
      obtain ⟨t, ht, hperm⟩ := perm_of_test? htest
      obtain ⟨hform, hrest⟩ := List.forall_mem_cons.mp ((Case.forall_congr hperm).mp hp)
      obtain ⟨hmeans, hmet⟩ := List.forall_mem_cons.mp ((Case.forall_congr hperm).mp hls)
      obtain ⟨ρ, hρ, hfits⟩ := (hform.solve?_iff ht).mpr ⟨hs, hmeans⟩
      exact Found.answers_union_map hρ (ih hrest nofun hmet hfits)
    case h_3 a rest _ hf =>
      have hperm := perm_of_fact? hf
      obtain ⟨⟨d, hd, hm⟩, hrest⟩ := List.forall_mem_cons.mp ((Case.forall_congr hperm).mp hls)
      obtain ⟨hform, hmet⟩ := equations_of_meets hm (hB.sorts d (.inl hd))
        ((Case.forall_congr hperm).mp hp) hrest
      exact Found.answers_union_map (List.mem_filter.mpr ⟨hd, by simp [hm.1]⟩)
        (ih hform nofun hmet hs)
    case h_4 =>
      split
      case h_1 i hu =>
        obtain ⟨hnone, hsome⟩ := unbound?_eq_some hu hp
        rw [List.getElem?_map, Option.map_eq_some_iff] at hsome
        obtain ⟨⟨_, v⟩, hi, rfl⟩ := hsome
        refine Found.answers_union_map (x := .bool v) (by cases (v : Bool) <;> simp) (ih hp nofun hls ?_)
        exact (Datum.Valuation.fits_cons_iff hnone).mpr ⟨hs, hi⟩
      case h_2 => exact nofun
      case h_3 => exact nofun
      case h_4 =>
        split
        · exact fun _ => ⟨s, List.mem_singleton_self s, hs⟩
        · exact nofun

end Pending

end Horn

import Horn.Derivation.Clause
import Horn.Proofs.Derivation.Datum

/-!
What clauses say. Main statements: a formula is true if all literals of one of its cases are; a clause says
what the rule says that it comes from.
-/

namespace Horn

open Element

namespace Term

/-- The sorts of the variables of the outer quantifier, that of the index 0 first. -/
def context : Term → List TermSort
  | .quant _ bs _ => (bs.map (·.2)).reverse
  | _ => []

/-- **A closed formula whose outer quantifier, if it has one, is the given one.** -/
structure IsClosed (q : Quantifier) (t : Term) : Prop extends IsFormula [] t where
  quantifier : ∀ p bs u, t = .quant p bs u → p = q

variable {J : Interpretation} {env : List Element} {Δ : List TermSort} {a b t u : Term}

lemma IsFormula.matrix (h : t.IsFormula []) : t.matrix.IsFormula t.context := by
  cases t with
  | quant q bs u =>
    obtain ⟨hsort, hscoped⟩ := h
    cases hsort with
    | quant hu => exact ⟨hu, by simpa [Term.isScoped, context, Term.matrix] using hscoped⟩
  | _ => exact h

lemma sortsOf_reverse (xs : List Element) : sortsOf xs.reverse = (sortsOf xs).reverse :=
  List.map_reverse

/-- Variables in the order of a binder are those in sight the other way round. -/
lemma forall_reverse_iff {P : List Element → Prop} {ss : List TermSort} :
    (∀ env, sortsOf env = ss.reverse → P env) ↔ ∀ xs, sortsOf xs = ss → P xs.reverse := by
  rw [List.reverse_involutive.surjective.forall]
  simp only [sortsOf_reverse, List.reverse_inj]

open scoped Classical in
/-- **A rule is true if its matrix is**, whatever the variables are. -/
lemma IsClosed.holds_all_iff (h : t.IsClosed .all) :
    t.Holds J ↔ ∀ env, sortsOf env = t.context → Means J env t.matrix (.ofBool true) := by
  have hm : ∀ env, Means J env t.matrix (.ofBool true) ↔ t.matrix.value? J env = some (.ofBool true) :=
    fun _ => h.toIsFormula.matrix.means_iff
  simp only [hm]
  unfold Holds
  cases t with
  | quant q bs u =>
    cases h.quantifier q bs u rfl
    rw [value?, Option.some.injEq, ofBool_inj, decide_eq_true_eq, context, forall_reverse_iff]
    simp only [List.append_nil, Term.matrix]
  | _ => simp [context, Term.matrix]

open scoped Classical in
/-- **A goal is true if its matrix is** for some variables. -/
lemma IsClosed.holds_any_iff (h : t.IsClosed .any) :
    t.Holds J ↔ ∃ env, sortsOf env = t.context ∧ Means J env t.matrix (.ofBool true) := by
  have hm : ∀ env, Means J env t.matrix (.ofBool true) ↔ t.matrix.value? J env = some (.ofBool true) :=
    fun _ => h.toIsFormula.matrix.means_iff
  simp only [hm]
  unfold Holds
  cases t with
  | quant q bs u =>
    cases h.quantifier q bs u rfl
    rw [value?, Option.some.injEq, ofBool_inj, decide_eq_true_eq, context, ← not_iff_not]
    simp only [not_exists, not_and, forall_reverse_iff]
    simp only [List.append_nil, Term.matrix]
  | _ => simp [context, Term.matrix]

end Term

open Term

namespace Literal

/-- The formula that is to be true. -/
def formula : Literal → Term
  | .fact f as => .app f as
  | .test t => t

def Holds (l : Literal) (J : Interpretation) (env : List Element) : Prop :=
  Means J env l.formula (.ofBool true)

end Literal

namespace Case

def Holds (c : Case) (J : Interpretation) (env : List Element) : Prop := ∀ l ∈ c, l.Holds J env

/-- All literals are formulas over variables of the given sorts. -/
def IsFormula (Δ : List TermSort) (c : Case) : Prop := ∀ l ∈ c, l.formula.IsFormula Δ

end Case

namespace Term

variable {J : Interpretation} {env : List Element}

/-- A formula of one literal. -/
lemma cases_single_iff {l : Literal} (hl : l.formula.IsFormula (sortsOf env)) :
    (l.Holds J env ↔ ∃ c ∈ [[l]], Case.Holds c J env) ∧
      ∀ c ∈ [[l]], Case.IsFormula (sortsOf env) c := by
  simp [Case.Holds, Case.IsFormula, hl]

mutual

/-- **A formula is true if all literals of one of its cases are.** -/
theorem cases?_iff {t : Term} {cs : List Case} (h : t.cases? = some cs)
    (ht : t.IsFormula (sortsOf env)) :
    (Means J env t (.ofBool true) ↔ ∃ c ∈ cs, Case.Holds c J env) ∧
      ∀ c ∈ cs, Case.IsFormula (sortsOf env) c := by
  unfold cases? at h
  split at h
  case h_1 f as =>
    split at h <;> cases h
    exact cases_single_iff (l := .fact f as) ht
  case h_2 as =>
    obtain ⟨a, b, rfl, ha, hb⟩ := ht.operands rfl
    obtain ⟨hiff, hcs⟩ := bothCases?_iff h (by simp [ha, hb])
    exact ⟨by rw [means_and_iff ha hb, ← hiff]; simp, hcs⟩
  case h_3 as =>
    obtain ⟨a, b, rfl, ha, hb⟩ := ht.operands rfl
    obtain ⟨hiff, hcs⟩ := eitherCases?_iff h (by simp [ha, hb])
    exact ⟨by rw [means_or_iff ha hb, ← hiff]; simp, hcs⟩
  case h_4 =>
    split at h <;> cases h
    exact cases_single_iff (l := .test t) ht

theorem bothCases?_iff {ts : List Term} {cs : List Case} (h : bothCases? ts = some cs)
    (hts : ∀ t ∈ ts, t.IsFormula (sortsOf env)) :
    ((∀ t ∈ ts, Means J env t (.ofBool true)) ↔ ∃ c ∈ cs, Case.Holds c J env) ∧
      ∀ c ∈ cs, Case.IsFormula (sortsOf env) c := by
  match ts with
  | [] =>
    rw [bothCases?] at h
    cases h
    simp [Case.Holds, Case.IsFormula]
  | t :: ts =>
    rw [bothCases?, Option.bind_eq_bind, Option.bind_eq_some_iff] at h
    obtain ⟨cs, hcs, h⟩ := h
    obtain ⟨ds, hds, h⟩ := Option.bind_eq_some_iff.mp h
    cases h
    rw [List.forall_mem_cons] at hts
    obtain ⟨hiff, hcs⟩ := cases?_iff hcs hts.1
    obtain ⟨hiff', hds⟩ := bothCases?_iff hds hts.2
    rw [List.forall_mem_cons, hiff, hiff']
    constructor
    · simp only [List.mem_flatMap, List.mem_map]
      constructor
      · rintro ⟨⟨c, hc, hholds⟩, d, hd, hholds'⟩
        exact ⟨c ++ d, ⟨c, hc, d, hd, rfl⟩, List.forall_mem_append.mpr ⟨hholds, hholds'⟩⟩
      · rintro ⟨_, ⟨c, hc, d, hd, rfl⟩, hholds⟩
        obtain ⟨hholds, hholds'⟩ := List.forall_mem_append.mp hholds
        exact ⟨⟨c, hc, hholds⟩, d, hd, hholds'⟩
    · intro c hc
      obtain ⟨b, hb, hc⟩ := List.mem_flatMap.mp hc
      obtain ⟨d, hd, rfl⟩ := List.mem_map.mp hc
      exact List.forall_mem_append.mpr ⟨hcs b hb, hds d hd⟩

theorem eitherCases?_iff {ts : List Term} {cs : List Case} (h : eitherCases? ts = some cs)
    (hts : ∀ t ∈ ts, t.IsFormula (sortsOf env)) :
    ((∃ t ∈ ts, Means J env t (.ofBool true)) ↔ ∃ c ∈ cs, Case.Holds c J env) ∧
      ∀ c ∈ cs, Case.IsFormula (sortsOf env) c := by
  match ts with
  | [] =>
    rw [eitherCases?] at h
    cases h
    simp
  | t :: ts =>
    rw [eitherCases?, Option.bind_eq_bind, Option.bind_eq_some_iff] at h
    obtain ⟨cs, hcs, h⟩ := h
    obtain ⟨ds, hds, h⟩ := Option.bind_eq_some_iff.mp h
    cases h
    rw [List.forall_mem_cons] at hts
    obtain ⟨hiff, hcs⟩ := cases?_iff hcs hts.1
    obtain ⟨hiff', hds⟩ := eitherCases?_iff hds hts.2
    rw [List.exists_mem_cons_iff, hiff, hiff']
    simp only [List.mem_append, or_and_right, exists_or, true_and]
    rintro c (hc | hd)
    · exact hcs c hc
    · exact hds c hd

end

/-- Variables of any sorts have some values. -/
lemma exists_sortsOf (Δ : List TermSort) : ∃ env, sortsOf env = Δ :=
  ⟨Δ.map fun s => ⟨s, s.someValue⟩, by rw [sortsOf, List.map_map]; exact List.map_id Δ⟩

lemma isFormula_of_cases? {t : Term} {cs : List Case} {Δ : List TermSort} (h : t.cases? = some cs)
    (ht : t.IsFormula Δ) : ∀ c ∈ cs, Case.IsFormula Δ c := by
  obtain ⟨env, rfl⟩ := exists_sortsOf Δ
  exact (cases?_iff (J := default) h ht).2

end Term

/-! ### Clauses -/

namespace Clause

/-- **A clause is true**: whatever the variables are, its head holds if one of its cases does. -/
def Holds (c : Clause) (Δ : List TermSort) (J : Interpretation) : Prop :=
  ∀ env, sortsOf env = Δ → ∀ b ∈ c.cases, Case.Holds b J env →
    Means J env (.app c.relation c.args) (.ofBool true)

/-- Head and cases are formulas over variables of the given sorts. -/
structure IsFormula (Δ : List TermSort) (c : Clause) : Prop where
  head : (Term.app c.relation c.args).IsFormula Δ
  cases : ∀ b ∈ c.cases, Case.IsFormula Δ b

variable {t : Term} {c : Clause}

/-- **A clause says what its rule says.** -/
lemma ofRule?_iff (ht : t.IsClosed .all) (h : ofRule? t = some c) :
    c.IsFormula t.context ∧ ∀ J, t.Holds J ↔ c.Holds t.context J := by
  have hmatrix := ht.toIsFormula.matrix
  simp only [ht.holds_all_iff]
  unfold ofRule? at h
  split at h
  case h_1 b f as hm =>
    rw [hm] at hmatrix ⊢
    split at h
    · obtain ⟨cs, hcs, rfl⟩ := Option.map_eq_some_iff.mp h
      obtain ⟨_, _, heq, hb, hhead⟩ := hmatrix.operands (o := .implies) rfl
      cases heq
      refine ⟨⟨hhead, isFormula_of_cases? hcs hb⟩, fun J => forall₂_congr fun xs hxs => ?_⟩
      rw [← hxs] at hb hhead
      rw [means_implies_iff hb hhead, (cases?_iff hcs hb).1]
      constructor
      · exact fun himp d hd hholds => himp ⟨d, hd, hholds⟩
      · rintro hall ⟨d, hd, hholds⟩
        exact hall d hd hholds
    · cases h
  case h_2 f as hm =>
    rw [hm] at hmatrix ⊢
    split at h <;> cases h
    exact ⟨⟨hmatrix, by simp [Case.IsFormula]⟩, fun J => by simp [Holds, Case.Holds]⟩
  case h_3 => cases h

end Clause

/-! ### Interpretations by relations -/

open scoped Classical in
/-- The interpretation in which relations hold of the given values. -/
noncomputable def Interpretation.ofRelations (R : Symbol → List Element → Prop) : Interpretation where
  apply f xs := match f.range with
    | .bool => (decide (R f xs) : Bool)
    | s => s.someValue
  byZero _ := 0

namespace Term

variable {R : Symbol → List Element → Prop} {env : List Element} {f : Symbol} {as : List Term}
  {xs : List Element} {J : Interpretation} {Δ : List TermSort}

open scoped Classical in
lemma means_ofRelations_iff (h : (Term.app f as).IsFormula Δ)
    (hxs : List.Forall₂ (Means (.ofRelations R) env) as xs) :
    Means (.ofRelations R) env (.app f as) (.ofBool true) ↔ R f xs := by
  obtain ⟨hf, has, -⟩ := h.args
  rw [h.means_iff, value?_app hxs (map_sort_of_hasSort has), Option.some_inj]
  obtain ⟨n, ss, r⟩ := f
  subst hf
  exact ofBool_inj.trans decide_eq_true_iff

end Term

end Horn

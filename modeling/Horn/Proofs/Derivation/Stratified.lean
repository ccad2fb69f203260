import Horn.Derivation.Stratified
import Horn.Proofs.Derivation.Saturation

/-!
Rules without variables as propositions. Main statements: a goal is answered by its truth in a model of the
rules; where nothing is denied, a goal that is true there follows from them.
-/

namespace Horn

open Element Term

namespace Term

variable {φs ψs : List Fact} {t : Term} {env : List Element} {J : Interpretation} {p : Bool}
  {f : Symbol} {as : List Term}

/-- What holds of relations, of all that is no connective, and of connectives of what it holds of, holds of
every formula. -/
lemma induction_on_connectives {motive : Term → Prop} (app : ∀ f as, motive (.app f as))
    (not : ∀ a, motive a → motive (.op .not [a]))
    (and : ∀ a b, motive a → motive b → motive (.op .and [a, b]))
    (or : ∀ a b, motive a → motive b → motive (.op .or [a, b]))
    (implies : ∀ a b, motive a → motive b → motive (.op .implies [a, b]))
    (other : ∀ t, (∀ f as, t = .app f as → False) → (∀ a, t = .op .not [a] → False) →
      (∀ a b, t = .op .and [a, b] → False) → (∀ a b, t = .op .or [a, b] → False) →
      (∀ a b, t = .op .implies [a, b] → False) → motive t) (t : Term) : motive t :=
  occurrences.induct (motive := fun _ t => motive t) (fun _ => app) (fun _ => not) (fun _ => and)
    (fun _ => or) (fun _ => implies) (fun t _ => other t) true t

/-- Terms without variables have the values of their data. -/
lemma IsFormula.means_of_data? {ds : List Datum} (h : (Term.app f as).IsFormula (sortsOf env))
    (hds : data? [] as = some ds) : List.Forall₂ (Means J env) as (ds.map Datum.element) := by
  obtain ⟨-, has, hscoped⟩ := h.args
  exact Term.means_of_data? has hscoped (Datum.Valuation.fits_nil env) hds

lemma map_element_inj {ds es : List Datum} (h : ds.map Datum.element = es.map Datum.element) :
    ds = es :=
  List.map_injective_iff.mpr (fun _ _ => Datum.element_inj.mp) h

/-- Of a relation between data exactly the facts tell. -/
lemma means_ofFacts_iff_mem {ds : List Datum} (h : (Term.app f as).IsFormula (sortsOf env))
    (hds : data? [] as = some ds) :
    Means (.ofFacts φs) env (.app f as) (.ofBool true) ↔ ⟨f, ds⟩ ∈ φs := by
  have hmeans := h.means_of_data? (J := .ofFacts φs) hds
  rw [means_ofFacts_iff h]
  constructor
  · rintro ⟨⟨g, es⟩, hφ, rfl, hes⟩
    have heq := Option.some.inj ((values?_of_forall₂ hmeans).symm.trans (values?_of_forall₂ hes))
    rwa [map_element_inj heq]
  · exact fun hφ => ⟨_, hφ, rfl, hmeans⟩

/-- What is neither a relation nor a connective is true or false by its value. -/
lemma datum?_of_truthIn? (h₁ : ∀ f as, t = .app f as → False) (h₂ : ∀ a, t = .op .not [a] → False)
    (h₃ : ∀ a b, t = .op .and [a, b] → False) (h₄ : ∀ a b, t = .op .or [a, b] → False)
    (h₅ : ∀ a b, t = .op .implies [a, b] → False) (h : truthIn? φs t = some p) :
    t.datum? [] = some (.bool p) := by
  rw [truthIn?] at h <;> try assumption
  split at h
  · rename_i b hb
    cases h
    exact hb
  · cases h

/-- **The truth of a formula** is that where exactly the given facts hold. -/
lemma IsFormula.means_of_truthIn? (ht : t.IsFormula (sortsOf env)) (h : truthIn? φs t = some p) :
    Means (.ofFacts φs) env t (.ofBool p) := by
  induction t using induction_on_connectives generalizing p with
  | app f as =>
    obtain ⟨ds, hds, rfl⟩ := Option.map_eq_some_iff.mp h
    obtain ⟨q, hq⟩ := ht.exists_bool (J := .ofFacts φs)
    have hiff : Means (.ofFacts φs) env (.app f as) (.ofBool true) ↔ ⟨f, ds⟩ ∈ φs :=
      means_ofFacts_iff_mem ht hds
    rw [hq.iff_eq, ofBool_inj] at hiff
    have heq : q = φs.contains ⟨f, ds⟩ := by rw [Bool.eq_iff_iff, hiff, List.contains_iff_mem]
    rwa [← heq]
  | not a ih =>
    obtain ⟨q, hq, rfl⟩ := Option.map_eq_some_iff.mp h
    exact .op (.cons (ih ⟨ht.hasSort.of_not, isScoped_one.mp ht.isScoped⟩ hq) .nil)
      (Operator.value?_not (strict_ofBool q)) rfl
  | and a b iha ihb | or a b iha ihb =>
    obtain ⟨_, _, heq, ha, hb⟩ := ht.operands rfl
    cases heq
    obtain ⟨q, hq, h⟩ := Option.bind_eq_some_iff.mp h
    obtain ⟨r, hr, h⟩ := Option.bind_eq_some_iff.mp h
    cases h
    exact means_onBools rfl (iha ha hq) (ihb hb hr)
  | implies a b iha ihb =>
    obtain ⟨_, _, heq, ha, hb⟩ := ht.operands (o := .implies) rfl
    cases heq
    obtain ⟨q, hq, h⟩ := Option.bind_eq_some_iff.mp h
    obtain ⟨r, hr, h⟩ := Option.bind_eq_some_iff.mp h
    cases h
    have hmeans := means_onBools (o := .implies) rfl (iha ha hq) (ihb hb hr)
    exact hmeans
  | other t h₁ h₂ h₃ h₄ h₅ =>
    have hb := datum?_of_truthIn? h₁ h₂ h₃ h₄ h₅ h
    exact ht.hasSort.means_of_datum? ht.isScoped (Datum.Valuation.fits_nil env) hb

/-- A connective keeps its value if the operands keep theirs, each unless it does not matter. -/
lemma means_onBools_of {o : Operator} {g : Bool → Bool → Bool} {a b : Term} {q r : Bool}
    (ho : o.onBools? = some g) (ha : a.IsFormula (sortsOf env)) (hb : b.IsFormula (sortsOf env))
    (hqr : ∀ q' r', (Means J env a (.ofBool q) → q' = q) → (Means J env b (.ofBool r) → r' = r) →
      g q' r' = p) : Means J env (.op o [a, b]) (.ofBool p) := by
  obtain ⟨q', hq'⟩ := ha.exists_bool (J := J)
  obtain ⟨r', hr'⟩ := hb.exists_bool (J := J)
  rw [← hqr q' r' (fun h => ofBool_inj.mp (hq'.unique h)) fun h => ofBool_inj.mp (hr'.unique h)]
  exact means_onBools ho hq' hr'

/-- **A formula that affirms relations only** stays true where more of them hold. -/
lemma IsFormula.means_of_facts (ht : t.IsFormula (sortsOf env))
    (hocc : ∀ e ∈ t.occurrences p, e.2 = true) (hJ : ∀ φ ∈ φs, φ.Holds J)
    (h : truthIn? φs t = some p) : Means J env t (.ofBool p) := by
  induction t using induction_on_connectives generalizing p with
  | app f as =>
    obtain ⟨ds, hds, rfl⟩ := Option.map_eq_some_iff.mp h
    have haff : φs.contains ⟨f, ds⟩ = true := hocc _ (List.mem_singleton_self _)
    rw [haff]
    exact (Fact.means_iff (φ := ⟨f, ds⟩) ht (ht.means_of_data? hds)).mpr
      (hJ _ (List.contains_iff_mem.mp haff))
  | not a ih =>
    obtain ⟨q, hq, rfl⟩ := Option.map_eq_some_iff.mp h
    rw [occurrences, Bool.not_not] at hocc
    exact .op (.cons (ih ⟨ht.hasSort.of_not, isScoped_one.mp ht.isScoped⟩ hocc hq) .nil)
      (Operator.value?_not (strict_ofBool q)) rfl
  | and a b iha ihb | or a b iha ihb =>
    obtain ⟨_, _, heq, ha, hb⟩ := ht.operands rfl
    cases heq
    obtain ⟨q, hq, h⟩ := Option.bind_eq_some_iff.mp h
    obtain ⟨r, hr, h⟩ := Option.bind_eq_some_iff.mp h
    cases h
    rw [occurrences, List.forall_mem_append] at hocc
    refine means_onBools_of (q := q) (r := r) rfl ha hb fun q' r' hq' hr' => ?_
    cases q <;> cases r <;> simp_all
  | implies a b iha ihb =>
    obtain ⟨_, _, heq, ha, hb⟩ := ht.operands (o := .implies) rfl
    cases heq
    obtain ⟨q, hq, h⟩ := Option.bind_eq_some_iff.mp h
    obtain ⟨r, hr, h⟩ := Option.bind_eq_some_iff.mp h
    cases h
    rw [occurrences, List.forall_mem_append] at hocc
    refine means_onBools_of (o := .implies) (q := q) (r := r) rfl ha hb fun q' r' hq' hr' => ?_
    cases q <;> cases r <;> simp_all
  | other t h₁ h₂ h₃ h₄ h₅ =>
    have hb := datum?_of_truthIn? h₁ h₂ h₃ h₄ h₅ h
    exact ht.hasSort.means_of_datum? ht.isScoped (Datum.Valuation.fits_nil env) hb

/-- The truth of a formula hangs on the relations that occur in it only. -/
lemma truthIn?_congr (h : ∀ e ∈ t.occurrences p, ∀ ds, (⟨e.1, ds⟩ : Fact) ∈ φs ↔ ⟨e.1, ds⟩ ∈ ψs) :
    truthIn? φs t = truthIn? ψs t := by
  induction t using induction_on_connectives generalizing p with
  | app f as =>
    have hf := h (f, p) (List.mem_singleton_self _)
    have heq : ∀ ds, φs.contains ⟨f, ds⟩ = ψs.contains ⟨f, ds⟩ := by
      intro ds
      rw [Bool.eq_iff_iff, List.contains_iff_mem, List.contains_iff_mem, hf ds]
    simp only [truthIn?, heq]
  | not a ih => rw [truthIn?, truthIn?, ih h]
  | and a b iha ihb | or a b iha ihb | implies a b iha ihb =>
    rw [occurrences, List.forall_mem_append] at h
    rw [truthIn?, truthIn?, iha h.1, ihb h.2]
  | other t h₁ h₂ h₃ h₄ h₅ =>
    rw [truthIn?, truthIn?] <;> assumption

/-- Whether a formula has a truth value does not hang on the facts. -/
lemma exists_truthIn? (h : truthIn? φs t = some p) (ψs : List Fact) :
    ∃ q, truthIn? ψs t = some q := by
  induction t using induction_on_connectives generalizing p with
  | app f as =>
    obtain ⟨ds, hds, -⟩ := Option.map_eq_some_iff.mp h
    exact ⟨_, by rw [truthIn?, hds]; rfl⟩
  | not a ih =>
    obtain ⟨q, hq, -⟩ := Option.map_eq_some_iff.mp h
    obtain ⟨q', hq'⟩ := ih hq
    exact ⟨!q', by rw [truthIn?, hq']; rfl⟩
  | and a b iha ihb | or a b iha ihb | implies a b iha ihb =>
    obtain ⟨q, hq, h⟩ := Option.bind_eq_some_iff.mp h
    obtain ⟨r, hr, -⟩ := Option.bind_eq_some_iff.mp h
    obtain ⟨q', hq'⟩ := iha hq
    obtain ⟨r', hr'⟩ := ihb hr
    exact ⟨_, by rw [truthIn?, hq', hr']; rfl⟩
  | other t h₁ h₂ h₃ h₄ h₅ =>
    have hb := datum?_of_truthIn? h₁ h₂ h₃ h₄ h₅ h
    exact ⟨p, by rw [truthIn?, hb] <;> assumption⟩

end Term

/-! ### Places of relations -/

namespace Strata

variable {S T : Strata} {rules : List Term} {t b : Term} {f g : Symbol} {as : List Term} {n : Nat}

lemma le_foldl_max {α : Type} (w : α → Nat) (xs : List α) (k : Nat) :
    k ≤ xs.foldl (fun n x => max n (w x)) k ∧ ∀ x ∈ xs, w x ≤ xs.foldl (fun n x => max n (w x)) k := by
  induction xs generalizing k with
  | nil => exact ⟨le_refl _, nofun⟩
  | cons x xs ih =>
    obtain ⟨hk, hxs⟩ := ih (max k (w x))
    rw [List.foldl_cons, List.forall_mem_cons]
    exact ⟨by omega, by omega, hxs⟩

/-- How far up the head of a rule stands at least, which the formula denies or affirms relations of. -/
def height (S : Strata) (e : Symbol × Bool) : Nat := if e.2 then S.place e.1 else S.place e.1 + 1

lemma lookup_filter_ne (S : Strata) (h : g ≠ f) :
    (S.filter fun e => e.1 != f).lookup g = S.lookup g := by
  induction S with
  | nil => rfl
  | cons e S ih =>
    rw [List.filter_cons]
    by_cases hef : e.1 = f
    · have hge : (g == e.1) = false := by rw [hef, beq_eq_false_iff_ne]; exact h
      rw [if_neg (by simpa using hef), ih, List.lookup_cons, hge]
    · rw [if_pos (by simpa using hef), List.lookup_cons, List.lookup_cons, ih]

/-- Raising puts the head of a rule as far up as the relations of the body ask for. -/
lemma place_raise (h : t.headAndBody? = some (f, as, b)) (g : Symbol) :
    (S.raise t).place g = if g = f
      then (b.occurrences true).foldl (fun n e => max n (S.height e)) (S.place f) else S.place g := by
  have hraise : S.raise t =
      if (b.occurrences true).foldl (fun n e => max n (S.height e)) (S.place f) = S.place f then S
      else (f, (b.occurrences true).foldl (fun n e => max n (S.height e)) (S.place f)) ::
        S.filter fun e => e.1 != f := by
    rw [raise, h]
    rfl
  rw [hraise]
  by_cases hgf : g = f
  · rw [if_pos hgf, hgf]
    split
    · exact Eq.symm ‹_›
    · simp [place]
  · rw [if_neg hgf]
    split
    · rfl
    · have hgf' : (g == f) = false := by simpa using hgf
      rw [place, List.lookup_cons, hgf', lookup_filter_ne S hgf]
      rfl

lemma le_place_raise (S : Strata) (t : Term) (g : Symbol) : S.place g ≤ (S.raise t).place g := by
  rcases h : t.headAndBody? with _ | ⟨f, as, b⟩
  · rw [raise, h]
  · rw [place_raise h]
    split
    · rename_i hgf
      rw [hgf]
      exact (le_foldl_max _ _ _).1
    · exact le_refl _

lemma le_place_foldl (rules : List Term) (S : Strata) (g : Symbol) :
    S.place g ≤ (rules.foldl raise S).place g := by
  induction rules generalizing S with
  | nil => exact le_refl _
  | cons t rules ih => exact (le_place_raise S t g).trans (ih (S.raise t))

/-- **The head of a rule stands above what its body denies**, and not below what it affirms. -/
def IsPlaced (S : Strata) (t : Term) : Prop :=
  ∀ f as b, t.headAndBody? = some (f, as, b) → ∀ e ∈ b.occurrences true, S.height e ≤ S.place f

lemma height_mono (h : ∀ g, S.place g ≤ T.place g) (e : Symbol × Bool) : S.height e ≤ T.height e := by
  have := h e.1
  unfold height
  split <;> omega

/-- Places that no rule raises are right. -/
lemma isPlaced_of_foldl (h : ∀ t ∈ rules, ∀ f as b, t.headAndBody? = some (f, as, b) →
    (rules.foldl raise S).place f = S.place f) : ∀ t ∈ rules, S.IsPlaced t := by
  intro t ht f as b hb e he
  obtain ⟨pre, post, rfl⟩ := List.append_of_mem ht
  have hfix := h t ht f as b hb
  rw [List.foldl_append, List.foldl_cons] at hfix
  have hle : S.height e ≤ (pre.foldl raise S).height e := height_mono (le_place_foldl pre S) e
  have hraise := place_raise (S := pre.foldl raise S) hb f
  rw [if_pos rfl] at hraise
  have hmax := (le_foldl_max (height (pre.foldl raise S)) (b.occurrences true)
    ((pre.foldl raise S).place f)).2 e he
  have hpost := le_place_foldl post ((pre.foldl raise S).raise t) f
  omega

lemma isPlaced_of_settle {n : Nat} (h : settle rules n S = some T) : ∀ t ∈ rules, T.IsPlaced t := by
  fun_induction settle rules n S with
  | case1 => cases h
  | case2 n S U hall =>
    cases h
    refine isPlaced_of_foldl fun t ht f as b hb => ?_
    have h := List.all_eq_true.mp hall t ht
    rw [hb] at h
    simpa using h
  | case3 n S U hall ih => exact ih h

/-! ### Closing facts under rules -/

variable {φs ψs χs : List Fact} {φ : Fact}

/-- The fact that a rule concludes. -/
def conclusion? (t : Term) : Option Fact := do
  let (f, as, _) ← t.headAndBody?
  let ds ← data? [] as
  return ⟨f, ds⟩

lemma conclusion?_eq {ds : List Datum} (hb : t.headAndBody? = some (f, as, b))
    (hds : data? [] as = some ds) : conclusion? t = some ⟨f, ds⟩ := by
  simp [conclusion?, hb, hds]

/-- What a rule leads to from facts: it has a body that is true or false, and the fact concluded is
added if the body is true and the fact is not there. -/
lemma fire_cases (h : fire φs t = some ψs) : ∃ f as b ds v, t.headAndBody? = some (f, as, b) ∧
    data? [] as = some ds ∧ b.truthIn? φs = some v ∧
    (v = true ∧ ⟨f, ds⟩ ∉ φs ∧ ψs = φs ++ [⟨f, ds⟩] ∨ (v = true → ⟨f, ds⟩ ∈ φs) ∧ ψs = φs) := by
  obtain ⟨⟨f, as, b⟩, hb, h⟩ := Option.bind_eq_some_iff.mp h
  obtain ⟨ds, hds, h⟩ := Option.bind_eq_some_iff.mp h
  obtain ⟨v, hv, h⟩ := Option.bind_eq_some_iff.mp h
  refine ⟨f, as, b, ds, v, hb, hds, hv, ?_⟩
  split at h
  · rename_i hadd
    cases h
    exact .inl (by simpa using hadd)
  · rename_i hadd
    cases h
    exact .inr ⟨by simpa using hadd, rfl⟩

/-- The fact that a rule concludes is among the facts if the body is true in them. -/
def IsClosed (φs : List Fact) (t : Term) : Prop :=
  ∀ f as b ds, t.headAndBody? = some (f, as, b) → data? [] as = some ds →
    b.truthIn? φs = some true → ⟨f, ds⟩ ∈ φs

lemma isClosed_of_fire (h : fire φs t = some φs) : IsClosed φs t := by
  obtain ⟨f, as, b, ds, v, hb, hds, hv, ⟨-, -, heq⟩ | ⟨hmem, -⟩⟩ := fire_cases h
  · simp at heq
  · intro f' as' b' ds' hb' hds' hv'
    cases hb.symm.trans hb'
    cases hds.symm.trans hds'
    exact hmem (Option.some.inj (hv.symm.trans hv'))

/-- The number of rules that conclude none of the facts. -/
def missing (rules : List Term) (φs : List Fact) : Nat :=
  rules.countP fun t => !(conclusion? t).any φs.contains

lemma missing_mono (h : φs ⊆ ψs) (rules : List Term) : missing rules ψs ≤ missing rules φs := by
  refine List.countP_mono_left fun t _ ht => ?_
  rcases hc : conclusion? t with _ | φ
  · rfl
  · rw [hc] at ht
    simp only [Option.any_some, Bool.not_eq_true', List.contains_eq_mem, decide_eq_false_iff_not]
      at ht ⊢
    exact fun hφ => ht (h hφ)

lemma missing_lt (ht : t ∈ rules) (hc : conclusion? t = some φ) (hφ : φ ∉ φs) :
    missing rules (φs ++ [φ]) < missing rules φs := by
  obtain ⟨pre, post, rfl⟩ := List.append_of_mem ht
  have hsub : φs ⊆ φs ++ [φ] := List.subset_append_left _ _
  have hpre := missing_mono hsub pre
  have hpost := missing_mono hsub post
  unfold missing at hpre hpost ⊢
  rw [List.countP_append, List.countP_append, List.countP_cons, List.countP_cons, hc]
  simp only [Option.any_some, List.contains_eq_mem, hφ]
  simp
  omega

/-- A round keeps the facts, and either no rule adds one or fewer conclusions are missing. -/
lemma round_cases {rs : List Term} (hrs : rs ⊆ rules) (h : rs.foldlM fire φs = some ψs) :
    φs ⊆ ψs ∧ (ψs = φs ∧ (∀ t ∈ rs, fire φs t = some φs) ∨ missing rules ψs < missing rules φs) := by
  induction rs generalizing φs with
  | nil =>
    cases h
    exact ⟨List.Subset.refl _, .inl ⟨rfl, nofun⟩⟩
  | cons t rs ih =>
    obtain ⟨χs, hχ, h⟩ := Option.bind_eq_some_iff.mp h
    obtain ⟨ht, hrs⟩ := List.cons_subset.mp hrs
    obtain ⟨hsub, hrest⟩ := ih hrs h
    obtain ⟨f, as, b, ds, v, hb, hds, -, ⟨-, hnot, rfl⟩ | ⟨-, rfl⟩⟩ := fire_cases hχ
    · exact ⟨List.Subset.trans (List.subset_append_left _ _) hsub, .inr
        ((missing_mono hsub rules).trans_lt (missing_lt ht (conclusion?_eq hb hds) hnot))⟩
    · refine ⟨hsub, hrest.imp_left fun ⟨heq, hall⟩ => ⟨heq, ?_⟩⟩
      exact List.forall_mem_cons.mpr ⟨hχ, hall⟩

lemma close_of_foldlM {n : Nat} (h : rules.foldlM fire φs = some φs)
    (hclose : close rules n φs = some ψs) : ψs = φs := by
  induction n with
  | zero =>
    cases hclose
    rfl
  | succ n ih =>
    rw [close, h, Option.bind_some] at hclose
    exact ih hclose

/-- **Facts are closed under rules** after as many rounds as conclusions are missing. -/
lemma isClosed_of_close {n : Nat} (h : close rules n φs = some ψs) (hn : missing rules φs ≤ n) :
    ∀ t ∈ rules, IsClosed ψs t := by
  induction n generalizing φs with
  | zero =>
    cases h
    intro t ht f as b ds hb hds _
    have h := List.countP_eq_zero.mp (Nat.le_zero.mp hn) t ht
    rw [conclusion?_eq hb hds] at h
    simpa using h
  | succ n ih =>
    obtain ⟨χs, hχ, h⟩ := Option.bind_eq_some_iff.mp h
    obtain ⟨-, ⟨rfl, hfire⟩ | hlt⟩ := round_cases (List.Subset.refl rules) hχ
    · rw [close_of_foldlM hχ h]
      exact fun t ht => isClosed_of_fire (hfire t ht)
    · exact ih h (by omega)

/-- What each use of a rule keeps, rounds of them keep. -/
lemma close_induct {P : List Fact → Prop} {n : Nat} (h : close rules n φs = some ψs)
    (hP : ∀ t ∈ rules, ∀ φs ψs, P φs → fire φs t = some ψs → P ψs) (hφs : P φs) : P ψs := by
  have hround : ∀ rs ⊆ rules, ∀ φs ψs, rs.foldlM fire φs = some ψs → P φs → P ψs := by
    intro rs
    induction rs with
    | nil =>
      intro _ φs ψs h hφs
      cases h
      exact hφs
    | cons t rs ih =>
      intro hrs φs ψs h hφs
      obtain ⟨χs, hχ, h⟩ := Option.bind_eq_some_iff.mp h
      obtain ⟨ht, hrs⟩ := List.cons_subset.mp hrs
      exact ih hrs χs ψs h (hP t ht φs χs hφs hχ)
  induction n generalizing φs with
  | zero =>
    cases h
    exact hφs
  | succ n ih =>
    obtain ⟨χs, hχ, h⟩ := Option.bind_eq_some_iff.mp h
    exact ih h (hround rules (List.Subset.refl _) φs χs hχ hφs)

/-! ### Working out relations from below -/

/-- The rule has a body that is true or false and a fact as its conclusion. -/
def IsGround (t : Term) : Prop :=
  ∃ f as b ds, t.headAndBody? = some (f, as, b) ∧ data? [] as = some ds ∧
    ∀ φs, ∃ v, b.truthIn? φs = some v

/-- A rule that is used is one without variables. -/
lemma isGround_of_close {n : Nat} (h : close rules (n + 1) φs = some ψs) :
    ∀ t ∈ rules, IsGround t := by
  have hround : ∀ rs : List Term, ∀ φs ψs, rs.foldlM fire φs = some ψs → ∀ t ∈ rs, IsGround t := by
    intro rs
    induction rs with
    | nil => nofun
    | cons t rs ih =>
      intro φs ψs h
      obtain ⟨χs, hχ, h⟩ := Option.bind_eq_some_iff.mp h
      obtain ⟨f, as, b, ds, v, hb, hds, hv, -⟩ := fire_cases hχ
      exact List.forall_mem_cons.mpr ⟨⟨f, as, b, ds, hb, hds, exists_truthIn? hv⟩, ih χs ψs h⟩
  obtain ⟨χs, hχ, -⟩ := Option.bind_eq_some_iff.mp h
  exact hround rules φs χs hχ

/-- **What is known once the places below `k` are worked out**: facts about relations that stand there,
closed under the rules for them. -/
structure IsSettled (S : Strata) (rules : List Term) (k : Nat) (φs : List Fact) : Prop where
  place : ∀ φ ∈ φs, S.place φ.relation < k
  closed : ∀ t ∈ rules, ∀ f as b, t.headAndBody? = some (f, as, b) → S.place f < k →
    IsGround t ∧ IsClosed φs t

lemma mem_rulesAt (ht : t ∈ rules) (hb : t.headAndBody? = some (f, as, b)) :
    t ∈ S.rulesAt rules (S.place f) :=
  List.mem_filter.mpr ⟨ht, by simp [hb]⟩

/-- **One place more is worked out**: the facts that are added are about relations that stand there, so
that no rule for those below is touched. -/
lemma IsSettled.succ {k : Nat} (h : IsSettled S rules k φs) (hS : ∀ t ∈ rules, S.IsPlaced t)
    (hclose : close (S.rulesAt rules k) (S.rulesAt rules k).length φs = some ψs) :
    IsSettled S rules (k + 1) ψs := by
  have hnew : φs ⊆ ψs ∧ ∀ φ ∈ ψs, φ ∈ φs ∨ S.place φ.relation = k := by
    refine close_induct (P := fun χs => φs ⊆ χs ∧ ∀ φ ∈ χs, φ ∈ φs ∨ S.place φ.relation = k) hclose
      (fun t ht χs χs' hχ hfire => ?_) ⟨List.Subset.refl _, fun φ hφ => .inl hφ⟩
    obtain ⟨f, as, b, ds, v, hb, -, -, ⟨-, -, rfl⟩ | ⟨-, rfl⟩⟩ := fire_cases hfire
    · have hplace : S.place f = k := by
        have h := (List.mem_filter.mp ht).2
        rw [hb] at h
        simpa using h
      refine ⟨List.Subset.trans hχ.1 (List.subset_append_left _ _), ?_⟩
      rw [List.forall_mem_append]
      exact ⟨hχ.2, by simp [hplace]⟩
    · exact hχ
  refine ⟨fun φ hφ => ?_, fun t ht f as b hb hf => ?_⟩
  · rcases hnew.2 φ hφ with hφ | hφ
    · exact (h.place φ hφ).trans (Nat.lt_succ_self k)
    · omega
  · rcases Nat.lt_succ_iff_lt_or_eq.mp hf with hf | rfl
    · obtain ⟨hground, hclosed⟩ := h.closed t ht f as b hb hf
      refine ⟨hground, fun f' as' b' ds hb' hds hv => hnew.1 (hclosed f' as' b' ds hb' hds ?_)⟩
      cases hb.symm.trans hb'
      rw [← hv]
      refine truthIn?_congr (p := true) fun e he ds => ⟨fun hφ => hnew.1 hφ, fun hφ => ?_⟩
      -- a relation in the body stands below the head or beside it, so nothing was added about it
      have hheight := hS t ht f as b hb e he
      have hplace : S.place e.1 ≤ S.height e := by
        unfold height
        split <;> omega
      exact (hnew.2 _ hφ).resolve_right fun heq => by
        have heq : S.place e.1 = k := heq
        omega
    · have hmem := mem_rulesAt (S := S) ht hb
      obtain ⟨n, hn⟩ := Nat.exists_eq_succ_of_ne_zero (List.length_pos_of_mem hmem).ne'
      refine ⟨?_, isClosed_of_close hclose List.countP_le_length t hmem⟩
      rw [hn] at hclose
      exact isGround_of_close hclose t hmem

lemma isSettled_of_foldlM {k : Nat} (hS : ∀ t ∈ rules, S.IsPlaced t)
    (h : (List.range k).foldlM (fun φs n =>
      close (S.rulesAt rules n) (S.rulesAt rules n).length φs) [] = some φs) :
    IsSettled S rules k φs := by
  induction k generalizing φs with
  | zero =>
    cases h
    exact ⟨nofun, fun _ _ _ _ _ _ h => absurd h (Nat.not_lt_zero _)⟩
  | succ k ih =>
    rw [List.range_succ, List.foldlM_append] at h
    obtain ⟨χs, hχ, h⟩ := Option.bind_eq_some_iff.mp h
    rw [List.foldlM_cons] at h
    obtain ⟨ψs, hψ, h⟩ := Option.bind_eq_some_iff.mp h
    cases h
    exact (ih hχ).succ hS hψ

/-- What each use of a rule keeps, the facts worked out have. -/
lemma facts?_induct {P : List Fact → Prop} (h : S.facts? rules = some φs)
    (hP : ∀ t ∈ rules, ∀ φs ψs, P φs → fire φs t = some ψs → P ψs) (hnil : P []) : P φs := by
  have hall : ∀ (ns : List Nat) φs ψs, P φs → ns.foldlM (fun φs n =>
      close (S.rulesAt rules n) (S.rulesAt rules n).length φs) φs = some ψs → P ψs := by
    intro ns
    induction ns with
    | nil =>
      intro φs ψs hφs h
      cases h
      exact hφs
    | cons n ns ih =>
      intro φs ψs hφs h
      obtain ⟨χs, hχ, h⟩ := Option.bind_eq_some_iff.mp h
      exact ih χs ψs (close_induct hχ (fun t ht => hP t (List.mem_of_mem_filter ht)) hφs) h
  exact hall _ [] φs hnil h

/-- **The facts that are worked out are closed under all rules.** -/
lemma isClosed_of_facts? (hS : ∀ t ∈ rules, S.IsPlaced t) (h : S.facts? rules = some φs) :
    ∀ t ∈ rules, ∀ f as b, t.headAndBody? = some (f, as, b) → IsGround t ∧ IsClosed φs t := by
  intro t ht f as b hb
  refine (isSettled_of_foldlM hS h).closed t ht f as b hb (Nat.lt_succ_iff.mpr ?_)
  obtain ⟨-, htop⟩ := le_foldl_max (fun e : Symbol × Nat => e.2) S 0
  rcases hf : S.lookup f with _ | n
  · simp [place, hf]
  · obtain ⟨l₁, l₂, hl, -⟩ := List.lookup_eq_some_iff.mp hf
    rw [place, hf, Option.getD_some]
    exact htop (f, n) (by rw [hl]; simp)

end Strata

namespace Term

variable {rules : List Term} {t b : Term} {f : Symbol} {as : List Term} {φs : List Fact}

/-- **A rule says that its head holds where its body does.** -/
lemma headAndBody?_iff (ht : t.IsClosed .all) (h : t.headAndBody? = some (f, as, b)) :
    b.IsFormula t.context ∧ (Term.app f as).IsFormula t.context ∧ ∀ J, t.Holds J ↔
      ∀ env, sortsOf env = t.context → Means J env b (.ofBool true) →
        Means J env (.app f as) (.ofBool true) := by
  have hmatrix := ht.toIsFormula.matrix
  simp only [ht.holds_all_iff]
  unfold headAndBody? at h
  split at h
  · rename_i hm
    cases h
    rw [hm] at hmatrix ⊢
    obtain ⟨_, _, heq, hb, hhead⟩ := hmatrix.operands (o := .implies) rfl
    cases heq
    refine ⟨hb, hhead, fun J => forall₂_congr fun env henv => ?_⟩
    exact means_implies_iff (henv ▸ hb) (henv ▸ hhead)
  · rename_i hm
    cases h
    rw [hm] at hmatrix ⊢
    refine ⟨⟨.bool true, rfl⟩, hmatrix, fun J => forall₂_congr fun env henv => ?_⟩
    exact (imp_iff_right (means_bool true)).symm
  · cases h

/-- Facts closed under a rule satisfy it. -/
lemma holds_of_isClosed (ht : t.IsClosed .all) (hb : t.headAndBody? = some (f, as, b))
    (hground : Strata.IsGround t) (hclosed : Strata.IsClosed φs t) : t.Holds (.ofFacts φs) := by
  obtain ⟨hbody, hhead, hiff⟩ := headAndBody?_iff ht hb
  obtain ⟨f', as', b', ds, hb', hds, htruth⟩ := hground
  cases hb.symm.trans hb'
  rw [hiff]
  intro env henv hholds
  rw [← henv] at hbody hhead
  obtain ⟨v, hv⟩ := htruth φs
  obtain rfl : v = true := ofBool_inj.mp ((hbody.means_of_truthIn? hv).unique hholds)
  exact (means_ofFacts_iff_mem hhead hds).mpr (hclosed f as b ds hb hds hv)

/-- What a rule that denies nothing concludes follows from the facts. -/
lemma followsBy_of_truthIn? {ds : List Datum} (hmem : t ∈ rules) (ht : t.IsClosed .all)
    (hb : t.headAndBody? = some (f, as, b)) (hds : data? [] as = some ds)
    (hocc : ∀ e ∈ b.occurrences true, e.2 = true) (hv : b.truthIn? φs = some true) :
    Fact.FollowsBy rules φs ⟨f, ds⟩ := by
  obtain ⟨hbody, hhead, hiff⟩ := headAndBody?_iff ht hb
  obtain ⟨env, henv⟩ := exists_sortsOf t.context
  refine ⟨t, hmem, fun J hJ hφs => ?_⟩
  have hholds := (hiff J).mp hJ env henv ((henv ▸ hbody).means_of_facts hocc hφs hv)
  exact (Fact.means_iff (φ := ⟨f, ds⟩) hhead ((henv ▸ hhead).means_of_data? hds)).mp hholds

variable {goal : Term} {p : Bool}

/-- The rule denies no relation. -/
def Affirms (t : Term) : Prop :=
  ∀ f as b, t.headAndBody? = some (f, as, b) → ∀ e ∈ b.occurrences true, e.2 = true

/-- The facts worked out satisfy all rules; if no rule denies anything, they are proved. -/
lemma exists_of_followsFrom? (hrules : ∀ t ∈ rules, t.IsClosed .all)
    (hheads : ∀ t ∈ rules, t.headAndBody?.isSome) (h : goal.followsFrom? rules = some p) :
    ∃ φs, goal.matrix.truthIn? φs = some p ∧ (∀ t ∈ rules, t.Holds (.ofFacts φs)) ∧
      ((∀ t ∈ rules, t.Affirms) → Fact.IsProof rules φs) := by
  obtain ⟨S, hS, h⟩ := Option.bind_eq_some_iff.mp h
  obtain ⟨φs, hφs, h⟩ := Option.bind_eq_some_iff.mp h
  refine ⟨φs, h, fun t ht => ?_, fun haffirm => ?_⟩
  · obtain ⟨⟨f, as, b⟩, hb⟩ := Option.isSome_iff_exists.mp (hheads t ht)
    obtain ⟨hground, hclosed⟩ :=
      Strata.isClosed_of_facts? (Strata.isPlaced_of_settle hS) hφs t ht f as b hb
    exact holds_of_isClosed (hrules t ht) hb hground hclosed
  · refine Strata.facts?_induct hφs (fun t ht φs ψs hproof hfire => ?_) .nil
    obtain ⟨f, as, b, ds, v, hb, hds, hv, ⟨rfl, -, rfl⟩ | ⟨-, rfl⟩⟩ := Strata.fire_cases hfire
    · exact hproof.snoc (followsBy_of_truthIn? ht (hrules t ht) hb hds (haffirm t ht f as b hb) hv)
    · exact hproof

/-- **A goal is answered by its truth in a model of the rules.** -/
theorem exists_holds_iff_of_followsFrom? (hrules : ∀ t ∈ rules, t.IsClosed .all)
    (hheads : ∀ t ∈ rules, t.headAndBody?.isSome) (hgoal : goal.IsClosed .any)
    (h : goal.followsFrom? rules = some p) :
    ∃ J, (∀ t ∈ rules, t.Holds J) ∧ (goal.Holds J ↔ p = true) := by
  obtain ⟨φs, htruth, hholds, -⟩ := exists_of_followsFrom? hrules hheads h
  refine ⟨_, hholds, ?_⟩
  have hmeans : ∀ env, sortsOf env = goal.context →
      (Means (.ofFacts φs) env goal.matrix (.ofBool true) ↔ p = true) := by
    intro env henv
    have hform : goal.matrix.IsFormula (sortsOf env) := henv ▸ hgoal.toIsFormula.matrix
    rw [(hform.means_of_truthIn? htruth).iff_eq, ofBool_inj]
  rw [hgoal.holds_any_iff]
  constructor
  · rintro ⟨env, henv, hholds⟩
    exact (hmeans env henv).mp hholds
  · intro hp
    obtain ⟨env, henv⟩ := exists_sortsOf goal.context
    exact ⟨env, henv, (hmeans env henv).mpr hp⟩

/-- **Where nothing is denied, a goal that is true follows from the rules.** -/
theorem holds_of_followsFrom? (hrules : ∀ t ∈ rules, t.IsClosed .all)
    (hheads : ∀ t ∈ rules, t.headAndBody?.isSome) (hgoal : goal.IsClosed .any)
    (haffirm : ∀ t ∈ rules, t.Affirms) (hocc : ∀ e ∈ goal.matrix.occurrences true, e.2 = true)
    (h : goal.followsFrom? rules = some true) {J : Interpretation} (hJ : ∀ t ∈ rules, t.Holds J) :
    goal.Holds J := by
  obtain ⟨φs, htruth, -, hproof⟩ := exists_of_followsFrom? hrules hheads h
  obtain ⟨env, henv⟩ := exists_sortsOf goal.context
  have hform : goal.matrix.IsFormula (sortsOf env) := henv ▸ hgoal.toIsFormula.matrix
  exact hgoal.holds_any_iff.mpr
    ⟨env, henv, hform.means_of_facts hocc ((hproof haffirm).holds hJ) htruth⟩

end Term

end Horn

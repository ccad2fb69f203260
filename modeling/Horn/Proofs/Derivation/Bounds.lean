import Horn.Derivation.Bounds
import Horn.Proofs.Derivation.Saturation

/-!
Bounds that clauses keep. Main statement: if no case of a goal is within bounds that no clause breaks, then
some interpretation satisfies the clauses and no case of the goal.
-/

namespace Horn

open Element Term

/-- The value as a number, of which a Boolean is 1 or 0; an array counts as 0. -/
def Element.number : Element → Int
  | ⟨.int, n⟩ => n
  | ⟨.bool, b⟩ => Bool.toInt b
  | ⟨.array _ _, _⟩ => 0

namespace Element

@[simp] lemma number_ofInt (n : Int) : (ofInt n).number = n := rfl

@[simp] lemma number_ofBool (b : Bool) : (ofBool b).number = b.toInt := rfl

end Element

namespace Interval

/-- The number lies between the bounds. -/
def Has (I : Interval) (n : Int) : Prop :=
  (∀ a ∈ I.least, a ≤ n) ∧ ∀ b ∈ I.greatest, n ≤ b

variable {I J : Interval} {m n gap : Int}

lemma has_full (n : Int) : full.Has n := ⟨nofun, nofun⟩

@[simp] lemma has_single_iff : (single m).Has n ↔ n = m := by
  simp [Has, single]
  omega

lemma has_ofSort (x : Element) : (ofSort x.sort).Has x.number := by
  obtain ⟨s, v⟩ := x
  cases s with
  | bool => cases (v : Bool) <;> simp [Has, ofSort, bools, Element.number, Bool.toInt]
  | _ => exact has_full _

lemma Has.isEmpty_eq_false (h : I.Has n) : I.isEmpty = false := by
  obtain ⟨_ | a, _ | b⟩ := I <;> simp_all [Has, isEmpty]
  omega

lemma Has.meet (h : I.Has n) (h' : J.Has n) : (I.meet J).Has n := by
  obtain ⟨_ | a, _ | b⟩ := I <;> obtain ⟨_ | c, _ | d⟩ := J <;>
    simp only [Has, Interval.meet, Option.merge, Option.mem_def, Option.some.injEq, forall_eq',
      reduceCtorEq, false_implies, implies_true, true_and, and_true] at * <;> omega

lemma has_hull (h : I.Has n ∨ J.Has n) : (I.hull J).Has n := by
  obtain ⟨_ | a, _ | b⟩ := I <;> obtain ⟨_ | c, _ | d⟩ := J <;>
    simp_all [Has, Interval.hull] <;> omega

lemma Has.add (h : I.Has m) (h' : J.Has n) : (I.add J).Has (m + n) := by
  obtain ⟨_ | a, _ | b⟩ := I <;> obtain ⟨_ | c, _ | d⟩ := J <;>
    simp_all [Has, Interval.add] <;> omega

lemma Has.neg (h : I.Has n) : I.neg.Has (-n) := by
  obtain ⟨_ | a, _ | b⟩ := I <;> simp_all [Has, Interval.neg]

lemma Has.sub (h : I.Has m) (h' : J.Has n) : (I.sub J).Has (m - n) := by
  rw [Int.sub_eq_add_neg]
  exact h.add h'.neg

lemma Has.below (h : I.Has n) (hm : m + gap ≤ n) : (I.below gap).Has m := by
  obtain ⟨_ | a, _ | b⟩ := I <;> simp_all [Has, Interval.below] <;> omega

lemma Has.above (h : I.Has m) (hm : m + gap ≤ n) : (I.above gap).Has n := by
  obtain ⟨_ | a, _ | b⟩ := I <;> simp_all [Has, Interval.above] <;> omega

/-- The bounds that are kept are respected. -/
lemma Has.keep (h : J.Has n) : (I.keep J).Has n := by
  obtain ⟨hleast, hgreatest⟩ := h
  constructor
  · intro a ha
    obtain ⟨-, ha⟩ := Option.mem_filter_iff.mp ha
    obtain ⟨c, hc, hac⟩ := Option.any_eq_true _ _ |>.mp ha
    exact Int.le_trans (of_decide_eq_true hac) (hleast c hc)
  · intro b hb
    obtain ⟨-, hb⟩ := Option.mem_filter_iff.mp hb
    obtain ⟨d, hd, hdb⟩ := Option.any_eq_true _ _ |>.mp hb
    exact Int.le_trans (hgreatest d hd) (of_decide_eq_true hdb)

end Interval

/-! ### Ranges of terms -/

/-- The variables lie within the ranges. -/
def Ranges.Fits (ρ : Ranges) (env : List Element) : Prop :=
  ∀ i I x, ρ.lookup i = some I → env[i]? = some x → I.Has x.number

namespace Term

variable {J : Interpretation} {env : List Element} {ρ : Ranges} {t : Term} {x : Element}
  {I : Interval}

/-- **The range of a term holds its value.** -/
lemma Evaluates.has_range (h : Evaluates J env t x) (hρ : ρ.Fits env) :
    (t.range ρ).Has x.number := by
  fun_induction range ρ t generalizing x with
  | case1 b => rw [h.means.unique (means_bool b), number_ofBool, Interval.has_single_iff]
  | case2 n => rw [h.means.unique (means_int n), number_ofInt, Interval.has_single_iff]
  | case3 i r =>
    have hs : r = x.sort := h.means.sort.symm
    rw [hs]
    refine (Interval.has_ofSort x).meet ?_
    rcases hI : ρ.lookup i with _ | I
    · exact Interval.has_full _
    · exact hρ i I x hI h.var
  | case4 a b iha ihb =>
    obtain ⟨m, n, hm, hn, rfl⟩ := h.onInts rfl
    exact (iha hm).add (ihb hn)
  | case5 a b iha ihb =>
    obtain ⟨m, n, hm, hn, rfl⟩ := h.onInts rfl
    exact (iha hm).sub (ihb hn)
  | case6 c a b iha ihb =>
    obtain ⟨p, y, z, -, hy, hz, rfl⟩ := h.ite
    refine Interval.has_hull ?_
    cases p with
    | true => exact .inl (iha hy)
    | false => exact .inr (ihb hz)
  | case7 t =>
    rw [← h.means.sort]
    exact Interval.has_ofSort x

lemma fits_cons {i : Nat} (hρ : ρ.Fits env) (hi : env[i]? = some x) (hI : I.Has x.number) :
    Ranges.Fits ((i, I) :: ρ) env := by
  intro j K y hK hy
  rw [List.lookup_cons] at hK
  split at hK
  · rename_i hji
    cases hK
    rw [beq_iff_eq.mp hji, hi] at hy
    cases hy
    exact hI
  · exact hρ j K y hK hy

/-- **Narrowing loses no values**: some ranges are left, and the variables lie within them, if the value
of the term lies in the interval. -/
lemma Evaluates.narrow (h : Evaluates J env t x) (hρ : ρ.Fits env) (hI : I.Has x.number) :
    ∃ ρ', t.narrow I ρ = some ρ' ∧ ρ'.Fits env := by
  fun_induction Term.narrow I ρ t generalizing x with
  | case1 =>
    rename_i t I ρ K hempty
    have hK : K.Has x.number := (h.has_range hρ).meet hI
    rw [hK.isEmpty_eq_false] at hempty
    cases hempty
  | case2 =>
    exact ⟨_, rfl, fits_cons hρ h.var ((h.has_range hρ).meet hI)⟩
  | case3 =>
    rename_i I ρ a b K hempty iha ihb
    have hK : K.Has x.number := (h.has_range hρ).meet hI
    obtain ⟨m, n, hm, hn, rfl⟩ := h.onInts rfl
    obtain ⟨ρ', hρ', hfits⟩ := iha hm hρ (by simpa using hK.sub (hn.has_range hρ))
    have hb := hK.sub (hm.has_range hfits)
    rw [number_ofInt, number_ofInt, Int.add_comm, Int.add_sub_cancel] at hb
    obtain ⟨ρ'', hρ'', hfits'⟩ := ihb ρ' hn hfits hb
    exact ⟨ρ'', by rw [hρ']; exact hρ'', hfits'⟩
  | case4 =>
    rename_i I ρ a b K hempty iha ihb
    have hK : K.Has x.number := (h.has_range hρ).meet hI
    obtain ⟨m, n, hm, hn, rfl⟩ := h.onInts rfl
    obtain ⟨ρ', hρ', hfits⟩ := iha hm hρ (by simpa using hK.add (hn.has_range hρ))
    have hb := (hm.has_range hfits).sub hK
    rw [number_ofInt, number_ofInt, Int.sub_sub_self] at hb
    obtain ⟨ρ'', hρ'', hfits'⟩ := ihb ρ' hn hfits hb
    exact ⟨ρ'', by rw [hρ']; exact hρ'', hfits'⟩
  | case5 =>
    rename_i I ρ c K hempty ih
    have hK : K.Has x.number := (h.has_range hρ).meet hI
    obtain ⟨p, hp, rfl⟩ := h.boolToInt
    refine ih hp hρ ?_
    cases p <;> exact hK
  | case6 => exact ⟨_, rfl, hρ⟩

/-- Two terms, one below the other, are narrowed by that. -/
lemma Evaluates.narrowOrder {a b : Term} {gap m n : Int} (ha : Evaluates J env a (.ofInt m))
    (hb : Evaluates J env b (.ofInt n)) (hmn : m + gap ≤ n) (hρ : ρ.Fits env) :
    ∃ ρ', a.narrowOrder gap ρ b = some ρ' ∧ ρ'.Fits env := by
  obtain ⟨ρ', hρ', hfits⟩ := ha.narrow hρ ((hb.has_range hρ).below hmn)
  obtain ⟨ρ'', hρ'', hfits'⟩ := hb.narrow hfits ((ha.has_range hfits).above hmn)
  exact ⟨ρ'', by rw [Term.narrowOrder, hρ']; exact hρ'', hfits'⟩

/-- **A formula with a truth value is narrowed by it**, and loses no values either. -/
lemma Evaluates.narrowTruth {p : Bool} (h : Evaluates J env t (.ofBool p)) (hρ : ρ.Fits env) :
    ∃ ρ', t.narrowTruth ρ p = some ρ' ∧ ρ'.Fits env := by
  fun_induction Term.narrowTruth ρ p t with
  | case1 ρ v a ih =>
    obtain ⟨p, hp, hpv⟩ := h.not
    rw [ofBool_inj] at hpv
    exact ih (by rwa [hpv, Bool.not_not]) hρ
  | case2 ρ a b iha ihb =>
    obtain ⟨p, q, hp, hq, hpq⟩ := h.onBools rfl
    obtain ⟨rfl, rfl⟩ := Bool.and_eq_true_iff.mp hpq
    obtain ⟨ρ', hρ', hfits⟩ := iha hp hρ
    obtain ⟨ρ'', hρ'', hfits'⟩ := ihb ρ' hq hfits
    exact ⟨ρ'', by rw [hρ']; exact hρ'', hfits'⟩
  | case3 ρ a b iha ihb =>
    obtain ⟨p, q, hp, hq, hpq⟩ := h.onBools rfl
    obtain ⟨rfl, rfl⟩ := Bool.or_eq_false_iff.mp hpq
    obtain ⟨ρ', hρ', hfits⟩ := iha hp hρ
    obtain ⟨ρ'', hρ'', hfits'⟩ := ihb ρ' hq hfits
    exact ⟨ρ'', by rw [hρ']; exact hρ'', hfits'⟩
  | case4 ρ a b =>
    obtain ⟨x, y, p, ha, hb, hp, hxy⟩ := h.eq
    obtain rfl := hxy.mp (ofBool_inj.mp hp).symm
    obtain ⟨ρ', hρ', hfits⟩ := ha.narrow hρ (hb.has_range hρ)
    obtain ⟨ρ'', hρ'', hfits'⟩ := hb.narrow hfits (ha.has_range hfits)
    exact ⟨ρ'', by rw [hρ']; exact hρ'', hfits'⟩
  | case5 ρ a b | case6 ρ a b | case7 ρ a b | case8 ρ a b | case9 ρ a b | case10 ρ a b
  | case11 ρ a b | case12 ρ a b =>
    obtain ⟨m, n, hm, hn, hmn⟩ := h.onInts rfl
    have hmn := ofBool_inj.mp hmn
    first
    | exact hm.narrowOrder hn (by simp at hmn; omega) hρ
    | exact hn.narrowOrder hm (by simp at hmn; omega) hρ
  | case13 => exact h.narrow hρ (by simp)

end Term

/-! ### Facts within bounds -/

lemma Ranges.exists_foldlM {α : Type} {g : Ranges → α → Option Ranges} {as : List α} {ρ : Ranges}
    {env : List Element}
    (hg : ∀ a ∈ as, ∀ ρ : Ranges, ρ.Fits env → ∃ ρ', g ρ a = some ρ' ∧ ρ'.Fits env)
    (hρ : ρ.Fits env) : ∃ ρ', as.foldlM g ρ = some ρ' ∧ ρ'.Fits env := by
  induction as generalizing ρ with
  | nil => exact ⟨ρ, rfl, hρ⟩
  | cons a as ih =>
    obtain ⟨ρ', hρ', hfits⟩ := hg a List.mem_cons_self ρ hρ
    rw [List.foldlM_cons, hρ', Option.bind_eq_bind, Option.bind_some]
    exact ih (fun b hb => hg b (List.mem_cons_of_mem _ hb)) hfits

namespace Bounds

variable {β : Bounds} {c : Case} {l : Literal} {J : Interpretation} {env : List Element} {ρ : Ranges}

/-- The values lie within the bounds of the relation. -/
def Has (β : Bounds) (f : Symbol) (xs : List Element) : Prop :=
  ∃ Is, β.lookup f = some Is ∧ ∀ p ∈ List.zip xs Is, p.2.Has p.1.number

/-- The interpretation in which relations hold of all that lies within their bounds. -/
noncomputable def interpretation (β : Bounds) : Interpretation := .ofRelations β.Has

/-- Terms whose values lie within intervals, one by one. -/
lemma exists_of_mem_zip {as : List Term} {xs : List Element} {Is : List Interval}
    (hxs : List.Forall₂ (Evaluates J env) as xs) (h : ∀ p ∈ List.zip xs Is, p.2.Has p.1.number) :
    ∀ q ∈ List.zip as Is, ∃ x, Evaluates J env q.1 x ∧ q.2.Has x.number := by
  induction hxs generalizing Is with
  | nil => nofun
  | cons hx _ ih =>
    cases Is with
    | nil => nofun
    | cons I Is =>
      rw [List.zip_cons_cons, List.forall_mem_cons] at h ⊢
      exact ⟨⟨_, hx, h.1⟩, ih h.2⟩

lemma narrowLiteral_fits (hl : l.formula.IsFormula (sortsOf env)) (h : l.Holds β.interpretation env)
    (hρ : ρ.Fits env) : ∃ ρ', β.narrowLiteral ρ l = some ρ' ∧ ρ'.Fits env := by
  cases l with
  | test t => exact Evaluates.narrowTruth ⟨hl.hasSort, hl.isScoped, h⟩ hρ
  | fact f as =>
    obtain ⟨-, has, hscoped⟩ := hl.args
    obtain ⟨xs, hxs⟩ := exists_evaluates (J := β.interpretation) has hscoped
    obtain ⟨Is, hIs, hall⟩ := (means_ofRelations_iff hl (hxs.imp fun _ _ h => h.means)).mp h
    rw [narrowLiteral, hIs, Option.bind_eq_bind, Option.bind_some]
    refine Ranges.exists_foldlM (fun q hq ρ hρ => ?_) hρ
    obtain ⟨x, hx, hI⟩ := exists_of_mem_zip hxs hall q hq
    exact hx.narrow hρ hI

/-- **Where a case holds within bounds, its variables lie within its ranges.** -/
lemma rangesOf_fits (hc : Case.IsFormula (sortsOf env) c) (h : Case.Holds c β.interpretation env) :
    ∃ ρ, β.rangesOf c = some ρ ∧ ρ.Fits env := by
  refine Ranges.exists_foldlM (fun _ _ ρ hρ => ?_) nofun
  exact Ranges.exists_foldlM (fun l hl ρ hρ => narrowLiteral_fits (hc l hl) (h l hl) hρ) hρ

/-! ### Bounds that no clause breaks -/

/-- The bounds without those that some facts of a clause break, whose variables lie within ranges. -/
def weakenBy (c : Clause) (β : Bounds) (ρ : Ranges) : Bounds :=
  match β.lookup c.relation with
  | some Is =>
    let Js := List.zipWith (fun I a => I.keep (Term.range ρ a)) Is c.args
    if Is == Js then β else (c.relation, Js) :: β.filter fun e => e.1 != c.relation
  | none => (c.relation, c.args.map fun _ => .full) :: β

lemma weaken_eq (β : Bounds) (c : Clause) :
    β.weaken c = (c.cases.filterMap β.rangesOf).foldl (weakenBy c) β := rfl

/-- How much intervals say: how many there are and how many bounds they have. -/
def weightOf : List Interval → Nat
  | [] => 0
  | I :: Is => 1 + I.least.toList.length + I.greatest.toList.length + weightOf Is

/-- How much bounds say of the relation of a clause, which is most if it holds of nothing. -/
def weight (c : Clause) (β : Bounds) : Nat :=
  match β.lookup c.relation with
  | some Is => weightOf Is
  | none => c.args.length + 1

lemma weightOf_replicate (n : Nat) : weightOf (List.replicate n Interval.full) = n := by
  induction n with
  | zero => rfl
  | succ n ih =>
    rw [List.replicate_succ, weightOf, ih]
    exact Nat.add_comm 1 n

lemma filter_eq_or_lt (o : Option Int) (p : Int → Bool) :
    o.filter p = o ∨ (o.filter p).toList.length < o.toList.length := by
  cases o with
  | none => exact .inl rfl
  | some a =>
    rw [Option.filter_some]
    split <;> simp

/-- All bounds are kept or some are dropped. -/
lemma keep_eq_or_lt (I R : Interval) : I.keep R = I ∨
    (I.keep R).least.toList.length + (I.keep R).greatest.toList.length <
      I.least.toList.length + I.greatest.toList.length := by
  obtain ⟨l, g⟩ := I
  unfold Interval.keep
  rcases filter_eq_or_lt l fun a => R.least.any (a ≤ ·) with hl | hl <;>
    rcases filter_eq_or_lt g fun b => R.greatest.any (· ≤ b) with hg | hg
  · exact .inl (by rw [hl, hg])
  · right
    rw [hl]
    exact Nat.add_lt_add_left hg _
  · right
    rw [hg]
    exact Nat.add_lt_add_right hl _
  · exact .inr (Nat.add_lt_add hl hg)

lemma zipWith_keep_eq_or_lt (ρ : Ranges) (Is : List Interval) (as : List Term) :
    List.zipWith (fun I a => I.keep (Term.range ρ a)) Is as = Is ∨
      weightOf (List.zipWith (fun I a => I.keep (Term.range ρ a)) Is as) < weightOf Is := by
  induction Is generalizing as with
  | nil => exact .inl (by simp)
  | cons I Is ih =>
    cases as with
    | nil =>
      right
      rw [List.zipWith_nil_right, weightOf, weightOf]
      omega
    | cons a as =>
      rw [List.zipWith_cons_cons, weightOf, weightOf]
      rcases keep_eq_or_lt I (a.range ρ) with hI | hI <;> rcases ih as with hIs | hIs
      · exact .inl (by rw [hI, hIs])
      · rw [hI]
        omega
      · rw [hIs]
        omega
      · omega

lemma weakenBy_eq_or_lt (c : Clause) (β : Bounds) (ρ : Ranges) :
    weakenBy c β ρ = β ∨ weight c (weakenBy c β ρ) < weight c β := by
  unfold weakenBy
  split
  · rename_i Is hIs
    rcases zipWith_keep_eq_or_lt ρ Is c.args with heq | hlt
    · exact .inl (by simp [heq])
    · right
      have hne : (Is == List.zipWith (fun I a => I.keep (Term.range ρ a)) Is c.args) = false := by
        rw [beq_eq_false_iff_ne]
        intro heq
        rw [← heq] at hlt
        omega
      simpa [hne, weight, hIs] using hlt
  · rename_i hnone
    right
    simp [weight, hnone, weightOf_replicate]

/-- Steps that never raise a weight, and lower it where they change something, change nothing if they do
not in the end. -/
lemma eq_of_foldl_eq {α : Type} {g : Bounds → α → Bounds} {w : Bounds → Nat}
    (hg : ∀ β a, g β a = β ∨ w (g β a) < w β) {as : List α} (h : as.foldl g β = β) :
    ∀ a ∈ as, g β a = β := by
  have hle : ∀ (as : List α) β, w (as.foldl g β) ≤ w β := by
    intro as
    induction as with
    | nil => exact fun β => le_refl _
    | cons a as ih =>
      intro β
      refine (ih (g β a)).trans ?_
      rcases hg β a with heq | hlt
      · rw [heq]
      · exact hlt.le
  induction as with
  | nil => nofun
  | cons a as ih =>
    have heq : g β a = β := by
      refine (hg β a).resolve_right fun hlt => ?_
      have h' := hle as (g β a)
      rw [← List.foldl_cons, h] at h'
      omega
    rw [List.foldl_cons, heq] at h
    exact List.forall_mem_cons.mpr ⟨heq, ih h⟩

/-- What is not weakened are intervals of the relation, all of whose bounds are kept. -/
lemma exists_of_weakenBy_eq {c : Clause} (h : weakenBy c β ρ = β) : ∃ Is,
    β.lookup c.relation = some Is ∧
      List.zipWith (fun I a => I.keep (Term.range ρ a)) Is c.args = Is := by
  unfold weakenBy at h
  split at h
  · rename_i Is hIs
    refine ⟨Is, hIs, ?_⟩
    dsimp only at h
    split at h
    · exact (beq_iff_eq.mp ‹_›).symm
    · rw [← h] at hIs
      simpa using hIs
  · have hlen := congrArg List.length h
    simp at hlen

/-- Values lie within what is kept of intervals. -/
lemma has_of_mem_zip {as : List Term} {xs : List Element}
    (hxs : List.Forall₂ (Evaluates J env) as xs) (hρ : ρ.Fits env) (Is : List Interval) :
    ∀ p ∈ List.zip xs (List.zipWith (fun I a => I.keep (Term.range ρ a)) Is as),
      p.2.Has p.1.number := by
  induction hxs generalizing Is with
  | nil => simp
  | cons hx _ ih =>
    cases Is with
    | nil => simp
    | cons I Is =>
      rw [List.zipWith_cons_cons, List.zip_cons_cons, List.forall_mem_cons]
      exact ⟨(hx.has_range hρ).keep, ih Is⟩

variable {rules : List Term} {cs : List Clause} {goal : List Case} {facts : List Fact}
  {Δ : List TermSort}

/-- **Bounds that no clause breaks satisfy the rules.** -/
lemma holds_of_isKept (hcs : IsClauses rules cs) (h : β.isKept cs = true) :
    ∀ t ∈ rules, t.Holds β.interpretation := by
  intro t ht
  obtain ⟨c, hc, hct⟩ := hcs.clause t ht
  obtain ⟨hform, hiff⟩ := Clause.ofRule?_iff (hcs.closed t ht) hct
  rw [hiff]
  intro env henv b hb hholds
  rw [← henv] at hform
  obtain ⟨ρ, hρ, hfits⟩ := rangesOf_fits (hform.cases b hb) hholds
  have hkept := beq_iff_eq.mp (List.all_eq_true.mp h c hc)
  rw [weaken_eq] at hkept
  obtain ⟨Is, hIs, hkeep⟩ := exists_of_weakenBy_eq
    (eq_of_foldl_eq (weakenBy_eq_or_lt c) hkept ρ (List.mem_filterMap.mpr ⟨b, hb, hρ⟩))
  obtain ⟨-, has, hscoped⟩ := hform.head.args
  obtain ⟨xs, hxs⟩ := exists_evaluates (J := β.interpretation) has hscoped
  refine (means_ofRelations_iff hform.head (hxs.imp fun _ _ h => h.means)).mpr ⟨Is, hIs, ?_⟩
  rw [← hkeep]
  exact has_of_mem_zip hxs hfits Is

lemma isKept_of_settle {n : Nat} {β' : Bounds} (h : settle cs n β = some β') :
    β'.isKept cs = true := by
  fun_induction settle cs n β with
  | case1 => cases h
  | case2 n β hkept =>
    cases h
    exact hkept
  | case3 n β _ ih => exact ih h

/-- **A goal that contradicts bounds fails** somewhere where all rules hold. -/
theorem exists_of_refutes (hcs : IsClauses rules cs) (hgoal : ∀ c ∈ goal, Case.IsFormula Δ c)
    (h : refutes cs facts goal = true) : ∃ J, (∀ t ∈ rules, t.Holds J) ∧
      ∀ c ∈ goal, ∀ env, sortsOf env = Δ → ¬ Case.Holds c J env := by
  obtain ⟨β, hβ, hnone⟩ := (Option.any_eq_true _ _).mp h
  refine ⟨β.interpretation, holds_of_isKept hcs (isKept_of_settle hβ), ?_⟩
  intro c hc env henv hholds
  obtain ⟨ρ, hρ, -⟩ := rangesOf_fits (henv ▸ hgoal c hc) hholds
  have hc := List.all_eq_true.mp hnone c hc
  rw [hρ] at hc
  cases hc

end Bounds

end Horn

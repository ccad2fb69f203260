import Horn.Proofs.Semantics.Expr
import Horn.Proofs.Shape

/-!
The value of a translated term is the value of its expression. The term is built under strict readings,
with casts where the expression is read loosely; each builder is shown to give the value that the operator
gives under the loose reading.
-/

namespace Horn

open Element

namespace Term

variable {I : Interpretation} {env : List Element}

/-- The term has the value, which is of its sort. -/
structure Means (I : Interpretation) (env : List Element) (t : Term) (x : Element) : Prop where
  value : t.value? I env = some x
  sort : x.sort = t.sort

/-! ### Values of single terms -/

section

variable {t : Term} {x : Element} {s : TermSort}

/-- A value with the sort of its term. -/
lemma Means.exists_mk (h : Means I env t x) (hs : t.sort = s) : ∃ v, x = ⟨s, v⟩ := by
  have hx := h.sort
  rw [hs] at hx
  subst hx
  exact ⟨x.val, rfl⟩

lemma Means.exists_int (h : Means I env t x) (hs : t.sort = .int) : ∃ n, x = .ofInt n :=
  h.exists_mk hs

lemma Means.exists_bool (h : Means I env t x) (hs : t.sort = .bool) : ∃ b, x = .ofBool b :=
  h.exists_mk hs

lemma means_int (n : Int) : Means I env (.int n) (.ofInt n) := ⟨by rw [value?], rfl⟩

lemma means_bool (b : Bool) : Means I env (.bool b) (.ofBool b) := ⟨by rw [value?], rfl⟩

lemma values?_of_forall₂ {ts : List Term} {xs : List Element}
    (h : List.Forall₂ (Means I env) ts xs) : values? I env ts = some xs := by
  induction h with
  | nil => rw [values?]
  | cons hx _ ih => rw [values?, hx.value, ih]; rfl

/-- An operator over terms means what the operator gives for their values. -/
lemma Means.op {o : Operator} {ts : List Term} {xs : List Element} {v : Element}
    (h : List.Forall₂ (Means I env) ts xs) (hv : o.value? strict I.byZero xs = some v)
    (hs : v.sort = (Term.op o ts).sort) : Means I env (.op o ts) v :=
  ⟨by rw [value?, values?_of_forall₂ h]; exact hv, hs⟩

end

end Term

namespace Element

@[simp] lemma strict_ofInt (n : Int) : strict .int (ofInt n) = some n := strict_mk .int n

@[simp] lemma strict_ofBool (b : Bool) : strict .bool (ofBool b) = some b := strict_mk .bool b

@[simp] lemma loose_ofInt (n : Int) : loose .int (ofInt n) = some n := loose_mk .int n

@[simp] lemma loose_ofBool (b : Bool) : loose .bool (ofBool b) = some b := loose_mk .bool b

/-- A Boolean is 1 or 0 where an integer is wanted. -/
@[simp] lemma loose_int_ofBool (b : Bool) :
    loose .int (ofBool b) = some (cond b (1 : Int) (0 : Int)) := rfl

lemma meet?_of_sort_eq {read : Reading} {x y : Element} (h : x.sort = y.sort) :
    x.meet? read y = some (x, y) := if_pos h

lemma meet?_of_sort_ne {read : Reading} {x y : Element} {m n : Int} (h : x.sort ≠ y.sort)
    (hx : read .int x = some m) (hy : read .int y = some n) :
    x.meet? read y = some (ofInt m, ofInt n) := by
  unfold meet?
  rw [if_neg h, hx, hy]
  rfl

end Element

namespace Term

variable {I : Interpretation} {env : List Element}

section

variable {a b c a' b' u : Term} {x y z : Element}

lemma means_ite {p : Bool} (hc : Means I env c (.ofBool p)) (ha : Means I env a x)
    (hb : Means I env b y) (hs : x.sort = y.sort) :
    Means I env (.op .ite [c, a, b]) (cond p x y) := by
  refine Means.op (.cons hc (.cons ha (.cons hb .nil))) ?_ ?_
  · exact Operator.value?_ite (strict_ofBool p) (meet?_of_sort_eq hs)
  · rw [sort, ← ha.sort]
    cases p
    · exact hs.symm
    · rfl

/-- **A cast Boolean means 1 or 0.** -/
lemma Means.boolToInt {p : Bool} (h : Means I env a (.ofBool p)) :
    Means I env a.boolToInt (.ofInt (cond p 1 0)) := by
  have hm := means_ite h (means_int 1) (means_int 0) rfl
  cases p <;> exact hm

/-- **A cast term means what its value stands for.** -/
lemma castTo_means {s : TermSort} (h : castTo s a = .ok u) (ha : Means I env a x) :
    ∃ v, loose s x = some v ∧ Means I env u ⟨s, v⟩ := by
  unfold castTo at h
  split at h
  · rename_i hs
    cases h
    obtain ⟨v, rfl⟩ := ha.exists_mk hs
    exact ⟨v, loose_mk s v, ha⟩
  · split at h
    · rename_i hs _
      cases h
      obtain ⟨p, rfl⟩ := ha.exists_bool hs
      exact ⟨_, loose_int_ofBool p, ha.boolToInt⟩
    · cases h
    · cases h

/-- Cast arguments mean what the values stand for where those of the given sorts are wanted. -/
lemma castAll_means {ss : List TermSort} {ts us : List Term} {xs : List Element}
    (h : castAll ss ts = .ok us) (hl : ss.length = ts.length)
    (ht : List.Forall₂ (Means I env) ts xs) : ∃ ys, readAll? loose ss xs = some ys ∧
      readAll? strict ss ys = some ys ∧ List.Forall₂ (Means I env) us ys := by
  induction ss generalizing ts us xs with
  | nil =>
    cases ht with
    | nil =>
      unfold castAll at h
      cases h
      exact ⟨[], rfl, rfl, .nil⟩
    | cons _ _ => cases hl
  | cons s ss ih =>
    cases ht with
    | nil => cases hl
    | cons hx ht =>
      obtain ⟨u, us, hu, hus, rfl⟩ := castAll_cons_eq_ok h
      obtain ⟨v, hv, hm⟩ := castTo_means hu hx
      obtain ⟨ys, hys, hstrict, hms⟩ := ih hus (Nat.succ.inj hl) ht
      refine ⟨⟨s, v⟩ :: ys, ?_, ?_, .cons hm hms⟩
      · rw [readAll?, hv, hys]
        rfl
      · rw [readAll?, strict_mk, hstrict]
        rfl

/-- **Two terms made integers** mean what their values stand for as integers. -/
lemma meetInt_means (h : meetInt a b = .ok (a', b')) (ha : Means I env a x)
    (hb : Means I env b y) : ∃ m n : Int, loose .int x = some m ∧ loose .int y = some n ∧
      Means I env a' (.ofInt m) ∧ Means I env b' (.ofInt n) := by
  unfold meetInt at h
  split at h
  · rename_i hsa hsb
    cases h
    obtain ⟨m, rfl⟩ := ha.exists_int hsa
    obtain ⟨n, rfl⟩ := hb.exists_int hsb
    exact ⟨m, n, loose_ofInt m, loose_ofInt n, ha, hb⟩
  · rename_i hsa hsb
    cases h
    obtain ⟨m, rfl⟩ := ha.exists_int hsa
    obtain ⟨q, rfl⟩ := hb.exists_bool hsb
    exact ⟨m, _, loose_ofInt m, loose_int_ofBool q, ha, hb.boolToInt⟩
  · rename_i hsa hsb
    cases h
    obtain ⟨p, rfl⟩ := ha.exists_bool hsa
    obtain ⟨n, rfl⟩ := hb.exists_int hsb
    exact ⟨_, n, loose_int_ofBool p, loose_ofInt n, ha.boolToInt, hb⟩
  · cases h

/-- **Two terms brought to one sort** mean their values brought to one sort. -/
lemma meet_means (h : meet a b = .ok (a', b')) (ha : Means I env a x) (hb : Means I env b y) :
    ∃ x' y', x.meet? loose y = some (x', y') ∧ x'.sort = y'.sort ∧ Means I env a' x' ∧
      Means I env b' y' := by
  unfold meet at h
  split at h
  · rename_i hsa hsb
    cases h
    obtain ⟨m, rfl⟩ := ha.exists_int hsa
    obtain ⟨q, rfl⟩ := hb.exists_bool hsb
    exact ⟨_, _, meet?_of_sort_ne nofun (loose_ofInt m) (loose_int_ofBool q), rfl, ha, hb.boolToInt⟩
  · rename_i hsa hsb
    cases h
    obtain ⟨p, rfl⟩ := ha.exists_bool hsa
    obtain ⟨n, rfl⟩ := hb.exists_int hsb
    exact ⟨_, _, meet?_of_sort_ne nofun (loose_int_ofBool p) (loose_ofInt n), rfl, ha.boolToInt, hb⟩
  · split at h
    · rename_i hs
      cases h
      have hsort : x.sort = y.sort := by rw [ha.sort, hb.sort, hs]
      exact ⟨x, y, meet?_of_sort_eq hsort, hsort, ha, hb⟩
    · cases h

end

end Term

/-! ### Operators -/

namespace Operator

def onInts : Operator → Bool
  | .lt | .le | .gt | .ge | .add | .sub | .mul | .div => true
  | _ => false

section

variable {o : Operator} {z : Int → Int}

/-- What an operator on integers gives is of the sort that its terms have. -/
lemma exists_onInts? (ho : o.onInts = true) : ∃ f, o.onInts? z = some f ∧
    ∀ (ts : List Term) (m n : Int), (f m n).sort = (Term.op o ts).sort := by
  cases o with
  | ite | not | and | or | implies | eq | select | store => cases ho
  | lt | le | gt | ge | add | sub | mul | div => exact ⟨_, rfl, fun _ _ _ => rfl⟩

def compares : Operator → Bool
  | .lt | .le | .gt | .ge => true
  | _ => false

/-- A comparison turned round says the same of the operands the other way round. -/
lemma exists_turned (ho : o.compares = true) : ∃ f, o.onInts? z = some f ∧
    (Term.turned o).onInts? z = some (fun n m => f m n) ∧ o.onInts = true ∧
    ∀ (ts : List Term) (m n : Int), (f m n).sort = (Term.op (Term.turned o) ts).sort := by
  cases o with
  | ite | not | and | or | implies | eq | add | sub | mul | div | select | store => cases ho
  | lt | le | gt | ge => exact ⟨_, rfl, rfl, rfl, fun _ _ _ => rfl⟩

end

end Operator

namespace Term

variable {I : Interpretation} {env : List Element}

/-- The term means what the operator gives for the values of its operands. -/
def MeansOp (I : Interpretation) (env : List Element) (t : Term) (o : Operator)
    (xs : List Element) : Prop :=
  ∃ v, o.value? loose I.byZero xs = some v ∧ Means I env t v

section

variable {o : Operator} {a b c u : Term} {x y z : Element}

lemma meansOp_onInts {a' b' : Term} {m n : Int} (ho : o.onInts = true)
    (hx : loose .int x = some m) (hy : loose .int y = some n) (ha : Means I env a' (.ofInt m))
    (hb : Means I env b' (.ofInt n)) : MeansOp I env (.op o [a', b']) o [x, y] := by
  obtain ⟨f, hf, hs⟩ := Operator.exists_onInts? (z := I.byZero) ho
  refine ⟨f m n, Operator.value?_onInts hf hx hy, .op (.cons ha (.cons hb .nil)) ?_ (hs _ m n)⟩
  exact Operator.value?_onInts hf (strict_ofInt m) (strict_ofInt n)

lemma arith_means (ho : o.onInts = true) (h : arith o a b = .ok u) (ha : Means I env a x)
    (hb : Means I env b y) : MeansOp I env u o [x, y] := by
  unfold arith at h
  obtain ⟨⟨a', b'⟩, hm, h⟩ := bind_eq_ok h
  cases h
  obtain ⟨m, n, hx, hy, ha', hb'⟩ := meetInt_means hm ha hb
  exact meansOp_onInts ho hx hy ha' hb'

lemma sum_means (h : sum a b = .ok u) (ha : Means I env a x) (hb : Means I env b y) :
    MeansOp I env u .add [x, y] := by
  unfold sum at h
  split at h
  · rename_i hsa hsb
    cases h
    obtain ⟨p, rfl⟩ := ha.exists_bool hsa
    obtain ⟨q, rfl⟩ := hb.exists_bool hsb
    exact meansOp_onInts rfl (loose_int_ofBool p) (loose_int_ofBool q) ha.boolToInt hb.boolToInt
  · exact arith_means rfl h ha hb

/-- **A product with a Boolean factor is a choice** between the other factor and zero. -/
lemma product_means (h : product a b = .ok u) (ha : Means I env a x) (hb : Means I env b y) :
    MeansOp I env u .mul [x, y] := by
  unfold product at h
  split at h
  · rename_i hsa hsb
    cases h
    obtain ⟨m, rfl⟩ := ha.exists_int hsa
    obtain ⟨n, rfl⟩ := hb.exists_int hsb
    exact meansOp_onInts rfl (loose_ofInt m) (loose_ofInt n) ha hb
  · rename_i hsa hsb
    cases h
    obtain ⟨m, rfl⟩ := ha.exists_int hsa
    obtain ⟨q, rfl⟩ := hb.exists_bool hsb
    refine ⟨_, ?_, means_ite hb ha (means_int 0) rfl⟩
    rw [Operator.value?_onInts rfl (loose_ofInt m) (loose_int_ofBool q)]
    cases q <;> simp
  · rename_i hsa hsb
    cases h
    obtain ⟨p, rfl⟩ := ha.exists_bool hsa
    obtain ⟨n, rfl⟩ := hb.exists_int hsb
    refine ⟨_, ?_, means_ite ha hb (means_int 0) rfl⟩
    rw [Operator.value?_onInts rfl (loose_int_ofBool p) (loose_ofInt n)]
    cases p <;> simp
  · rename_i hsa hsb
    cases h
    obtain ⟨p, rfl⟩ := ha.exists_bool hsa
    obtain ⟨q, rfl⟩ := hb.exists_bool hsb
    refine ⟨_, ?_, means_ite ha hb.boolToInt (means_int 0) rfl⟩
    rw [Operator.value?_onInts rfl (loose_int_ofBool p) (loose_int_ofBool q)]
    cases p <;> simp
  · cases h

/-- **A comparison says the same** whether or not it has been turned round. -/
lemma compare_means (ho : o.compares = true) (h : compare o a b = .ok u) (ha : Means I env a x)
    (hb : Means I env b y) : MeansOp I env u o [x, y] := by
  obtain ⟨f, hf, hturned, hints, hs⟩ := Operator.exists_turned (z := I.byZero) ho
  unfold compare at h
  obtain ⟨⟨a', b'⟩, hm, h⟩ := bind_eq_ok h
  obtain ⟨m, n, hx, hy, ha', hb'⟩ := meetInt_means hm ha hb
  cases h
  split
  · have hv : (turned o).value? strict I.byZero [.ofInt n, .ofInt m] = some (f m n) :=
      (Operator.value?_onInts hturned (strict_ofInt n) (strict_ofInt m)).trans rfl
    exact ⟨f m n, Operator.value?_onInts hf hx hy, .op (.cons hb' (.cons ha' .nil)) hv (hs _ m n)⟩
  · exact meansOp_onInts hints hx hy ha' hb'

open scoped Classical in
/-- An equation of terms of one sort. -/
lemma means_eq (hs : x.sort = y.sort) (ha : Means I env a x) (hb : Means I env b y) :
    Means I env (.op .eq [a, b]) (.ofBool (decide (x = y))) := by
  exact .op (.cons ha (.cons hb .nil)) (Operator.value?_eq (meet?_of_sort_eq hs)) rfl

open scoped Classical in
/-- **An equation says the same** whether or not its sides have changed places. -/
lemma equation_means (h : equation a b = .ok u) (ha : Means I env a x) (hb : Means I env b y) :
    MeansOp I env u .eq [x, y] := by
  unfold equation at h
  obtain ⟨⟨a', b'⟩, hm, h⟩ := bind_eq_ok h
  obtain ⟨x', y', hmeet, hs, ha', hb'⟩ := meet_means hm ha hb
  cases h
  refine ⟨.ofBool (decide (x' = y')), Operator.value?_eq hmeet, ?_⟩
  split
  · have h := means_eq hs.symm hb' ha'
    rwa [show decide (y' = x') = decide (x' = y') from decide_eq_decide.mpr eq_comm] at h
  · exact means_eq hs ha' hb'

lemma choice_means (h : choice c a b = .ok u) (hc : Means I env c z) (ha : Means I env a x)
    (hb : Means I env b y) : MeansOp I env u .ite [z, x, y] := by
  unfold choice at h
  split at h
  · rename_i hs
    obtain ⟨⟨a', b'⟩, hm, h⟩ := bind_eq_ok h
    cases h
    obtain ⟨p, rfl⟩ := hc.exists_bool hs
    obtain ⟨x', y', hmeet, hs', ha', hb'⟩ := meet_means hm ha hb
    exact ⟨cond p x' y', Operator.value?_ite (loose_ofBool p) hmeet, means_ite hc ha' hb' hs'⟩
  · cases h

lemma element_means (h : element a b = .ok u) (ha : Means I env a x) (hb : Means I env b y) :
    MeansOp I env u .select [x, y] := by
  unfold element at h
  split at h
  · rename_i d r hs
    obtain ⟨i, hi, h⟩ := bind_eq_ok h
    cases h
    obtain ⟨v, rfl⟩ := ha.exists_mk hs
    obtain ⟨w, hw, hmi⟩ := castTo_means hi hb
    refine ⟨_, Operator.value?_select hw, ?_⟩
    refine .op (.cons ha (.cons hmi .nil)) (Operator.value?_select (strict_mk d w)) ?_
    rw [sort, hs]
  · cases h

lemma update_means (h : update a b c = .ok u) (ha : Means I env a x) (hb : Means I env b y)
    (hc : Means I env c z) : MeansOp I env u .store [x, y, z] := by
  unfold update at h
  split at h
  · rename_i d r hs
    obtain ⟨i, hi, h⟩ := bind_eq_ok h
    obtain ⟨e, he, h⟩ := bind_eq_ok h
    cases h
    obtain ⟨v, rfl⟩ := ha.exists_mk hs
    obtain ⟨w, hw, hmi⟩ := castTo_means hi hb
    obtain ⟨w', hw', hme⟩ := castTo_means he hc
    refine ⟨_, Operator.value?_store hw hw', ?_⟩
    refine .op (.cons ha (.cons hmi (.cons hme .nil)))
      (Operator.value?_store (strict_mk d w) (strict_mk r w')) ?_
    rw [sort, hs]
  · cases h

lemma connect_pair_means {f : Bool → Bool → Bool} (ho : o.onBools? = some f)
    (hs : (Term.op o [a, b]).sort = .bool) (h : connect o [a, b] = .ok u) (ha : Means I env a x)
    (hb : Means I env b y) : MeansOp I env u o [x, y] := by
  unfold connect at h
  split at h
  · rename_i hsorts
    cases h
    simp only [List.all_cons, List.all_nil, Bool.and_true, Bool.and_eq_true,
      decide_eq_true_eq] at hsorts
    obtain ⟨p, rfl⟩ := ha.exists_bool hsorts.1
    obtain ⟨q, rfl⟩ := hb.exists_bool hsorts.2
    refine ⟨_, Operator.value?_onBools ho (loose_ofBool p) (loose_ofBool q), ?_⟩
    exact .op (.cons ha (.cons hb .nil))
      (Operator.value?_onBools ho (strict_ofBool p) (strict_ofBool q)) hs.symm
  · cases h

lemma connect_not_means (h : connect .not [a] = .ok u) (ha : Means I env a x) :
    MeansOp I env u .not [x] := by
  unfold connect at h
  split at h
  · rename_i hs
    cases h
    simp only [List.all_cons, List.all_nil, Bool.and_true, decide_eq_true_eq] at hs
    obtain ⟨p, rfl⟩ := ha.exists_bool hs
    exact ⟨.ofBool !p, Operator.value?_not (loose_ofBool p),
      .op (.cons ha .nil) (Operator.value?_not (strict_ofBool p)) rfl⟩
  · cases h

end

/-- **An operator applied to terms means what it gives for their values.** -/
lemma ofOperator_means {o : Operator} {ts : List Term} {xs : List Element} {u : Term}
    (h : ofOperator o ts = .ok u) (ht : List.Forall₂ (Means I env) ts xs) :
    MeansOp I env u o xs := by
  have pair : ∀ {a b : Term}, List.Forall₂ (Means I env) [a, b] xs →
      (∀ x y, Means I env a x → Means I env b y → MeansOp I env u o [x, y]) →
      MeansOp I env u o xs := by
    intro a b ht hm
    obtain ⟨x, y, rfl, ha, hb⟩ := forall₂_pair ht
    exact hm x y ha hb
  unfold ofOperator at h
  split at h
  · obtain ⟨z, x, y, rfl, hc, ha, hb⟩ := forall₂_triple ht
    exact choice_means h hc ha hb
  · obtain ⟨x, rfl, ha⟩ := forall₂_single ht
    exact connect_not_means h ha
  · exact pair ht fun _ _ => connect_pair_means rfl rfl h
  · exact pair ht fun _ _ => connect_pair_means rfl rfl h
  · exact pair ht fun _ _ => connect_pair_means rfl rfl h
  · exact pair ht fun _ _ => equation_means h
  · exact pair ht fun _ _ => compare_means rfl h
  · exact pair ht fun _ _ => compare_means rfl h
  · exact pair ht fun _ _ => compare_means rfl h
  · exact pair ht fun _ _ => compare_means rfl h
  · exact pair ht fun _ _ => sum_means h
  · exact pair ht fun _ _ => arith_means rfl h
  · exact pair ht fun _ _ => product_means h
  · exact pair ht fun _ _ => arith_means rfl h
  · exact pair ht fun _ _ => element_means h
  · obtain ⟨x, y, z, rfl, ha, hb, hc⟩ := forall₂_triple ht
    exact update_means h ha hb hc
  · cases h

end Term

/-! ### Expressions -/

/-- **The symbols stand for what the names of the declarations do.** -/
structure Interpretation.Represents (J : Interpretation) (D : Declaration → Prop) (I : Denotation)
    (ρ : Valuation) : Prop where
  apply : ∀ d, D d → J.apply d.symbol = d.meaning I ρ
  byZero : J.byZero = I.byZero

namespace Expr

open Term (Means)

variable {Γ : Symbols} {J : Interpretation} {D : Declaration → Prop} {I : Denotation} {ρ : Valuation}
  {env : List Element}

lemma literalTerm_means {n : String} {t : Term} (h : literalTerm n = .ok t) :
    ∃ v, leaf? n = some v ∧ Means J env t v := by
  unfold leaf?
  rcases literalTerm_eq_ok h with ⟨rfl, rfl⟩ | ⟨rfl, rfl⟩ | ⟨ht, hf, k, hk, rfl⟩
  · exact ⟨_, if_pos rfl, Term.means_bool true⟩
  · exact ⟨_, rfl, Term.means_bool false⟩
  · rw [if_neg ht, if_neg hf, hk]
    exact ⟨_, rfl, Term.means_int k⟩

/-- **The root of an expression means what its name gives** for the values of the arguments. -/
lemma rootTerm_means (hΓ : Γ.WellFormed) (hJ : J.Represents D I ρ) {e : Expr}
    (hD : ∀ d ∈ Γ.declarations, d.name = e.name → D d) {ts : List Term} {xs : List Element} {t : Term}
    (h : rootTerm Γ e ts = .ok t) (ht : List.Forall₂ (Means J env) ts xs) :
    ∃ v, root? Γ I ρ e.name xs = some v ∧ Means J env t v := by
  rcases rootTerm_eq_ok h with ⟨f, us, hf, hl, hus, rfl⟩ | ⟨hf, hc, hcase⟩
  · obtain ⟨d, hd, hk, rfl⟩ := hΓ.function?_eq_some_iff.mp hf
    obtain ⟨hmem, hn⟩ := hΓ.find?_eq_some_iff.mp hd
    obtain ⟨ys, hys, hstrict, hms⟩ := Term.castAll_means hus hl ht
    refine ⟨_, root?_declared hd hys, ?_, rfl⟩
    rw [Term.value?, Term.values?_of_forall₂ hms, Option.bind_eq_bind, Option.bind_some, hstrict,
      hJ.apply d (hD d hmem hn)]
    rfl
  · have hn : Γ.find? e.name = none := Symbols.find?_eq_none_iff_kinds.mpr ⟨hf, hc⟩
    rcases hcase with ⟨rfl, hlit⟩ | ⟨hne, o, ho, hop⟩
    · cases ht
      rw [root?_leaf hn]
      exact literalTerm_means hlit
    · have hxs : xs ≠ [] := by
        rintro rfl
        cases ht
        exact hne rfl
      rw [root?_operator hn hxs ho, ← hJ.byZero]
      exact Term.ofOperator_means hop ht

mutual

/-- **A translated term means what its expression does**, if the symbols stand for what the names of the
expression do. -/
theorem toTerm_means (hΓ : Γ.WellFormed) (hJ : J.Represents D I ρ) :
    ∀ {e : Expr} {t : Term}, (∀ d ∈ Γ.declarations, d.name ∈ e.names → D d) → toTerm Γ e = .ok t →
      ∃ v, e.value? Γ I ρ = some v ∧ Means J env t v
  | .node n as s, t, hD, h => by
    have hroot : ∀ d ∈ Γ.declarations, d.name = n → D d := by
      rintro d hd rfl
      exact hD d hd (by rw [names]; exact .head _)
    have hargs : ∀ d ∈ Γ.declarations, d.name ∈ namesOfAll as → D d := fun d hd hn =>
      hD d hd (by rw [names]; exact .tail _ hn)
    rcases toTerm_eq_ok h with ⟨c, rfl, hc, rfl⟩ | ⟨-, ts, hts, hr⟩
    · obtain ⟨d, hd, hk, rfl⟩ := hΓ.constant?_eq_some_iff.mp hc
      obtain ⟨hmem, hn⟩ := hΓ.find?_eq_some_iff.mp hd
      have hdom := (SortSpec.toSymbol_eq_ok (hΓ.made d hmem)).2 hk
      refine ⟨_, value?_symbol hd hdom s, ?_, rfl⟩
      rw [Term.value?_const hdom, hJ.apply d (hroot d hmem hn)]
    · obtain ⟨xs, hxs, hms⟩ := toTerms_means hΓ hJ hargs hts
      rw [value?, hxs]
      exact rootTerm_means (e := .node n as s) hΓ hJ hroot hr hms

theorem toTerms_means (hΓ : Γ.WellFormed) (hJ : J.Represents D I ρ) :
    ∀ {es : List Expr} {ts : List Term}, (∀ d ∈ Γ.declarations, d.name ∈ namesOfAll es → D d) →
      toTerms Γ es = .ok ts → ∃ xs, values? Γ I ρ es = some xs ∧ List.Forall₂ (Means J env) ts xs
  | [], ts, _, h => by
    unfold toTerms at h
    cases h
    exact ⟨[], by rw [values?], .nil⟩
  | e :: es, ts, hD, h => by
    obtain ⟨t, us, ht, hus, rfl⟩ := toTerms_cons_eq_ok h
    obtain ⟨x, hx, hm⟩ := toTerm_means hΓ hJ
      (fun d hd hn => hD d hd (by rw [namesOfAll]; exact List.mem_append_right _ hn)) ht
    obtain ⟨xs, hxs, hms⟩ := toTerms_means hΓ hJ
      (fun d hd hn => hD d hd (by rw [namesOfAll]; exact List.mem_append_left _ hn)) hus
    exact ⟨x :: xs, by rw [values?, hx, hxs]; rfl, .cons hm hms⟩

end

/-- A translated formula holds if its expression does. -/
lemma holds_toTerm (hΓ : Γ.WellFormed) (hJ : J.Represents D I ρ) {e : Expr} {t : Term}
    (hD : ∀ d ∈ Γ.declarations, d.name ∈ e.names → D d) (h : e.toTerm Γ = .ok t) :
    t.Holds J ↔ e.Holds Γ I ρ := by
  have ⟨v, hv, hm⟩ : ∃ v, e.value? Γ I ρ = some v ∧ Means J [] t v := toTerm_means hΓ hJ hD h
  unfold Term.Holds Holds
  rw [hv, hm.value]

end Expr

end Horn

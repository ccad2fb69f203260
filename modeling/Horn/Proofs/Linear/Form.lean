import Mathlib.Algebra.Group.Int.Defs
import Mathlib.Algebra.Ring.Int.Defs
import Mathlib.Logic.Function.Basic
import Mathlib.Tactic.Ring
import Horn.Linear.Form

/-!
Values of linear forms. Main statements: what each operation on forms does to the value, and that a form is
the multiple of any variable and the rest of it.
-/

namespace Horn.Linear.Form

def sum (ρ : Nat → Int) : List (Nat × Int) → Int
  | [] => 0
  | e :: ts => e.2 * ρ e.1 + sum ρ ts

/-- The value of a form where its variables have values. -/
def value (ρ : Nat → Int) (t : Form) : Int := t.const + sum ρ t.terms

/-- The variables ascend. -/
def IsOrdered (t : Form) : Prop := t.terms.Pairwise fun e e' => e.1 < e'.1

variable {ρ : Nat → Int} {s t : Form} {ss ts : List (Nat × Int)} {x : Nat} {k n : Int}

/-! ### Values -/

lemma sum_addTerms (ss ts : List (Nat × Int)) : sum ρ (addTerms ss ts) = sum ρ ss + sum ρ ts := by
  fun_induction addTerms ss ts with
  | case1 ts => simp [sum]
  | case2 ss h => simp [sum]
  | case3 x a ss y b ts hxy ih => simp only [sum, ih]; ring
  | case4 x a ss y b ts hxy hyx ih => simp only [sum, ih]; ring
  | case5 x a ss y b ts hxy hyx hab ih =>
    obtain rfl : x = y := by omega
    obtain rfl : b = -a := by omega
    simp only [sum, ih]
    ring
  | case6 x a ss y b ts hxy hyx hab ih =>
    obtain rfl : x = y := by omega
    simp only [sum, ih]
    ring

@[simp] lemma value_add (s t : Form) : (s.add t).value ρ = s.value ρ + t.value ρ := by
  simp only [value, add, sum_addTerms]
  ring

lemma sum_map_mul (k : Int) (ts : List (Nat × Int)) :
    sum ρ (ts.map fun e => (e.1, k * e.2)) = k * sum ρ ts := by
  induction ts with
  | nil => simp [sum]
  | cons e ts ih => simp only [List.map_cons, sum, ih]; ring

@[simp] lemma value_ofInt (n : Int) : (ofInt n).value ρ = n := by simp [value, ofInt, sum]

@[simp] lemma value_var (x : Nat) : (var x).value ρ = ρ x := by simp [value, var, sum]

@[simp] lemma value_scale (k : Int) (t : Form) : (t.scale k).value ρ = k * t.value ρ := by
  unfold scale
  split
  · rename_i hk
    simp [hk]
  · simp only [value, sum_map_mul]
    ring

@[simp] lemma value_neg (t : Form) : t.neg.value ρ = -t.value ρ := by simp [neg]

@[simp] lemma value_sub (s t : Form) : (s.sub t).value ρ = s.value ρ - t.value ρ := by
  simp [sub, Int.sub_eq_add_neg]

@[simp] lemma value_plus (t : Form) (k : Int) : (t.plus k).value ρ = t.value ρ + k := by
  simp only [value, plus]
  ring

/-- Forms in the place of variables. -/
@[simp] lemma value_bind (σ : Nat → Form) (t : Form) :
    (t.bind σ).value ρ = t.value fun x => (σ x).value ρ := by
  have hfold : ∀ (ts : List (Nat × Int)) (s : Form),
      (ts.foldl (fun s e => s.add ((σ e.1).scale e.2)) s).value ρ =
        s.value ρ + sum (fun x => (σ x).value ρ) ts := by
    intro ts
    induction ts with
    | nil => simp [sum]
    | cons e ts ih =>
      intro s
      rw [List.foldl_cons, ih, value_add, value_scale, sum]
      ring
  rw [bind, hfold, value_ofInt]
  rfl

@[simp] lemma value_lift (k : Nat) (t : Form) : (t.lift k).value ρ = t.value fun x => ρ (x + k) := by
  have hsum : ∀ ts : List (Nat × Int),
      sum ρ (ts.map fun e => (e.1 + k, e.2)) = sum (fun x => ρ (x + k)) ts := by
    intro ts
    induction ts with
    | nil => rfl
    | cons e ts ih => rw [List.map_cons, sum, sum, ih]
  simp only [value, lift]
  rw [← hsum]

lemma value_of_isConst (h : t.isConst = true) : t.value ρ = t.const := by
  rw [value, List.isEmpty_iff.mp h, sum, Int.add_zero]

/-! ### Order -/

/-- What variable occurs in a sum occurs in a summand. -/
lemma exists_of_mem_addTerms {e : Nat × Int} (he : e ∈ addTerms ss ts) :
    ∃ e' ∈ ss ++ ts, e'.1 = e.1 := by
  fun_induction addTerms ss ts with
  | case1 ts => exact ⟨e, by simpa using he, rfl⟩
  | case2 ss h => exact ⟨e, by simpa using he, rfl⟩
  | case3 x a ss y b ts hxy ih =>
    rcases List.mem_cons.mp he with rfl | he
    · exact ⟨_, by simp, rfl⟩
    · obtain ⟨e', he', h⟩ := ih he
      exact ⟨e', .tail _ he', h⟩
  | case4 x a ss y b ts hxy hyx ih =>
    rcases List.mem_cons.mp he with rfl | he
    · exact ⟨(y, b), by simp, rfl⟩
    · obtain ⟨e', he', h⟩ := ih he
      exact ⟨e', by simp at he' ⊢; tauto, h⟩
  | case5 x a ss y b ts hxy hyx hab ih =>
    obtain ⟨e', he', h⟩ := ih he
    exact ⟨e', by simp at he' ⊢; tauto, h⟩
  | case6 x a ss y b ts hxy hyx hab ih =>
    rcases List.mem_cons.mp he with rfl | he
    · exact ⟨(x, a), by simp, rfl⟩
    · obtain ⟨e', he', h⟩ := ih he
      exact ⟨e', by simp at he' ⊢; tauto, h⟩

lemma pairwise_addTerms (hs : ss.Pairwise fun e e' => e.1 < e'.1)
    (ht : ts.Pairwise fun e e' => e.1 < e'.1) :
    (addTerms ss ts).Pairwise fun e e' => e.1 < e'.1 := by
  -- a variable below those of both summands is below those of the sum
  have hbelow : ∀ {x : Nat} {ss ts : List (Nat × Int)}, (∀ e ∈ ss, x < e.1) → (∀ e ∈ ts, x < e.1) →
      ∀ e ∈ addTerms ss ts, x < e.1 := by
    intro x ss ts hss hts e he
    obtain ⟨e', he', heq⟩ := exists_of_mem_addTerms he
    rw [← heq]
    exact (List.mem_append.mp he').elim (hss e') (hts e')
  fun_induction addTerms ss ts with
  | case1 ts => exact ht
  | case2 ss h => exact hs
  | case3 x a ss y b ts hxy ih =>
    obtain ⟨hx, hss⟩ := List.pairwise_cons.mp hs
    obtain ⟨hy, hts⟩ := List.pairwise_cons.mp ht
    refine List.pairwise_cons.mpr ⟨hbelow hx fun e he => ?_, ih hss ht⟩
    rcases List.mem_cons.mp he with rfl | he
    · exact hxy
    · exact hxy.trans (hy e he)
  | case4 x a ss y b ts hxy hyx ih =>
    obtain ⟨hx, hss⟩ := List.pairwise_cons.mp hs
    obtain ⟨hy, hts⟩ := List.pairwise_cons.mp ht
    refine List.pairwise_cons.mpr ⟨hbelow (fun e he => ?_) hy, ih hs hts⟩
    rcases List.mem_cons.mp he with rfl | he
    · exact hyx
    · exact hyx.trans (hx e he)
  | case5 x a ss y b ts hxy hyx hab ih =>
    exact ih (List.pairwise_cons.mp hs).2 (List.pairwise_cons.mp ht).2
  | case6 x a ss y b ts hxy hyx hab ih =>
    obtain rfl : x = y := by omega
    obtain ⟨hx, hss⟩ := List.pairwise_cons.mp hs
    obtain ⟨hy, hts⟩ := List.pairwise_cons.mp ht
    exact List.pairwise_cons.mpr ⟨hbelow hx hy, ih hss hts⟩

lemma isOrdered_ofInt (n : Int) : (ofInt n).IsOrdered := List.Pairwise.nil

lemma isOrdered_var (x : Nat) : (var x).IsOrdered := List.pairwise_singleton _ _

lemma IsOrdered.add (hs : s.IsOrdered) (ht : t.IsOrdered) : (s.add t).IsOrdered :=
  pairwise_addTerms hs ht

/-- Other factors, with the same variables or with fewer of them. -/
lemma IsOrdered.of_terms (ht : t.IsOrdered) (g : Nat × Int → Nat × Int) (hg : ∀ e, (g e).1 = e.1) :
    IsOrdered ⟨n, t.terms.map g⟩ :=
  List.pairwise_map.mpr (ht.imp fun h => by rwa [hg, hg])

lemma IsOrdered.filter (ht : t.IsOrdered) (p : Nat × Int → Bool) : IsOrdered ⟨n, t.terms.filter p⟩ :=
  List.Pairwise.filter p ht

lemma IsOrdered.scale (ht : t.IsOrdered) (k : Int) : (t.scale k).IsOrdered := by
  unfold Form.scale
  split
  · exact isOrdered_ofInt 0
  · exact ht.of_terms _ fun _ => rfl

lemma IsOrdered.neg (ht : t.IsOrdered) : t.neg.IsOrdered := ht.scale _

lemma IsOrdered.sub (hs : s.IsOrdered) (ht : t.IsOrdered) : (s.sub t).IsOrdered := hs.add ht.neg

lemma IsOrdered.plus (ht : t.IsOrdered) (k : Int) : (t.plus k).IsOrdered := ht

lemma IsOrdered.without (ht : t.IsOrdered) (x : Nat) : (t.without x).IsOrdered := ht.filter _

lemma IsOrdered.replace (ht : t.IsOrdered) (hs : s.IsOrdered) (x : Nat) (g : Int) :
    (t.replace x g s).IsOrdered := ((ht.without x).scale g).add (hs.scale _)

lemma IsOrdered.lift (ht : t.IsOrdered) (k : Nat) : (t.lift k).IsOrdered :=
  List.pairwise_map.mpr (ht.imp fun h => Nat.add_lt_add_right h k)

lemma IsOrdered.bind {σ : Nat → Form} (hσ : ∀ x, (σ x).IsOrdered) (t : Form) :
    (t.bind σ).IsOrdered := by
  have hfold : ∀ (ts : List (Nat × Int)) (s : Form), s.IsOrdered →
      (ts.foldl (fun s e => s.add ((σ e.1).scale e.2)) s).IsOrdered := by
    intro ts
    induction ts with
    | nil => exact fun s hs => hs
    | cons e ts ih => exact fun s hs => ih _ (hs.add ((hσ e.1).scale e.2))
  exact hfold _ _ (isOrdered_ofInt _)

/-! ### One variable and the rest -/

lemma sum_filter_of_lookup (hts : ts.Pairwise fun e e' => e.1 < e'.1) (x : Nat) :
    sum ρ ts = (ts.lookup x).getD 0 * ρ x + sum ρ (ts.filter fun e => e.1 != x) := by
  induction ts with
  | nil => simp [sum]
  | cons e ts ih =>
    obtain ⟨y, a⟩ := e
    obtain ⟨hy, hts⟩ := List.pairwise_cons.mp hts
    by_cases hx : x = y
    · subst hx
      -- the variable does not occur once more
      have hrest : ts.filter (fun e => e.1 != x) = ts :=
        List.filter_eq_self.mpr fun e he => by simpa using (hy e he).ne'
      simp [sum, hrest]
    · have hne : (x == y) = false := beq_eq_false_iff_ne.mpr hx
      have hne' : (y != x) = true := by simpa using Ne.symm hx
      simp only [sum, List.lookup_cons, hne, List.filter_cons, hne', if_true, ih hts]
      ring

/-- **A form is the multiple of a variable and the rest of it.** -/
lemma IsOrdered.value_eq (ht : t.IsOrdered) (ρ : Nat → Int) (x : Nat) :
    t.value ρ = t.coeff x * ρ x + (t.without x).value ρ := by
  rw [Form.value, Form.value, coeff, Form.without, sum_filter_of_lookup ht x]
  ring

lemma lookup_filter_ne (ts : List (Nat × Int)) (x : Nat) :
    (ts.filter fun e => e.1 != x).lookup x = none := by
  rw [List.lookup_eq_none_iff]
  intro e he
  have hne : e.1 ≠ x := by simpa using (List.mem_filter.mp he).2
  exact bne_iff_ne.mpr hne.symm

@[simp] lemma coeff_without (t : Form) (x : Nat) : (t.without x).coeff x = 0 := by
  rw [coeff, Form.without, lookup_filter_ne]
  rfl

/-- The value of a form hangs on the variables only that have a factor in it. -/
lemma value_congr {ρ' : Nat → Int} (h : ∀ x ∈ t.vars, ρ x = ρ' x) : t.value ρ = t.value ρ' := by
  have hsum : ∀ ts : List (Nat × Int), (∀ e ∈ ts, ρ e.1 = ρ' e.1) → sum ρ ts = sum ρ' ts := by
    intro ts hts
    induction ts with
    | nil => rfl
    | cons e ts ih =>
      rw [List.forall_mem_cons] at hts
      rw [sum, sum, hts.1, ih hts.2]
  rw [value, value, hsum _ fun e he => h e.1 (List.mem_map_of_mem he)]

lemma value_without_update (t : Form) (x : Nat) (n : Int) :
    (t.without x).value (Function.update ρ x n) = (t.without x).value ρ := by
  refine value_congr fun y hy => ?_
  obtain ⟨e, he, rfl⟩ := List.mem_map.mp hy
  have hne : e.1 ≠ x := by simpa using (List.mem_filter.mp he).2
  exact Function.update_of_ne hne n ρ

lemma IsOrdered.value_update_eq (ht : t.IsOrdered) (x : Nat) (n : Int) :
    t.value (Function.update ρ x n) = t.value ρ + t.coeff x * (n - ρ x) := by
  rw [ht.value_eq _ x, ht.value_eq ρ x, value_without_update, Function.update_self]
  ring

/-- A variable without a factor does not matter. -/
lemma IsOrdered.value_update (ht : t.IsOrdered) (hx : t.coeff x = 0) (n : Int) :
    t.value (Function.update ρ x n) = t.value ρ := by
  rw [ht.value_update_eq, hx]
  ring

/-- **A form in the place of a variable**, all multiplied by the factor that the old value of the variable
has with it; the variable may have a new value. -/
lemma IsOrdered.value_replace (ht : t.IsOrdered) {g : Int}
    (hs : s.value (Function.update ρ x n) = g * ρ x) :
    (t.replace x g s).value (Function.update ρ x n) = g * t.value ρ := by
  rw [Form.replace, value_add, value_scale, value_scale, hs, value_without_update, ht.value_eq ρ x]
  ring

/-! ### Factors -/

lemma lookup_map (h : Int → Int) (ts : List (Nat × Int)) (x : Nat) :
    (ts.map fun e => (e.1, h e.2)).lookup x = (ts.lookup x).map h := by
  induction ts with
  | nil => rfl
  | cons e ts ih =>
    obtain ⟨y, a⟩ := e
    simp only [List.map_cons, List.lookup_cons, ih]
    cases x == y <;> rfl

@[simp] lemma coeff_scale (k : Int) (t : Form) (x : Nat) : (t.scale k).coeff x = k * t.coeff x := by
  unfold Form.scale
  split
  · rename_i hk
    simp [hk, coeff, ofInt]
  · simp only [coeff, lookup_map]
    cases t.terms.lookup x <;> simp

@[simp] lemma coeff_neg (t : Form) (x : Nat) : t.neg.coeff x = -t.coeff x := by simp [Form.neg]

lemma mem_of_coeff_ne (hx : t.coeff x ≠ 0) : (x, t.coeff x) ∈ t.terms := by
  rw [coeff] at hx ⊢
  cases h : t.terms.lookup x with
  | none => simp [h] at hx
  | some a =>
    obtain ⟨ss, ts, heq, -⟩ := List.lookup_eq_some_iff.mp h
    simp [heq]

lemma IsOrdered.coeff_of_mem (ht : t.IsOrdered) {e : Nat × Int} (he : e ∈ t.terms) :
    t.coeff e.1 = e.2 := by
  obtain ⟨ss, ts, heq⟩ := List.append_of_mem he
  have hss : ∀ e' ∈ ss, (e.1 != e'.1) = true := by
    intro e' he'
    rw [IsOrdered, heq, List.pairwise_append] at ht
    exact bne_iff_ne.mpr (ht.2.2 e' he' e List.mem_cons_self).ne'
  rw [coeff, List.lookup_eq_some_iff.mpr ⟨ss, ts, heq, hss⟩]
  rfl

lemma content_dvd (t : Form) : ∀ e ∈ t.terms, (t.content : Int) ∣ e.2 := by
  have hfold : ∀ (ts : List (Nat × Int)) (g : Nat),
      let n := ts.foldl (fun g e => Nat.gcd g e.2.natAbs) g
      n ∣ g ∧ ∀ e ∈ ts, (n : Int) ∣ e.2 := by
    intro ts
    induction ts with
    | nil => simp
    | cons e ts ih =>
      intro g
      obtain ⟨hg, hts⟩ := ih (Nat.gcd g e.2.natAbs)
      refine ⟨hg.trans (Nat.gcd_dvd_left _ _), List.forall_mem_cons.mpr ⟨?_, hts⟩⟩
      exact Int.natCast_dvd.mpr (hg.trans (Nat.gcd_dvd_right _ _))
  exact (hfold t.terms 0).2

lemma sum_ediv {g : Int} (h : ∀ e ∈ ts, g ∣ e.2) :
    sum ρ ts = g * sum ρ (ts.map fun e => (e.1, e.2 / g)) := by
  induction ts with
  | nil => simp [sum]
  | cons e ts ih =>
    obtain ⟨he, hts⟩ := List.forall_mem_cons.mp h
    rw [List.map_cons, sum, sum, ih hts, mul_add, ← mul_assoc, Int.mul_ediv_cancel' he]

/-- The form with all of it divided. -/
def quotient (t : Form) (g : Int) : Form := ⟨t.const / g, t.terms.map fun e => (e.1, e.2 / g)⟩

lemma IsOrdered.quotient (ht : t.IsOrdered) (g : Int) : (t.quotient g).IsOrdered :=
  ht.of_terms _ fun _ => rfl

lemma value_eq_quotient {g : Int} (h : ∀ e ∈ t.terms, g ∣ e.2) :
    t.value ρ = t.const % g + g * (t.quotient g).value ρ := by
  rw [Form.value, sum_ediv h, Form.value, Form.quotient, mul_add, ← add_assoc, Int.emod_add_mul_ediv]

lemma coeff_quotient (t : Form) (g : Int) (x : Nat) : (t.quotient g).coeff x = t.coeff x / g := by
  rw [coeff, coeff, Form.quotient, lookup_map (· / g)]
  cases t.terms.lookup x <;> simp

/-- The form with its integers taken modulo a number. -/
def modulo (t : Form) (d : Int) : Form :=
  ⟨t.const % d, (t.terms.map fun e => (e.1, e.2 % d)).filter fun e => e.2 != 0⟩

lemma IsOrdered.modulo (ht : t.IsOrdered) (d : Int) : (t.modulo d).IsOrdered :=
  List.Pairwise.filter _ (List.pairwise_map.mpr ht)

lemma dvd_sum_sub (d : Int) (ts : List (Nat × Int)) :
    d ∣ sum ρ ts - sum ρ ((ts.map fun e => (e.1, e.2 % d)).filter fun e => e.2 != 0) := by
  induction ts with
  | nil => simp [sum]
  | cons e ts ih =>
    have he : d ∣ e.2 * ρ e.1 - e.2 % d * ρ e.1 := by
      rw [← sub_mul]
      exact (Int.dvd_self_sub_emod).mul_right _
    rw [List.map_cons, List.filter_cons]
    split
    · simp only [sum]
      rw [add_sub_add_comm]
      exact Int.dvd_add he ih
    · rename_i hz
      have hz : e.2 % d = 0 := by simpa using hz
      rw [hz, zero_mul, sub_zero] at he
      rw [sum, add_sub_assoc]
      exact Int.dvd_add he ih

/-- Multiples of a divisor do not matter to divisibility by it. -/
lemma dvd_value_modulo (d : Int) (t : Form) : d ∣ (t.modulo d).value ρ ↔ d ∣ t.value ρ := by
  have h : d ∣ t.value ρ - (t.modulo d).value ρ := by
    rw [Form.value, Form.value, add_sub_add_comm]
    exact Int.dvd_add Int.dvd_self_sub_emod (dvd_sum_sub d t.terms)
  exact (Int.dvd_iff_dvd_of_dvd_sub h).symm

lemma IsOrdered.coeff_modulo (ht : t.IsOrdered) (d : Int) (hx : t.coeff x = 0) :
    (t.modulo d).coeff x = 0 := by
  by_contra hne
  obtain ⟨hmem, -⟩ := List.mem_filter.mp (mem_of_coeff_ne hne)
  obtain ⟨e, he, heq⟩ := List.mem_map.mp hmem
  obtain ⟨rfl, heq⟩ := Prod.mk.inj heq
  rw [ht.coeff_of_mem he] at hx
  rw [hx, Int.zero_emod] at heq
  exact hne heq.symm

section

variable {d g : Nat}

lemma dvd_const_of_dvd_value (hg : g ∣ d) (ht : ∀ e ∈ t.terms, (g : Int) ∣ e.2)
    (h : (d : Int) ∣ t.value ρ) : t.const % g = 0 := by
  have hdvd := (Int.natCast_dvd_natCast.mpr hg).trans h
  rw [value_eq_quotient ht, Int.dvd_add_left (Int.dvd_mul_right _ _), Int.dvd_iff_emod_eq_zero,
    Int.emod_emod] at hdvd
  exact hdvd

lemma dvd_value_iff_quotient (hd : 0 < d) (hg : g ∣ d) (ht : ∀ e ∈ t.terms, (g : Int) ∣ e.2)
    (hr : t.const % g = 0) : (d : Int) ∣ t.value ρ ↔ ((d / g : Nat) : Int) ∣ (t.quotient g).value ρ := by
  obtain ⟨k, rfl⟩ := hg
  have hg := Nat.pos_of_mul_pos_right hd
  rw [value_eq_quotient ht, hr, Int.zero_add, Nat.mul_div_cancel_left k hg, Int.natCast_mul]
  exact Int.mul_dvd_mul_iff_left (by omega)

end

end Horn.Linear.Form

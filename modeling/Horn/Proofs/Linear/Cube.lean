import Horn.Linear.Cube
import Horn.Proofs.Linear.Form

/-!
What conditions and conjunctions say of the values of variables. Main statements: a condition in lowest terms
says the same (`Atom.IsProper.reduce`), one of the conditions that deny a condition holds where it does not
(`Atom.IsProper.exists_negate`), and a conjunction stays met as it is kept short (`Cube.IsMet.addAll`).
-/

namespace Horn.Linear

variable {ρ : Nat → Int}

namespace Form

variable {t : Form} {x : Nat}

lemma oriented_eq_or (t : Form) : t.oriented = t ∨ t.oriented = t.neg := by
  unfold oriented
  split
  · split
    · exact .inr rfl
    · exact .inl rfl
  · exact .inl rfl

@[simp] lemma value_oriented_eq_zero : t.oriented.value ρ = 0 ↔ t.value ρ = 0 := by
  obtain h | h := t.oriented_eq_or <;> simp [h]

@[simp] lemma coeff_oriented_eq_zero : t.oriented.coeff x = 0 ↔ t.coeff x = 0 := by
  obtain h | h := t.oriented_eq_or <;> simp [h]

lemma IsOrdered.oriented (ht : t.IsOrdered) : t.oriented.IsOrdered := by
  obtain h | h := t.oriented_eq_or <;> rw [h]
  · exact ht
  · exact ht.neg

end Form

namespace Atom

variable {a b : Atom}

def Holds (ρ : Nat → Int) : Atom → Prop
  | .zero t => t.value ρ = 0
  | .nonneg t => 0 ≤ t.value ρ
  | .divides d t => (d : Int) ∣ t.value ρ

/-- The form is in order, and nothing is divided by zero. -/
def IsProper : Atom → Prop
  | .zero t | .nonneg t => t.IsOrdered
  | .divides d t => 0 < d ∧ t.IsOrdered

def IsMet (ρ : Nat → Int) (a : Atom) : Prop := a.IsProper ∧ a.Holds ρ

lemma IsProper.form (h : a.IsProper) : a.form.IsOrdered := by
  cases a with
  | zero t | nonneg t => exact h
  | divides d t => exact h.2

lemma IsProper.withForm (h : a.IsProper) {t : Form} (ht : t.IsOrdered) : (a.withForm t).IsProper := by
  cases a with
  | zero s | nonneg s => exact ht
  | divides d s => exact ⟨h.1, ht⟩

lemma holds_withForm {t : Form} {ρ' : Nat → Int} (h : t.value ρ' = a.form.value ρ) :
    (a.withForm t).Holds ρ' ↔ a.Holds ρ := by
  cases a <;> simp only [withForm, Holds, Atom.form] at h ⊢ <;> rw [h]

lemma IsProper.bind (h : a.IsProper) {σ : Nat → Form} (hσ : ∀ x, (σ x).IsOrdered) :
    (a.bind σ).IsProper := h.withForm (.bind hσ _)

@[simp] lemma holds_bind (σ : Nat → Form) (a : Atom) :
    (a.bind σ).Holds ρ ↔ a.Holds fun x => (σ x).value ρ := holds_withForm (Form.value_bind σ _)

lemma IsProper.lift (h : a.IsProper) (k : Nat) : (a.lift k).IsProper := h.withForm (h.form.lift k)

@[simp] lemma holds_lift (k : Nat) (a : Atom) : (a.lift k).Holds ρ ↔ a.Holds fun x => ρ (x + k) :=
  holds_withForm (Form.value_lift k _)

lemma holds_congr {ρ' : Nat → Int} (h : ∀ x ∈ a.vars, ρ x = ρ' x) : a.Holds ρ ↔ a.Holds ρ' := by
  have heq := Form.value_congr h
  cases a <;> simp only [Holds, Atom.form] at heq ⊢ <;> rw [heq]

lemma IsProper.holds_update (h : a.IsProper) {x : Nat} (hx : a.form.coeff x = 0) (n : Int) :
    a.Holds (Function.update ρ x n) ↔ a.Holds ρ := by
  have heq := h.form.value_update (ρ := ρ) hx n
  cases a <;> simp only [Holds, Atom.form] at heq ⊢ <;> rw [heq]

lemma IsMet.update (h : a.IsMet ρ) {x : Nat} (hx : a.form.coeff x = 0) (n : Int) :
    a.IsMet (Function.update ρ x n) := ⟨h.1, (h.1.holds_update hx n).mpr h.2⟩

lemma IsProper.replace (h : a.IsProper) {x g : Nat} {s : Form} (hg : 0 < g) (hs : s.IsOrdered) :
    (a.replace x g s).IsProper := by
  have hordered := h.form.replace hs x g
  cases a with
  | zero t | nonneg t =>
    simp only [Atom.replace]
    split
    · exact h
    · exact hordered
  | divides d t =>
    simp only [Atom.replace]
    split
    · exact h
    · exact ⟨Nat.mul_pos h.1 hg, hordered⟩

lemma IsProper.negate (h : a.IsProper) (hb : b ∈ a.negate) : b.IsProper := by
  cases a with
  | zero t =>
    rcases List.mem_cons.mp hb with rfl | hb
    · exact Form.IsOrdered.plus h _
    · cases List.mem_singleton.mp hb
      exact Form.IsOrdered.plus (Form.IsOrdered.neg h) _
  | nonneg t =>
    cases List.mem_singleton.mp hb
    exact Form.IsOrdered.plus (Form.IsOrdered.neg h) _
  | divides d t =>
    obtain ⟨i, -, rfl⟩ := List.mem_map.mp hb
    exact ⟨h.1, h.2.plus _⟩

/-- **A condition stays met with a form in the place of a variable**, which may get a new value. -/
lemma IsMet.replace {x g : Nat} {s : Form} {n : Int} (h : a.IsMet ρ) (hg : 0 < g) (hs : s.IsOrdered)
    (hvalue : s.value (Function.update ρ x n) = g * ρ x) :
    (a.replace x g s).IsMet (Function.update ρ x n) := by
  have hform := h.1.form.value_replace hvalue
  have hordered := h.1.form.replace hs x g
  cases a with
  | zero t =>
    simp only [Atom.replace]
    split
    · rename_i hx
      exact h.update hx n
    · exact ⟨hordered, by rw [withForm, Holds, hform, show (Atom.zero t).form.value ρ = 0 from h.2, mul_zero]⟩
  | nonneg t =>
    simp only [Atom.replace]
    split
    · rename_i hx
      exact h.update hx n
    · refine ⟨hordered, ?_⟩
      rw [withForm, Holds, hform]
      exact Int.mul_nonneg (Int.natCast_nonneg g) h.2
  | divides d t =>
    simp only [Atom.replace]
    split
    · rename_i hx
      exact h.update hx n
    · refine ⟨⟨Nat.mul_pos h.1.1 hg, hordered⟩, ?_⟩
      change ((d * g : Nat) : Int) ∣ _
      rw [Int.natCast_mul, mul_comm]
      exact hform ▸ Int.mul_dvd_mul_left _ h.2

/-! ### Lowest terms -/

/-- What is left of a condition is its truth, or a proper condition that says the same. -/
def IsReduct (a : Atom) : Bool ⊕ Atom → Prop
  | .inl b => ∀ ρ, a.Holds ρ ↔ b = true
  | .inr b => b.IsProper ∧ ∀ ρ, a.Holds ρ ↔ b.Holds ρ

section

variable {t : Form} {d : Nat}

lemma isReduct_zero (h : t.IsOrdered) : (zero t).IsReduct (zero t).reduce := by
  have hvalue (ρ : Nat → Int) := Form.value_eq_quotient (ρ := ρ) t.content_dvd
  simp only [reduce]
  split
  · rename_i hg
    intro ρ
    rw [Holds, hvalue, hg]
    simp
  split
  · rename_i hg hr
    have hr : t.const % t.content ≠ 0 := by simpa using hr
    intro ρ
    rw [Holds, hvalue]
    refine iff_of_false (fun h0 => hr ?_) (by simp)
    rw [← Int.emod_emod, Int.emod_eq_zero_of_dvd ⟨-(t.quotient t.content).value ρ, ?_⟩]
    rw [Int.mul_neg]
    omega
  · rename_i hg hr
    have hr : t.const % t.content = 0 := by simpa using hr
    have hg : (t.content : Int) ≠ 0 := Int.natCast_ne_zero.mpr hg
    refine ⟨(h.quotient t.content).oriented, fun ρ => ?_⟩
    rw [Holds, hvalue, hr, Int.zero_add, Int.mul_eq_zero, or_iff_right hg]
    exact Form.value_oriented_eq_zero.symm

lemma isReduct_nonneg (h : t.IsOrdered) : (nonneg t).IsReduct (nonneg t).reduce := by
  have hvalue (ρ : Nat → Int) := Form.value_eq_quotient (ρ := ρ) t.content_dvd
  simp only [reduce]
  split
  · rename_i hg
    intro ρ
    rw [Holds, hvalue, hg]
    simp
  · rename_i hg
    refine ⟨h.quotient t.content, fun ρ => ?_⟩
    have hg : (0 : Int) < t.content := Int.natCast_pos.mpr (Nat.pos_of_ne_zero hg)
    have hlow := Int.emod_nonneg t.const hg.ne'
    have hhigh := Int.emod_lt_of_pos t.const hg
    change 0 ≤ t.value ρ ↔ 0 ≤ (t.quotient t.content).value ρ
    rw [hvalue]
    constructor
    · intro h0
      by_contra hneg
      have := Int.mul_le_mul_of_nonneg_left (show (t.quotient t.content).value ρ ≤ -1 by omega) hg.le
      omega
    · exact fun h0 => Int.add_nonneg hlow (Int.mul_nonneg hg.le h0)

lemma reduce_divides (d : Nat) (t : Form) :
    (divides d t).reduce =
      let s := t.modulo d
      let g := Nat.gcd s.content d
      if d ≤ 1 then .inl (d == 1 || t == Form.ofInt 0)
      else if s.isConst then .inl (s.const == 0)
      else if s.const % g != 0 then .inl false
      else .inr (.divides (d / g) (s.quotient g)) := rfl

lemma isReduct_divides (hd : 0 < d) (h : t.IsOrdered) : (divides d t).IsReduct (divides d t).reduce := by
  have hmod (ρ : Nat → Int) : (divides d t).Holds ρ ↔ (d : Int) ∣ (t.modulo d).value ρ :=
    (Form.dvd_value_modulo d t).symm
  have hs := h.modulo d
  have hself : (t.modulo d).const % d = (t.modulo d).const := Int.emod_emod _ _
  rw [reduce_divides]
  generalize t.modulo d = s at hmod hs hself
  have hterms : ∀ e ∈ s.terms, ((Nat.gcd s.content d : Nat) : Int) ∣ e.2 := fun e he =>
    (Int.natCast_dvd_natCast.mpr (Nat.gcd_dvd_left _ _)).trans (s.content_dvd e he)
  have hdvd := Nat.gcd_dvd_right s.content d
  dsimp only
  split
  · intro ρ
    have hd : d = 1 := by omega
    simp [Holds, hd]
  split
  · rename_i hconst
    intro ρ
    rw [hmod, Form.value_of_isConst hconst, Int.dvd_iff_emod_eq_zero, hself, beq_iff_eq]
  split
  · rename_i hr
    intro ρ
    have hr := bne_iff_ne.mp hr
    exact iff_of_false (fun h => hr (Form.dvd_const_of_dvd_value hdvd hterms ((hmod ρ).mp h))) (by simp)
  · rename_i hr
    have hr : s.const % (Nat.gcd s.content d : Nat) = 0 := by simpa using hr
    exact ⟨⟨Nat.div_pos (Nat.le_of_dvd hd hdvd) (Nat.gcd_pos_of_pos_right _ hd), hs.quotient _⟩,
      fun ρ => (hmod ρ).trans (Form.dvd_value_iff_quotient hd hdvd hterms hr)⟩

lemma IsProper.isReduct (h : a.IsProper) : a.IsReduct a.reduce := by
  cases a with
  | zero t => exact isReduct_zero h
  | nonneg t => exact isReduct_nonneg h
  | divides d t => exact isReduct_divides h.1 h.2

end

/-! ### Denial -/

/-- **Where a condition does not hold, one of those does that deny it.** -/
theorem IsProper.exists_negate (h : a.IsProper) (hn : ¬ a.Holds ρ) : ∃ b ∈ a.negate, b.IsMet ρ := by
  cases a with
  | zero t =>
    rcases Int.lt_or_gt_of_ne hn with hlt | hgt
    · exact ⟨_, List.mem_cons_of_mem _ List.mem_cons_self, Form.IsOrdered.plus (Form.IsOrdered.neg h) _,
        by simp only [Holds, Form.value_plus, Form.value_neg]; omega⟩
    · exact ⟨_, List.mem_cons_self, Form.IsOrdered.plus h _,
        by simp only [Holds, Form.value_plus]; omega⟩
  | nonneg t =>
    have hn : ¬ 0 ≤ t.value ρ := hn
    exact ⟨_, List.mem_cons_self, Form.IsOrdered.plus (Form.IsOrdered.neg h) _,
      by simp only [Holds, Form.value_plus, Form.value_neg]; omega⟩
  | divides d t =>
    obtain ⟨hd, ht⟩ := h
    have hn : ¬ (d : Int) ∣ t.value ρ := hn
    -- what is missing to the next multiple of the divisor
    obtain ⟨r, hr⟩ := Int.eq_ofNat_of_zero_le (Int.emod_nonneg (t.value ρ) (show (d : Int) ≠ 0 by omega))
    have hlt := Int.emod_lt_of_pos (t.value ρ) (show (0 : Int) < d by omega)
    have hne : t.value ρ % d ≠ 0 := fun h0 => hn (Int.dvd_of_emod_eq_zero h0)
    refine ⟨.divides d (t.plus (Int.ofNat (d - 1 - r) + 1)), List.mem_map_of_mem (List.mem_range.mpr ?_),
      ⟨hd, ht.plus _⟩, t.value ρ / d + 1, ?_⟩
    · omega
    · have := Int.emod_add_mul_ediv (t.value ρ) d
      rw [Form.value_plus, Int.ofNat_eq_natCast, Int.mul_add]
      omega

end Atom

namespace Cube

variable {c : Cube} {a : Atom} {as : List Atom}

def IsProper (c : Cube) : Prop := ∀ a ∈ c, a.IsProper

def IsMet (ρ : Nat → Int) (c : Cube) : Prop := ∀ a ∈ c, a.IsMet ρ

lemma IsMet.of_subset {c' : Cube} (hc : c.IsMet ρ) (h : c' ⊆ c) : c'.IsMet ρ := fun a ha => hc a (h ha)

lemma IsProper.cons (hc : c.IsProper) (ha : a.IsProper) : IsProper (a :: c) :=
  List.forall_mem_cons.mpr ⟨ha, hc⟩

lemma IsProper.append {d : Cube} (hc : c.IsProper) (hd : d.IsProper) : IsProper (c ++ d) :=
  List.forall_mem_append.mpr ⟨hc, hd⟩

lemma IsMet.append {d : Cube} (hc : c.IsMet ρ) (hd : d.IsMet ρ) : IsMet ρ (c ++ d) :=
  List.forall_mem_append.mpr ⟨hc, hd⟩

lemma IsMet.cons (hc : c.IsMet ρ) (ha : a.IsMet ρ) : IsMet ρ (a :: c) := List.forall_mem_cons.mpr ⟨ha, hc⟩

lemma IsProper.lift (hc : c.IsProper) (k : Nat) : (c.lift k).IsProper :=
  List.forall_mem_map.mpr fun a ha => (hc a ha).lift k

lemma IsMet.lift {k : Nat} (hc : c.IsMet fun x => ρ (x + k)) : (c.lift k).IsMet ρ :=
  List.forall_mem_map.mpr fun a ha => ⟨(hc a ha).1.lift k, (Atom.holds_lift k a).mpr (hc a ha).2⟩

lemma IsProper.bind (hc : c.IsProper) {σ : Nat → Form} (hσ : ∀ x, (σ x).IsOrdered) :
    IsProper (c.bind σ) := List.forall_mem_map.mpr fun a ha => (hc a ha).bind hσ

/-! ### One condition more -/

section

variable {ts : List (Nat × Int)} {n : Int}

lemma withoutLeast_subset (c : Cube) (ts : List (Nat × Int)) : c.withoutLeast ts ⊆ c :=
  List.filter_sublist.subset

lemma sum_neg_terms (t : Form) : Form.sum ρ t.neg.terms = -Form.sum ρ t.terms := by
  have h := Form.value_neg (ρ := ρ) t
  have hconst : t.neg.const = -t.const := by simp [Form.neg, Form.scale]
  simp only [Form.value, hconst] at h
  omega

lemma IsMet.eq_value (hc : c.IsMet ρ) (h : c.value? ts = some n) : Form.sum ρ ts = n := by
  obtain ⟨a, ha, heq⟩ := List.exists_of_findSome?_eq_some h
  have hmet := (hc a ha).2
  cases a with
  | nonneg t | divides d t => cases heq
  | zero s =>
    rw [Atom.Holds, Form.value] at hmet
    dsimp only at heq
    split at heq
    · rename_i hs
      rw [← eq_of_beq hs]
      cases heq
      omega
    split at heq
    · rename_i hs
      rw [← eq_of_beq hs, sum_neg_terms]
      cases heq
      omega
    · cases heq

lemma IsMet.least_le (hc : c.IsMet ρ) (h : c.least? ts = some n) : n ≤ Form.sum ρ ts := by
  obtain ⟨a, ha, heq⟩ := List.exists_of_findSome?_eq_some h
  have hmet := (hc a ha).2
  cases a with
  | zero t | divides d t => cases heq
  | nonneg s =>
    have hmet : 0 ≤ s.const + Form.sum ρ s.terms := hmet
    dsimp only at heq
    split at heq
    · rename_i hs
      rw [← eq_of_beq hs]
      cases heq
      omega
    · cases heq

lemma IsMet.push_nonneg {t : Form} (hc : c.IsMet ρ) (ha : (Atom.nonneg t).IsMet ρ) :
    ∃ c', c.push (.nonneg t) = some c' ∧ c'.IsMet ρ := by
  have ht : 0 ≤ t.const + Form.sum ρ t.terms := ha.2
  simp only [push]
  split
  · rename_i n hn
    rw [if_pos (by have := hc.eq_value hn; omega)]
    exact ⟨c, rfl, hc⟩
  split
  · exact ⟨c, rfl, hc⟩
  have hrest := hc.of_subset (withoutLeast_subset c t.terms)
  split
  · exact ⟨_, rfl, hrest.cons ha⟩
  · rename_i n hn
    have hle := hc.least_le hn
    rw [sum_neg_terms] at hle
    rw [if_neg (by omega)]
    split
    · refine ⟨_, rfl, (hrest.of_subset (withoutLeast_subset _ _)).cons ⟨Form.IsOrdered.oriented ha.1, ?_⟩⟩
      rw [Atom.Holds, Form.value_oriented_eq_zero, Form.value]
      omega
    · exact ⟨_, rfl, hrest.cons ha⟩

lemma IsMet.push_zero {t : Form} (hc : c.IsMet ρ) (ha : (Atom.zero t).IsMet ρ) :
    ∃ c', c.push (.zero t) = some c' ∧ c'.IsMet ρ := by
  have ht : t.const + Form.sum ρ t.terms = 0 := ha.2
  simp only [push]
  split
  · rename_i n hn
    rw [if_pos (by have := hc.eq_value hn; omega)]
    exact ⟨c, rfl, hc⟩
  split
  · rename_i hn
    obtain ⟨n, hn, hlt⟩ := (Option.any_eq_true _ _).mp hn
    have hle := hc.least_le hn
    simp only [decide_eq_true_eq] at hlt
    omega
  split
  · rename_i hn
    obtain ⟨n, hn, hlt⟩ := (Option.any_eq_true _ _).mp hn
    have hle := hc.least_le hn
    rw [sum_neg_terms] at hle
    simp only [decide_eq_true_eq] at hlt
    omega
  · exact ⟨_, rfl, ((hc.of_subset (withoutLeast_subset _ _)).of_subset (withoutLeast_subset _ _)).cons ha⟩

lemma IsMet.push (hc : c.IsMet ρ) (ha : a.IsMet ρ) : ∃ c', c.push a = some c' ∧ c'.IsMet ρ := by
  cases a with
  | nonneg t => exact hc.push_nonneg ha
  | zero t => exact hc.push_zero ha
  | divides d t =>
    simp only [Cube.push]
    split
    · exact ⟨c, rfl, hc⟩
    · exact ⟨_, rfl, hc.cons ha⟩

end

lemma IsMet.add (hc : c.IsMet ρ) (ha : a.IsMet ρ) : ∃ c', c.add a = some c' ∧ c'.IsMet ρ := by
  have hred := ha.1.isReduct
  unfold Cube.add
  cases hr : a.reduce with
  | inl b =>
    rw [hr] at hred
    obtain rfl := (hred ρ).mp ha.2
    exact ⟨c, rfl, hc⟩
  | inr b =>
    rw [hr] at hred
    exact hc.push ⟨hred.1, (hred.2 ρ).mp ha.2⟩

/-- **A conjunction stays met as it grows**; none is given up that some values meet. -/
theorem IsMet.addAll (hc : c.IsMet ρ) (has : IsMet ρ as) :
    ∃ c', c.addAll as = some c' ∧ c'.IsMet ρ := by
  unfold Cube.addAll
  induction as generalizing c with
  | nil => exact ⟨c, rfl, hc⟩
  | cons a as ih =>
    obtain ⟨ha, has⟩ := List.forall_mem_cons.mp has
    obtain ⟨d, hd, hmet⟩ := hc.add ha
    simpa [List.foldlM_cons, hd] using ih hmet has

lemma mem_push {b : Atom} {d : Cube} (h : c.push a = some d) (hb : b ∈ d) :
    b ∈ c ∨ b = a ∨ ∃ t, a = .nonneg t ∧ b = .zero t.oriented := by
  have hrest (ts : List (Nat × Int)) : b ∈ c.withoutLeast ts → b ∈ c := fun h => withoutLeast_subset c ts h
  have hrest' (ts us : List (Nat × Int)) : b ∈ (c.withoutLeast ts).withoutLeast us → b ∈ c :=
    fun h => hrest ts (withoutLeast_subset _ us h)
  cases a with
  | divides k t =>
    simp only [Cube.push] at h
    split at h <;> cases h
    · exact .inl hb
    · exact (List.mem_cons.mp hb).symm.imp_right .inl
  | nonneg t =>
    simp only [Cube.push] at h
    split at h
    · split at h <;> cases h
      exact .inl hb
    split at h
    · cases h
      exact .inl hb
    split at h
    · cases h
      exact (List.mem_cons.mp hb).symm.imp (hrest _) .inl
    split at h
    · cases h
    split at h <;> cases h
    · exact (List.mem_cons.mp hb).symm.imp (hrest' _ _) fun h => .inr ⟨t, rfl, h⟩
    · exact (List.mem_cons.mp hb).symm.imp (hrest _) .inl
  | zero t =>
    simp only [Cube.push] at h
    split at h
    · split at h <;> cases h
      exact .inl hb
    split at h
    · cases h
    split at h <;> cases h
    exact (List.mem_cons.mp hb).symm.imp (hrest' _ _) .inl

lemma IsProper.add {d : Cube} (hc : c.IsProper) (ha : a.IsProper) (h : c.add a = some d) : d.IsProper := by
  have hred := ha.isReduct
  unfold Cube.add at h
  cases hr : a.reduce with
  | inl b =>
    rw [hr] at h
    obtain ⟨-, h⟩ := Option.ite_none_right_eq_some.mp h
    cases h
    exact hc
  | inr b =>
    rw [hr] at h hred
    intro e he
    rcases mem_push h he with he | rfl | ⟨t, rfl, rfl⟩
    · exact hc e he
    · exact hred.1
    · exact Form.IsOrdered.oriented hred.1

lemma IsProper.addAll {d : Cube} (hc : c.IsProper) (has : IsProper as) (h : c.addAll as = some d) :
    d.IsProper := by
  unfold Cube.addAll at h
  induction as generalizing c with
  | nil =>
    cases h
    exact hc
  | cons a as ih =>
    obtain ⟨ha, has⟩ := List.forall_mem_cons.mp has
    rw [List.foldlM_cons] at h
    obtain ⟨c', hc', hd⟩ := Option.bind_eq_some_iff.mp h
    exact ih (hc.add ha hc') has hd

lemma isProper_nil : IsProper [] := fun _ h => nomatch h

lemma IsProper.ofList {d : Cube} (has : IsProper as) (h : Cube.ofList as = some d) : d.IsProper :=
  isProper_nil.addAll has h

lemma IsMet.isProper (hc : c.IsMet ρ) : c.IsProper := fun a ha => (hc a ha).1

lemma isMet_nil : IsMet ρ [] := fun _ h => nomatch h

lemma exists_ofList (has : IsMet ρ as) : ∃ c, ofList as = some c ∧ c.IsMet ρ := isMet_nil.addAll has

end Cube

end Horn.Linear

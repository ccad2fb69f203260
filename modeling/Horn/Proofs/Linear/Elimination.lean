import Horn.Linear.Elimination
import Horn.Proofs.Linear.Cube
import Mathlib.Data.Int.GCD
import Mathlib.Data.Int.ModEq
import Mathlib.Tactic.LinearCombination

/-!
What is lost when a variable is taken out: nothing. Main statement: of the conjunctions that it is taken out
to one is met, with some value of the variable (`Cube.IsMet.eliminate`).
-/

namespace Horn.Linear

variable {ρ : Nat → Int} {x : Nat}

namespace Atom

variable {a b : Atom}

/-- The condition asks for a remainder of something that the variable occurs in. -/
def dividesWith (x : Nat) : Atom → Bool
  | .divides _ t => t.coeff x != 0
  | _ => false

lemma IsProper.dividesWith_of_reduce (h : a.IsProper) (hr : a.reduce = .inr b)
    (hb : b.dividesWith x = true) : a.dividesWith x = true := by
  cases a with
  | zero t =>
    simp only [reduce] at hr
    split at hr
    · cases hr
    split at hr <;> cases hr
    cases hb
  | nonneg t =>
    simp only [reduce] at hr
    split at hr <;> cases hr
    cases hb
  | divides d t =>
    rw [reduce_divides] at hr
    dsimp only at hr
    split at hr
    · cases hr
    split at hr
    · cases hr
    split at hr <;> cases hr
    simp only [dividesWith, bne_iff_ne, Form.coeff_quotient] at hb ⊢
    intro h0
    rw [h.2.coeff_modulo d h0, Int.zero_ediv] at hb
    exact hb rfl

/-- An equation of a variable stays one in lowest terms. -/
lemma coeff_of_reduce_zero {t : Form} (hx : t.coeff x ≠ 0) (hr : (zero t).reduce = .inr b) :
    ∃ s, b = zero s ∧ s.coeff x ≠ 0 := by
  simp only [reduce] at hr
  split at hr
  · cases hr
  split at hr <;> cases hr
  refine ⟨_, rfl, fun h0 => ?_⟩
  have h0 : (t.quotient t.content).coeff x = 0 := Form.coeff_oriented_eq_zero.mp h0
  rw [Form.coeff_quotient] at h0
  have hdvd : (t.content : Int) ∣ t.coeff x := t.content_dvd _ (Form.mem_of_coeff_ne hx)
  exact hx (by rw [← Int.mul_ediv_cancel' hdvd, h0, Int.mul_zero])

lemma reduce_zero_ne_inl {t : Form} (hx : t.coeff x ≠ 0) : (zero t).reduce ≠ .inl true := by
  intro hr
  simp only [reduce] at hr
  split at hr
  · rename_i hg
    have hdvd := t.content_dvd _ (Form.mem_of_coeff_ne hx)
    rw [hg] at hdvd
    exact hx (Int.zero_dvd.mp hdvd)
  split at hr <;> cases hr

lemma dividesWith_replace {g : Nat} {s : Form} (h : (a.replace x g s).dividesWith x = true) :
    a.dividesWith x = true := by
  cases a with
  | zero t | nonneg t =>
    simp only [replace] at h
    split at h <;> cases h
  | divides d t =>
    simp only [replace] at h
    split at h
    · exact h
    · exact bne_iff_ne.mpr ‹_›

end Atom

namespace Cube

variable {c d : Cube} {ds : List Cube} {a : Atom} {as : List Atom} {t : Form} {n : Nat}

/-! ### Equations and divisors -/

lemma equationOf?_eq_some (h : c.equationOf? x = some t) : .zero t ∈ c ∧ t.coeff x ≠ 0 := by
  have hfold : ∀ s, c.equationOf? x = some s → .zero s ∈ c ∧ s.coeff x ≠ 0 := by
    rw [equationOf?]
    refine List.foldlRecOn c _
      (motive := fun best : Option Form => ∀ s, best = some s → .zero s ∈ c ∧ s.coeff x ≠ 0)
      ?_ fun best hbest a ha s hs => ?_
    · exact fun s hs => nomatch hs
    cases a with
    | nonneg u | divides d u => exact hbest s hs
    | zero u =>
      dsimp only at hs
      split at hs
      · exact hbest s hs
      rename_i hu
      have hu : u.coeff x ≠ 0 := fun h0 => hu (by rw [h0]; rfl)
      split at hs
      · split at hs
        · cases hs
          exact ⟨ha, hu⟩
        · exact hbest s hs
      · cases hs
        exact ⟨ha, hu⟩
  exact hfold t h

lemma equationOf?_isSome (ht : .zero t ∈ c) (hx : t.coeff x ≠ 0) : (c.equationOf? x).isSome := by
  obtain ⟨as, bs, rfl⟩ := List.append_of_mem ht
  rw [equationOf?, List.foldl_append, List.foldl_cons]
  generalize List.foldl _ none as = best
  have hx : (t.coeff x).natAbs ≠ 0 := Int.natAbs_ne_zero.mpr hx
  refine List.foldlRecOn bs _ (motive := fun best : Option Form => best.isSome = true) ?_ fun best hbest a ha => ?_
  · dsimp only
    rw [if_neg hx]
    cases best with
    | none => rfl
    | some s =>
      dsimp only
      split <;> rfl
  · cases a with
    | nonneg u | divides d u => exact hbest
    | zero u =>
      dsimp only
      split
      · exact hbest
      split
      · split
        · rfl
        · exact hbest
      · rfl

lemma coeff_of_equationOf?_none (h : c.equationOf? x = none) (ht : .zero t ∈ c) : t.coeff x = 0 := by
  by_contra hx
  have := equationOf?_isSome ht hx
  rw [h] at this
  cases this

lemma terms_of_value? {n : Int} {ts : List (Nat × Int)} (h : c.value? ts = some n) :
    ∃ s, .zero s ∈ c ∧ (s.terms = ts ∨ s.neg.terms = ts) := by
  obtain ⟨a, ha, heq⟩ := List.exists_of_findSome?_eq_some h
  cases a with
  | nonneg s | divides d s => cases heq
  | zero s =>
    dsimp only at heq
    split at heq
    · exact ⟨s, ha, .inl (eq_of_beq ‹_›)⟩
    split at heq
    · exact ⟨s, ha, .inr (eq_of_beq ‹_›)⟩
    · cases heq

/-- An equation that is added is there, unless there was one of the variable. -/
lemma equationOf?_add (h : c.add (.zero t) = some d) (hx : t.coeff x ≠ 0) (hc : c.equationOf? x = none) :
    (d.equationOf? x).isSome := by
  unfold add at h
  cases hr : (Atom.zero t).reduce with
  | inl b =>
    rw [hr] at h
    obtain ⟨rfl, -⟩ := Option.ite_none_right_eq_some.mp h
    exact absurd hr (Atom.reduce_zero_ne_inl hx)
  | inr b =>
    obtain ⟨s, rfl, hs⟩ := Atom.coeff_of_reduce_zero hx hr
    rw [hr] at h
    simp only [push] at h
    split at h
    · rename_i n hn
      obtain ⟨u, hu, hterms⟩ := terms_of_value? hn
      have hcoeff : s.coeff x = u.coeff x ∨ s.coeff x = u.neg.coeff x := by
        simp only [Form.coeff]
        exact hterms.imp (fun h => by rw [h]) fun h => by rw [h]
      rw [Form.coeff_neg, coeff_of_equationOf?_none hc hu, neg_zero, or_self] at hcoeff
      exact absurd hcoeff hs
    split at h
    · cases h
    split at h
    · cases h
    · cases h
      exact equationOf?_isSome List.mem_cons_self hs

/-- How many conditions ask for a remainder of something that the variable occurs in. -/
def divisors (x : Nat) (c : Cube) : Nat := c.countP (Atom.dividesWith x)

lemma divisors_of_sublist (h : c.Sublist d) : c.divisors x ≤ d.divisors x := h.countP_le

lemma divisors_cons (a : Atom) (c : Cube) :
    divisors x (a :: c) = c.divisors x + if a.dividesWith x then 1 else 0 := List.countP_cons

lemma withoutLeast_sublist (c : Cube) (ts : List (Nat × Int)) : (c.withoutLeast ts).Sublist c :=
  List.filter_sublist

lemma divisors_push (h : c.push a = some d) : d.divisors x ≤ divisors x (a :: c) := by
  rw [divisors_cons]
  have hrest (ts : List (Nat × Int)) := divisors_of_sublist (x := x) (withoutLeast_sublist c ts)
  have hrest' (ts us : List (Nat × Int)) := divisors_of_sublist (x := x)
    ((withoutLeast_sublist (c.withoutLeast ts) us).trans (withoutLeast_sublist c ts))
  cases a with
  | divides k t =>
    simp only [push] at h
    split at h <;> cases h
    · exact Nat.le_add_right _ _
    · exact (divisors_cons _ _).le
  | nonneg t =>
    simp only [push] at h
    split at h
    · split at h <;> cases h
      exact Nat.le_add_right _ _
    split at h
    · cases h
      exact Nat.le_add_right _ _
    split at h
    · cases h
      simpa [divisors_cons, Atom.dividesWith] using hrest _
    split at h
    · cases h
    split at h <;> cases h
    · simpa [divisors_cons, Atom.dividesWith] using hrest' _ _
    · simpa [divisors_cons, Atom.dividesWith] using hrest _
  | zero t =>
    simp only [push] at h
    split at h
    · split at h <;> cases h
      exact Nat.le_add_right _ _
    split at h
    · cases h
    split at h <;> cases h
    simpa [divisors_cons, Atom.dividesWith] using hrest' _ _

lemma divisors_add (ha : a.IsProper) (h : c.add a = some d) : d.divisors x ≤ divisors x (a :: c) := by
  unfold add at h
  cases hr : a.reduce with
  | inl b =>
    rw [hr] at h
    obtain ⟨-, h⟩ := Option.ite_none_right_eq_some.mp h
    cases h
    exact divisors_of_sublist (List.sublist_cons_self _ _)
  | inr b =>
    rw [hr] at h
    refine (divisors_push h).trans ?_
    rw [divisors_cons, divisors_cons]
    refine Nat.add_le_add_left ?_ _
    cases hb : b.dividesWith x with
    | false => exact Nat.zero_le _
    | true => rw [ha.dividesWith_of_reduce hr hb]

lemma divisors_addAll (has : ∀ a ∈ as, a.IsProper) (h : c.addAll as = some d) :
    d.divisors x ≤ c.divisors x + divisors x as := by
  unfold addAll at h
  induction as generalizing c with
  | nil =>
    cases h
    exact Nat.le_refl _
  | cons a as ih =>
    obtain ⟨ha, has⟩ := List.forall_mem_cons.mp has
    rw [List.foldlM_cons] at h
    obtain ⟨c', hc', hd⟩ := Option.bind_eq_some_iff.mp h
    have hle := divisors_add (x := x) ha hc'
    have := ih has hd
    rw [divisors_cons] at hle ⊢
    omega

/-! ### One variable out of an equation or a divisor -/

lemma IsMet.solve (hc : c.IsMet ρ) (ht : .zero t ∈ c) (hx : t.coeff x ≠ 0) :
    ∃ d, c.solve x t = some d ∧ d.IsMet ρ := by
  obtain ⟨hordered, hzero⟩ := hc _ ht
  have hpos : 0 < (t.coeff x).natAbs := Int.natAbs_pos.mpr hx
  have hs : ((t.without x).scale (if 0 < t.coeff x then -1 else 1)).IsOrdered :=
    (Form.IsOrdered.without hordered x).scale _
  have hvalue : ((t.without x).scale (if 0 < t.coeff x then -1 else 1)).value ρ =
      (t.coeff x).natAbs * ρ x := by
    have h0 : t.value ρ = 0 := hzero
    rw [Form.IsOrdered.value_eq hordered ρ x] at h0
    rw [Form.value_scale]
    split
    · rw [Int.natAbs_of_nonneg (by omega)]
      omega
    · rw [Int.ofNat_natAbs_of_nonpos (by omega), Int.neg_mul]
      omega
  refine exists_ofList (List.forall_mem_cons.mpr ⟨⟨⟨hpos, hs⟩, ρ x, hvalue⟩, fun b hb => ?_⟩)
  obtain ⟨a, ha, rfl⟩ := List.mem_map.mp hb
  have hmet := (hc a (List.mem_of_mem_erase ha)).replace (n := ρ x) hpos hs
    (by rwa [Function.update_eq_self])
  rwa [Function.update_eq_self] at hmet

lemma inverse_spec {k d : Nat} (hd : 0 < d) (h : Nat.Coprime k d) : inverse k d * k % d = 1 % d := by
  rw [inverse]
  cases hf : (List.range d).find? fun i => i * k % d == 1 % d with
  | none =>
    obtain ⟨i, hi, heq⟩ := Nat.exists_mul_mod_eq_of_coprime 1 h hd.ne'
    rw [Nat.mul_comm] at heq
    exact absurd (beq_iff_eq.mpr heq) (List.find?_eq_none.mp hf i (List.mem_range.mpr hi))
  | some i =>
    have heq := List.find?_some hf
    exact eq_of_beq heq

lemma divisorOf?_eq_some {k : Nat} (h : c.divisorOf? x = some (k, t)) : .divides k t ∈ c ∧ t.coeff x ≠ 0 := by
  obtain ⟨a, ha, heq⟩ := List.exists_of_findSome?_eq_some h
  cases a with
  | zero s | nonneg s => cases heq
  | divides e s =>
    dsimp only at heq
    split at heq <;> cases heq
    exact ⟨ha, ‹_›⟩

lemma dividesWith_of_divisorOf?_none (h : c.divisorOf? x = none) (ha : a ∈ c) :
    a.dividesWith x = false := by
  have hnone := List.findSome?_eq_none_iff.mp h a ha
  cases a with
  | zero s | nonneg s => rfl
  | divides e s =>
    dsimp only at hnone
    split at hnone <;> cases hnone
    rename_i hx
    simp [Atom.dividesWith, hx]

/-- A value of a variable that meets a condition of divisibility comes from a value of what the variable is
renamed to. -/
lemma exists_renamed {k d : Nat} {m r v : Int} (hd : 0 < d) (hk : (k : Int) = m % d)
    (h : (d : Int) ∣ m * v + r) :
    ((Nat.gcd k d : Nat) : Int) ∣ r ∧
      ∃ n, (d : Int) * n - inverse (k / Nat.gcd k d) (d / Nat.gcd k d) * r = Nat.gcd k d * v := by
  have hg := Nat.gcd_pos_of_pos_right k hd
  have hcoprime := Nat.coprime_div_gcd_div_gcd hg
  obtain ⟨k', hk'⟩ := Nat.gcd_dvd_left k d
  obtain ⟨d', hd'⟩ := Nat.gcd_dvd_right k d
  generalize Nat.gcd k d = g at *
  rw [Nat.div_eq_of_eq_mul_right hg hk', Nat.div_eq_of_eq_mul_right hg hd'] at hcoprime ⊢
  have hd'pos : 0 < d' := Nat.pos_of_mul_pos_left (hd' ▸ hd)
  obtain ⟨q, hq⟩ := Nat.modEq_iff_dvd.mp (inverse_spec hd'pos hcoprime)
  generalize inverse k' d' = u at hq ⊢
  obtain ⟨w, hw⟩ := h
  have hm := Int.emod_add_mul_ediv m d
  have hk' : (k : Int) = g * k' := by exact_mod_cast hk'
  have hd' : (d : Int) = g * d' := by exact_mod_cast hd'
  -- what the condition asks of the value, divided by the common divisor
  have hr : r = g * (d' * (w - m / d * v) - k' * v) := by
    rw [← hk, hk'] at hm
    rw [hd'] at hm hw ⊢
    linear_combination hw + v * hm
  refine ⟨⟨_, hr⟩, u * (w - m / d * v) + q * v, ?_⟩
  push_cast at hq
  rw [hr, hd']
  linear_combination (-(g : Int) * v) * hq

lemma divisors_replace (x g : Nat) (s : Form) (c : Cube) :
    divisors x (c.map (Atom.replace x g s)) ≤ c.divisors x := by
  rw [divisors, List.countP_map]
  exact List.countP_mono_left fun a _ => Atom.dividesWith_replace

/-- **A conjunction stays met as a variable is renamed**, with another value of the variable, and one condition
of divisibility less is left of the variable. -/
lemma IsMet.loosen {d : Nat} (hc : c.IsMet ρ) (ht : .divides d t ∈ c) (hx : t.coeff x ≠ 0) :
    ∃ c' n, c.loosen x d t = some c' ∧ c'.IsMet (Function.update ρ x n) ∧
      c'.divisors x < c.divisors x := by
  obtain ⟨⟨hd, hordered⟩, hdvd⟩ := hc _ ht
  have hd' : (0 : Int) < d := Int.natCast_pos.mpr hd
  have hk : (((t.coeff x % d).toNat : Nat) : Int) = t.coeff x % d :=
    Int.toNat_of_nonneg (Int.emod_nonneg _ hd'.ne')
  have hdvd : (d : Int) ∣ t.coeff x * ρ x + (t.without x).value ρ := by
    rw [← Form.IsOrdered.value_eq hordered ρ x]
    exact hdvd
  obtain ⟨hr, n, hn⟩ := exists_renamed hd hk hdvd
  have hg := Nat.gcd_pos_of_pos_right (t.coeff x % d).toNat hd
  unfold Cube.loosen
  dsimp only
  generalize hs : ((Form.var x).scale d).sub ((t.without x).scale _) = s
  have hsordered : s.IsOrdered := by
    rw [← hs]
    exact ((Form.isOrdered_var x).scale _).sub ((Form.IsOrdered.without hordered x).scale _)
  have hvalue : s.value (Function.update ρ x n) = Nat.gcd (t.coeff x % d).toNat d * ρ x := by
    rw [← hs, Form.value_sub, Form.value_scale, Form.value_scale, Form.value_var, Function.update_self,
      Form.value_without_update, hn]
  have hlist : ∀ a ∈ Atom.divides (Nat.gcd (t.coeff x % d).toNat d) (t.without x) ::
      (c.erase (.divides d t)).map (Atom.replace x (Nat.gcd (t.coeff x % d).toNat d) s),
      a.IsMet (Function.update ρ x n) := by
    refine List.forall_mem_cons.mpr ⟨⟨⟨hg, Form.IsOrdered.without hordered x⟩, ?_⟩, fun b hb => ?_⟩
    · rw [Atom.Holds, Form.value_without_update]
      exact hr
    · obtain ⟨a, ha, rfl⟩ := List.mem_map.mp hb
      exact (hc a (List.mem_of_mem_erase ha)).replace hg hsordered hvalue
  obtain ⟨c', hc', hmet⟩ := exists_ofList hlist
  refine ⟨c', n, hc', hmet, ?_⟩
  have hle := divisors_addAll (x := x) (fun a ha => (hlist a ha).1) hc'
  have herase : c.divisors x = divisors x (c.erase (.divides d t)) + 1 := by
    have hdiv : (Atom.divides d t).dividesWith x = true := bne_iff_ne.mpr hx
    rw [divisors, (List.perm_cons_erase ht).countP_eq, List.countP_cons_of_pos hdiv]
    rfl
  have hreplace := divisors_replace x (Nat.gcd (t.coeff x % d).toNat d) s (c.erase (.divides d t))
  rw [divisors_cons, show divisors x ([] : Cube) = 0 from rfl] at hle
  simp only [Atom.dividesWith, Form.coeff_without, bne_self_eq_false] at hle
  rw [if_neg (by simp)] at hle
  omega

lemma IsMet.loosenAll (hc : c.IsMet ρ) (hn : c.divisors x ≤ n) :
    ∃ c' m, loosenAll n x c = some c' ∧ c'.IsMet (Function.update ρ x m) ∧
      ((c'.equationOf? x).isSome ∨ ∀ a ∈ c', a.dividesWith x = false) := by
  induction n generalizing c ρ with
  | zero =>
    refine ⟨c, ρ x, rfl, by rwa [Function.update_eq_self], .inr fun a ha => ?_⟩
    exact Bool.eq_false_iff.mpr (List.countP_eq_zero.mp (Nat.le_zero.mp hn) a ha)
  | succ n ih =>
    rw [Cube.loosenAll]
    cases he : c.equationOf? x with
    | some s => exact ⟨c, ρ x, rfl, by rwa [Function.update_eq_self], .inl (by rw [he]; rfl)⟩
    | none =>
      cases hd : c.divisorOf? x with
      | none =>
        exact ⟨c, ρ x, rfl, by rwa [Function.update_eq_self],
          .inr fun a ha => dividesWith_of_divisorOf?_none hd ha⟩
      | some e =>
        obtain ⟨d, t⟩ := e
        obtain ⟨ht, hx⟩ := divisorOf?_eq_some hd
        obtain ⟨c₁, m₁, hc₁, hmet₁, hlt⟩ := hc.loosen ht hx
        obtain ⟨c₂, m₂, hc₂, hmet₂, hend⟩ := ih hmet₁ (by omega)
        rw [Function.update_idem] at hmet₂
        exact ⟨c₂, m₂, by simp only [hc₁, Option.bind_some, hc₂], hmet₂, hend⟩

/-! ### One variable out of its bounds -/

lemma mem_boundsOf {sign : Int} (h : t ∈ c.boundsOf x sign) : .nonneg t ∈ c ∧ 0 < sign * t.coeff x := by
  obtain ⟨a, ha, heq⟩ := List.mem_filterMap.mp h
  cases a with
  | zero s | divides d s => cases heq
  | nonneg s =>
    dsimp only at heq
    split at heq <;> cases heq
    exact ⟨ha, ‹_›⟩

lemma mem_boundsOf_of_mem {sign : Int} (h : .nonneg t ∈ c) (hx : 0 < sign * t.coeff x) :
    t ∈ c.boundsOf x sign :=
  List.mem_filterMap.mpr ⟨_, h, if_pos hx⟩

lemma exists_least {α : Type} (f : α → Int) {l : List α} (hl : l ≠ []) : ∃ a ∈ l, ∀ b ∈ l, f a ≤ f b := by
  induction l with
  | nil => exact absurd rfl hl
  | cons a l ih =>
    by_cases h : l = []
    · subst h
      exact ⟨a, List.mem_cons_self, by simp⟩
    · obtain ⟨b, hb, hmin⟩ := ih h
      rcases Int.le_total (f a) (f b) with hab | hba
      · exact ⟨a, List.mem_cons_self, List.forall_mem_cons.mpr ⟨Int.le_refl _, fun e he => hab.trans (hmin e he)⟩⟩
      · exact ⟨b, .tail _ hb, List.forall_mem_cons.mpr ⟨hba, hmin⟩⟩

/-- **A variable goes as far as its bounds on one side let it**: one of them comes closer to zero than the
factor of the variable, and all else stays met. -/
lemma IsMet.exists_end {sign : Int} (hsign : sign = 1 ∨ sign = -1) (hc : c.IsMet ρ)
    (he : c.equationOf? x = none) (hd : ∀ a ∈ c, a.dividesWith x = false) (hne : c.boundsOf x sign ≠ []) :
    ∃ n, c.IsMet (Function.update ρ x n) ∧
      ∃ t ∈ c.boundsOf x sign, t.value (Function.update ρ x n) < (t.coeff x).natAbs := by
  -- the number of steps that the closest bound allows
  obtain ⟨t, ht, hleast⟩ := exists_least (fun t : Form => t.value ρ / (t.coeff x).natAbs) hne
  have hsteps : 0 ≤ t.value ρ / (t.coeff x).natAbs :=
    Int.ediv_nonneg (hc _ (mem_boundsOf ht).1).2 (Int.natCast_nonneg _)
  generalize hm : t.value ρ / ((t.coeff x).natAbs : Int) = m at hleast hsteps
  have habs (s : Form) (hx : 0 < sign * s.coeff x) : ((s.coeff x).natAbs : Int) = sign * s.coeff x := by
    rcases hsign with rfl | rfl <;> omega
  have hvalue (s : Form) (hs : s.IsOrdered) :
      s.value (Function.update ρ x (ρ x - sign * m)) = s.value ρ - sign * s.coeff x * m := by
    rw [hs.value_update_eq]
    ring
  refine ⟨ρ x - sign * m, fun a ha => ?_, t, ht, ?_⟩
  · cases a with
    | zero s => exact (hc _ ha).update (coeff_of_equationOf?_none he ha) _
    | divides d s =>
      have hx : s.coeff x = 0 := by simpa [Atom.dividesWith] using hd _ ha
      exact (hc _ ha).update hx _
    | nonneg s =>
      obtain ⟨hs, hle⟩ := hc _ ha
      refine ⟨hs, ?_⟩
      have hle : 0 ≤ s.value ρ := hle
      rw [Atom.Holds, hvalue s hs]
      rcases Int.lt_or_le 0 (sign * s.coeff x) with hpos | hneg
      · have hm := hleast s (mem_boundsOf_of_mem ha hpos)
        rw [habs s hpos] at hm
        have := Int.mul_le_of_le_ediv hpos hm
        rw [mul_comm]
        omega
      · have := Int.mul_nonneg (show 0 ≤ -(sign * s.coeff x) by omega) hsteps
        rw [Int.neg_mul] at this
        omega
  · obtain ⟨hmem, hpos⟩ := mem_boundsOf ht
    rw [hvalue t (hc _ hmem).1, ← habs t hpos, ← hm]
    have hk : (0 : Int) < (t.coeff x).natAbs := by rwa [habs t hpos]
    have := Int.emod_lt_of_pos (t.value ρ) hk
    have := Int.emod_add_mul_ediv (t.value ρ) (t.coeff x).natAbs
    omega

/-- Where the bounds on one side end, an equation holds that a variable can be taken out with. -/
lemma IsMet.exists_solved {sign : Int} (hsign : sign = 1 ∨ sign = -1) (hc : c.IsMet ρ)
    (he : c.equationOf? x = none) (hd : ∀ a ∈ c, a.dividesWith x = false) (hne : c.boundsOf x sign ≠ []) :
    ∃ n, ∃ e ∈ (c.boundsOf x sign).flatMap fun t => (List.range (t.coeff x).natAbs).filterMap fun i => do
        let d ← c.add (.zero (t.plus (-Int.ofNat i)))
        d.solve x (← d.equationOf? x),
      e.IsMet (Function.update ρ x n) := by
  obtain ⟨n, hmet, t, ht, hlt⟩ := hc.exists_end hsign he hd hne
  obtain ⟨hmem, hpos⟩ := mem_boundsOf ht
  obtain ⟨hordered, hnonneg⟩ := hmet _ hmem
  obtain ⟨i, hi⟩ := Int.eq_ofNat_of_zero_le hnonneg
  have hx : t.coeff x ≠ 0 := fun h0 => by simp [h0] at hpos
  have hatom : (Atom.zero (t.plus (-Int.ofNat i))).IsMet (Function.update ρ x n) := by
    refine ⟨hordered.plus _, ?_⟩
    rw [Atom.Holds, Form.value_plus, hi, Int.ofNat_eq_natCast]
    omega
  obtain ⟨d, hadd, hdmet⟩ := hmet.add hatom
  obtain ⟨s, hs⟩ := Option.isSome_iff_exists.mp (equationOf?_add hadd hx he)
  obtain ⟨hzero, hsx⟩ := equationOf?_eq_some hs
  obtain ⟨e, hsolve, hemet⟩ := hdmet.solve hzero hsx
  refine ⟨n, e, List.mem_flatMap.mpr ⟨t, ht, List.mem_filterMap.mpr ⟨i, ?_, ?_⟩⟩, hemet⟩
  · exact List.mem_range.mpr (by omega)
  · simp only [hadd, hs, Option.bind_eq_bind, Option.bind_some, hsolve]

lemma IsMet.eliminateBounds (hc : c.IsMet ρ) (he : c.equationOf? x = none)
    (hd : ∀ a ∈ c, a.dividesWith x = false) (h : c.eliminateBounds x = some ds) :
    ∃ n, ∃ d ∈ ds, d.IsMet (Function.update ρ x n) := by
  have hrest : IsMet ρ (c.filter fun a => a.form.coeff x == 0) := hc.of_subset List.filter_sublist.subset
  simp only [Cube.eliminateBounds] at h
  split at h
  · cases h
    exact ⟨ρ x, _, List.mem_singleton_self _, by rwa [Function.update_eq_self]⟩
  rename_i hempty
  obtain ⟨hls, hus⟩ : c.boundsOf x 1 ≠ [] ∧ c.boundsOf x (-1) ≠ [] := by
    simpa using hempty
  split at h
  · cases h
    -- a lower bound and an upper one, with factors that let the variable go
    have hpairs : ∀ a ∈ (c.boundsOf x 1).flatMap fun l => (c.boundsOf x (-1)).map fun u =>
        Atom.nonneg ((l.scale (-u.coeff x)).add (u.scale (l.coeff x))), a.IsMet ρ := by
      intro a ha
      obtain ⟨l, hl, ha⟩ := List.mem_flatMap.mp ha
      obtain ⟨u, hu, rfl⟩ := List.mem_map.mp ha
      obtain ⟨hlmem, hlx⟩ := mem_boundsOf hl
      obtain ⟨humem, hux⟩ := mem_boundsOf hu
      obtain ⟨hlo, hlv⟩ := hc _ hlmem
      obtain ⟨huo, huv⟩ := hc _ humem
      refine ⟨(Form.IsOrdered.scale hlo _).add (Form.IsOrdered.scale huo _), ?_⟩
      rw [Atom.Holds, Form.value_add, Form.value_scale, Form.value_scale]
      exact Int.add_nonneg (Int.mul_nonneg (by omega) hlv) (Int.mul_nonneg (by omega) huv)
    obtain ⟨d, hadd, hmet⟩ := hrest.addAll hpairs
    exact ⟨ρ x, d, by simp [hadd], by rwa [Function.update_eq_self]⟩
  obtain ⟨sign, hsign, heq, hne⟩ : ∃ sign : Int, (sign = 1 ∨ sign = -1) ∧
      (if ends x (c.boundsOf x 1) ≤ ends x (c.boundsOf x (-1)) then c.boundsOf x 1 else c.boundsOf x (-1)) =
        c.boundsOf x sign ∧ c.boundsOf x sign ≠ [] := by
    split
    · exact ⟨1, .inl rfl, rfl, hls⟩
    · exact ⟨-1, .inr rfl, rfl, hus⟩
  rw [heq] at h
  split at h
  · cases h
  · cases h
    exact hc.exists_solved hsign he hd hne

/-- **Of the conjunctions that a variable is taken out to one is met**, with some value of the variable. -/
theorem IsMet.eliminate (hc : c.IsMet ρ) (h : c.eliminate x = some ds) :
    ∃ n, ∃ d ∈ ds, d.IsMet (Function.update ρ x n) := by
  obtain ⟨c', m, hc', hmet, hend⟩ := hc.loosenAll (x := x) List.countP_le_length
  rw [Cube.eliminate, hc'] at h
  dsimp only at h
  cases he : c'.equationOf? x with
  | some t =>
    rw [he] at h
    cases h
    obtain ⟨ht, hx⟩ := equationOf?_eq_some he
    obtain ⟨d, hd, hdmet⟩ := hmet.solve ht hx
    exact ⟨m, d, by simp [hd], hdmet⟩
  | none =>
    rw [he] at h
    obtain ⟨n, d, hd, hdmet⟩ := hmet.eliminateBounds he (hend.resolve_left (by simp [he])) h
    exact ⟨n, d, hd, by rwa [Function.update_idem] at hdmet⟩

/-! ### What is well-formed -/

lemma IsProper.solve (hc : c.IsProper) (ht : .zero t ∈ c) (hx : t.coeff x ≠ 0) (h : c.solve x t = some d) :
    d.IsProper := by
  have hpos : 0 < (t.coeff x).natAbs := Int.natAbs_pos.mpr hx
  have hs : ((t.without x).scale (if 0 < t.coeff x then -1 else 1)).IsOrdered :=
    (Form.IsOrdered.without (hc _ ht) x).scale _
  unfold Cube.solve at h
  refine IsProper.ofList ?_ h
  refine List.forall_mem_cons.mpr ⟨⟨hpos, hs⟩, fun b hb => ?_⟩
  obtain ⟨a, ha, rfl⟩ := List.mem_map.mp hb
  exact (hc a (List.mem_of_mem_erase ha)).replace hpos hs

lemma IsProper.loosen {k : Nat} (hc : c.IsProper) (ht : .divides k t ∈ c) (h : c.loosen x k t = some d) :
    d.IsProper := by
  obtain ⟨hk, hordered⟩ := hc _ ht
  have hg := Nat.gcd_pos_of_pos_right (t.coeff x % k).toNat hk
  unfold Cube.loosen at h
  refine IsProper.ofList ?_ h
  refine List.forall_mem_cons.mpr ⟨⟨hg, Form.IsOrdered.without hordered x⟩, fun b hb => ?_⟩
  obtain ⟨a, ha, rfl⟩ := List.mem_map.mp hb
  exact (hc a (List.mem_of_mem_erase ha)).replace hg
    (((Form.isOrdered_var x).scale _).sub ((Form.IsOrdered.without hordered x).scale _))

lemma IsProper.loosenAll (hc : c.IsProper) (h : Cube.loosenAll n x c = some d) : d.IsProper := by
  induction n generalizing c with
  | zero =>
    cases h
    exact hc
  | succ n ih =>
    rw [Cube.loosenAll] at h
    cases he : c.equationOf? x with
    | some s =>
      rw [he] at h
      cases h
      exact hc
    | none =>
      cases hd : c.divisorOf? x with
      | none =>
        rw [he, hd] at h
        cases h
        exact hc
      | some e =>
        rw [he, hd] at h
        obtain ⟨c', hc', h⟩ := Option.bind_eq_some_iff.mp h
        exact ih (hc.loosen (divisorOf?_eq_some hd).1 hc') h

lemma IsProper.eliminateBounds (hc : c.IsProper) (h : c.eliminateBounds x = some ds) (hd : d ∈ ds) :
    d.IsProper := by
  have hrest : IsProper (c.filter fun a => a.form.coeff x == 0) := fun a ha => hc a (List.filter_sublist.subset ha)
  have hbound {sign : Int} {u : Form} (hu : u ∈ c.boundsOf x sign) : u.IsOrdered := hc _ (mem_boundsOf hu).1
  simp only [Cube.eliminateBounds] at h
  split at h
  · cases h
    rwa [List.mem_singleton.mp hd]
  split at h
  · cases h
    refine hrest.addAll (fun a ha => ?_) (Option.mem_toList.mp hd)
    obtain ⟨l, hl, ha⟩ := List.mem_flatMap.mp ha
    obtain ⟨u, hu, rfl⟩ := List.mem_map.mp ha
    exact ((hbound hl).scale _).add ((hbound hu).scale _)
  -- whichever side the equations come from
  obtain ⟨sign, heq⟩ : ∃ sign : Int,
      (if ends x (c.boundsOf x 1) ≤ ends x (c.boundsOf x (-1)) then c.boundsOf x 1 else c.boundsOf x (-1)) =
        c.boundsOf x sign := by
    split
    · exact ⟨1, rfl⟩
    · exact ⟨-1, rfl⟩
  rw [heq] at h
  split at h
  · cases h
  · cases h
    obtain ⟨u, hu, hd⟩ := List.mem_flatMap.mp hd
    obtain ⟨i, -, hd⟩ := List.mem_filterMap.mp hd
    obtain ⟨e, hadd, hd⟩ := Option.bind_eq_some_iff.mp hd
    obtain ⟨s, hs, hd⟩ := Option.bind_eq_some_iff.mp hd
    obtain ⟨hzero, hsx⟩ := equationOf?_eq_some hs
    have hatom : (Atom.zero (u.plus (-Int.ofNat i))).IsProper := (hbound hu).plus _
    exact (hc.add hatom hadd).solve hzero hsx hd

lemma IsProper.eliminate (hc : c.IsProper) (h : c.eliminate x = some ds) (hd : d ∈ ds) : d.IsProper := by
  rw [Cube.eliminate] at h
  cases hl : Cube.loosenAll c.length x c with
  | none =>
    rw [hl] at h
    cases h
    cases hd
  | some e =>
    have he := hc.loosenAll hl
    rw [hl] at h
    dsimp only at h
    cases hq : e.equationOf? x with
    | some s =>
      rw [hq] at h
      cases h
      obtain ⟨hzero, hsx⟩ := equationOf?_eq_some hq
      exact he.solve hzero hsx (Option.mem_toList.mp hd)
    | none =>
      rw [hq] at h
      exact he.eliminateBounds h hd

end Cube

end Horn.Linear

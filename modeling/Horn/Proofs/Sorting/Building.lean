import Horn.Proofs.Sorting.Basic

/-!
Building terms of parts whose sorts are known. Main statement: an operator gives a term exactly for the
sorts that it takes, the term then has the sort that it tells, and otherwise the sorts also say how
building it fails.
-/

namespace Horn

namespace Term

open TermSort (Fits)

/-- How building a term ends: with one that has a sort as wanted, or with a failure where there is no such
sort; `P` says when the failure is an array for an integer. -/
inductive Built {α β : Type} (H : α → β → Prop) (R : β → Prop) (P : Prop) : Except CastError α → Prop where
  | ok {a : α} {b : β} (hb : R b) (ha : H a b) : Built H R P (.ok a)
  | refused (hR : ∀ b, ¬ R b) (hP : ¬ P) : Built H R P (.error .refused)
  | arrayAsInt (hR : ∀ b, ¬ R b) (hP : P) : Built H R P (.error .arrayAsInt)

section

variable {α β : Type} {H : α → β → Prop} {R : β → Prop} {P : Prop} {x : Except CastError α}

lemma Built.of_ok {a : α} (h : Built H R P x) (hx : x = .ok a) : ∃ b, R b ∧ H a b := by
  subst hx
  cases h with
  | ok hb ha => exact ⟨_, hb, ha⟩

lemma Built.exists_ok {b : β} (h : Built H R P x) (hb : R b) : ∃ a, x = .ok a := by
  cases h with
  | ok hb' ha => exact ⟨_, rfl⟩
  | refused hR hP => exact absurd hb (hR b)
  | arrayAsInt hR hP => exact absurd hb (hR b)

lemma Built.arrayAsInt_iff (h : Built H R P x) (hR : P → ∀ b, ¬ R b) : x = .error .arrayAsInt ↔ P := by
  cases h with
  | ok hb ha => exact ⟨nofun, fun hP => absurd hb (hR hP _)⟩
  | refused hR hP => exact ⟨nofun, fun h => absurd h hP⟩
  | arrayAsInt hR hP => exact ⟨fun _ => hP, fun _ => rfl⟩

variable {γ δ : Type} {H' : γ → δ → Prop} {R' : δ → Prop} {P' : Prop} {f : α → Except CastError γ}

lemma Built.bind (hx : Built H R P x) (hf : ∀ a b, R b → H a b → Built H' R' P' (f a))
    (hR : (∀ b, ¬ R b) → ∀ d, ¬ R' d) (hP : (∀ b, ¬ R b) → (P' ↔ P)) :
    Built H' R' P' (x >>= f) := by
  cases hx with
  | ok hb ha => exact hf _ _ hb ha
  | refused hn hp => exact .refused (hR hn) (by rwa [hP hn])
  | arrayAsInt hn hp => exact .arrayAsInt (hR hn) (by rwa [hP hn])

end

/-! ### Casts -/

/-- Where parts are cast from left to right, the first that does not fit is an array for an integer. -/
inductive StopsAtArray : List TermSort → List TermSort → Prop where
  | here {d r : TermSort} {ds ss : List TermSort} : StopsAtArray (.int :: ds) (.array d r :: ss)
  | later {d s : TermSort} {ds ss : List TermSort} (h : d.Fits s) (hs : StopsAtArray ds ss) :
    StopsAtArray (d :: ds) (s :: ss)

section

variable {a b c t : Term} {r s : TermSort}

lemma HasSort.boolToInt (h : t.HasSort .bool) : t.boolToInt.HasSort .int :=
  .op (.cons h (.cons (.int 1) (.cons (.int 0) .nil))) rfl

lemma castTo_built (ht : t.HasSort r) :
    Built HasSort (fun u => u = s ∧ s.Fits r) (s = .int ∧ ∃ d e, r = .array d e) (castTo s t) := by
  unfold castTo
  rw [ht.sort_eq]
  split
  · rename_i hs
    subst hs
    exact .ok ⟨rfl, .inl rfl⟩ ht
  · rename_i hs
    split
    · exact .ok ⟨rfl, .inr ⟨rfl, rfl⟩⟩ ht.boolToInt
    · refine .arrayAsInt ?_ ⟨rfl, _, _, rfl⟩
      simp
    · rename_i hbool harray
      refine .refused ?_ ?_
      · rintro u ⟨-, h | ⟨rfl, rfl⟩⟩
        · exact hs h
        · exact hbool rfl rfl
      · rintro ⟨rfl, d, e, rfl⟩
        exact harray d e rfl rfl

/-- **Casting from left to right** gives terms of the sorts that are wanted if all of them fit. -/
lemma castAll_built {ss rs : List TermSort} {ts : List Term} (hl : ss.length = ts.length)
    (hts : List.Forall₂ HasSort ts rs) : Built (List.Forall₂ HasSort)
      (fun us => us = ss ∧ List.Forall₂ Fits ss rs) (StopsAtArray ss rs) (castAll ss ts) := by
  induction ss generalizing ts rs with
  | nil =>
    obtain rfl := List.length_eq_zero_iff.mp hl.symm
    cases hts
    exact .ok ⟨rfl, .nil⟩ .nil
  | cons s ss ih =>
    rcases ts with _ | ⟨t, ts⟩
    · cases hl
    cases hts with
    | @cons _ r _ rs ht hts =>
      unfold castAll
      refine (castTo_built ht).bind ?_ ?_ ?_
      · -- the first part fits, so that the others decide
        rintro u _ ⟨rfl, hfit⟩ hu
        refine (ih (Nat.succ.inj hl) hts).bind ?_ ?_ ?_
        · rintro us _ ⟨rfl, hfits⟩ hus
          exact .ok ⟨rfl, .cons hfit hfits⟩ (.cons hu hus)
        · rintro hn _ ⟨rfl, hfits⟩
          cases hfits with
          | cons _ hfits => exact hn _ ⟨rfl, hfits⟩
        · intro _
          constructor
          · intro h
            cases h with
            | here => simp at hfit
            | later _ hs => exact hs
          · exact .later hfit
      · -- it does not: whatever follows, it is the one that is blamed
        rintro hn _ ⟨rfl, hfits⟩
        cases hfits with
        | cons hfit _ => exact hn _ ⟨rfl, hfit⟩
      · intro hn
        constructor
        · intro h
          cases h with
          | here => exact ⟨rfl, _, _, rfl⟩
          | later hfit _ => exact absurd ⟨rfl, hfit⟩ (hn _)
        · rintro ⟨rfl, d, e, rfl⟩
          exact .here

/-! ### Operators -/

def HaveSort (p : Term × Term) (s : TermSort) : Prop := p.1.HasSort s ∧ p.2.HasSort s

lemma meet_built (ha : a.HasSort r) (hb : b.HasSort s) :
    Built HaveSort (fun u => r.join? s = some u) False (meet a b) := by
  unfold meet
  rw [ha.sort_eq, hb.sort_eq]
  split
  · exact .ok rfl ⟨ha, hb.boolToInt⟩
  · exact .ok rfl ⟨ha.boolToInt, hb⟩
  · rename_i hib hbi
    have hj : r.join? s = if r = s then some r else none := by
      cases r <;> cases s <;> simp_all [TermSort.join?]
    rw [hj]
    split
    · rename_i h
      subst h
      exact .ok rfl ⟨ha, hb⟩
    · refine .refused (fun u hu => ?_) id
      cases hu

lemma meetInt_built (ha : a.HasSort r) (hb : b.HasSort s) :
    Built HaveSort (fun u => u = .int ∧ r.join? s = some .int) False (meetInt a b) := by
  unfold meetInt
  rw [ha.sort_eq, hb.sort_eq]
  split
  · exact .ok ⟨rfl, rfl⟩ ⟨ha, hb⟩
  · exact .ok ⟨rfl, rfl⟩ ⟨ha, hb.boolToInt⟩
  · exact .ok ⟨rfl, rfl⟩ ⟨ha.boolToInt, hb⟩
  · refine .refused ?_ id
    rintro u ⟨-, h⟩
    cases r <;> cases s <;> simp_all [TermSort.join?]

section

variable {o : Operator} {v : TermSort}

lemma HasSort.pair (ho : o.strictSort? [r, s] = some v) (ha : a.HasSort r) (hb : b.HasSort s) :
    (Term.op o [a, b]).HasSort v :=
  .op (.cons ha (.cons hb .nil)) ho

lemma arith_built (hl : o.looseSort? [r, s] = if r.join? s = some .int then some v else none)
    (ho : o.strictSort? [.int, .int] = some v) (ha : a.HasSort r) (hb : b.HasSort s) :
    Built HasSort (fun u => o.looseSort? [r, s] = some u) False (arith o a b) := by
  refine (meetInt_built ha hb).bind ?_ ?_ (fun _ => Iff.rfl)
  · rintro ⟨a', b'⟩ _ ⟨rfl, hj⟩ ⟨ha', hb'⟩
    exact .ok (by rw [hl, if_pos hj]) (.pair ho ha' hb')
  · intro hn u hu
    rw [hl] at hu
    split at hu
    · exact hn _ ⟨rfl, ‹_›⟩
    · cases hu

lemma compare_built (hl : o.looseSort? [r, s] = if r.join? s = some .int then some v else none)
    (ho : o.strictSort? [.int, .int] = some v) (ho' : (turned o).strictSort? [.int, .int] = some v)
    (ha : a.HasSort r) (hb : b.HasSort s) :
    Built HasSort (fun u => o.looseSort? [r, s] = some u) False (compare o a b) := by
  refine (meetInt_built ha hb).bind ?_ ?_ (fun _ => Iff.rfl)
  · rintro ⟨a', b'⟩ _ ⟨rfl, hj⟩ ⟨ha', hb'⟩
    refine .ok (b := v) (by rw [hl, if_pos hj]) ?_
    split
    · exact .pair ho' hb' ha'
    · exact .pair ho ha' hb'
  · intro hn u hu
    rw [hl] at hu
    split at hu
    · exact hn _ ⟨rfl, ‹_›⟩
    · cases hu

end

lemma sum_built (ha : a.HasSort r) (hb : b.HasSort s) :
    Built HasSort (fun u => Operator.add.looseSort? [r, s] = some u) False (sum a b) := by
  unfold sum
  rw [ha.sort_eq, hb.sort_eq]
  split
  · -- two Booleans, which no other arithmetic but the product takes
    exact .ok rfl (.pair rfl ha.boolToInt hb.boolToInt)
  · rename_i hbool
    refine (meetInt_built ha hb).bind ?_ ?_ (fun _ => Iff.rfl)
    · rintro ⟨a', b'⟩ _ ⟨rfl, hj⟩ ⟨ha', hb'⟩
      refine .ok (b := .int) ?_ (.pair rfl ha' hb')
      cases r <;> cases s <;> simp_all [TermSort.join?, Operator.looseSort?_add]
    · intro hn u hu
      cases r <;> cases s <;> simp_all [TermSort.join?, Operator.looseSort?_add]

lemma product_built (ha : a.HasSort r) (hb : b.HasSort s) :
    Built HasSort (fun u => Operator.mul.looseSort? [r, s] = some u) False (product a b) := by
  have hite : ∀ {c t : Term}, c.HasSort .bool → t.HasSort .int →
      (Term.op .ite [c, t, .int 0]).HasSort .int := fun hc ht =>
    .op (.cons hc (.cons ht (.cons (.int 0) .nil))) rfl
  unfold product
  rw [ha.sort_eq, hb.sort_eq]
  split
  · exact .ok rfl (.pair rfl ha hb)
  · exact .ok rfl (hite hb ha)
  · exact .ok rfl (hite ha hb)
  · exact .ok rfl (hite ha hb.boolToInt)
  · refine .refused ?_ id
    intro u hu
    cases r <;> cases s <;> simp_all [Operator.looseSort?_mul]

lemma equation_built (ha : a.HasSort r) (hb : b.HasSort s) :
    Built HasSort (fun u => Operator.eq.looseSort? [r, s] = some u) False (equation a b) := by
  have heq : ∀ {c t : Term} {u : TermSort}, c.HasSort u → t.HasSort u →
      (Term.op .eq [c, t]).HasSort .bool := fun hc ht => .pair (if_pos rfl) hc ht
  refine (meet_built ha hb).bind ?_ ?_ (fun _ => Iff.rfl)
  · rintro ⟨a', b'⟩ v hj ⟨ha', hb'⟩
    refine .ok (b := .bool) (by rw [Operator.looseSort?_eq, hj]; rfl) ?_
    split
    · exact heq hb' ha'
    · exact heq ha' hb'
  · intro hn u hu
    rw [Operator.looseSort?_eq] at hu
    obtain ⟨v, hv, -⟩ := Option.map_eq_some_iff.mp hu
    exact hn v hv

lemma choice_built {q : TermSort} (hc : c.HasSort q) (ha : a.HasSort r) (hb : b.HasSort s) :
    Built HasSort (fun u => Operator.ite.looseSort? [q, r, s] = some u) False (choice c a b) := by
  unfold choice
  rw [hc.sort_eq]
  split
  · rename_i hq
    subst hq
    refine (meet_built ha hb).bind ?_ ?_ (fun _ => Iff.rfl)
    · rintro ⟨a', b'⟩ v hj ⟨ha', hb'⟩
      exact .ok hj (.op (.cons hc (.cons ha' (.cons hb' .nil))) (if_pos rfl))
    · intro hn u hu
      exact hn u hu
  · rename_i hq
    refine .refused ?_ id
    intro u hu
    rw [Operator.looseSort?_ite, if_neg hq] at hu
    cases hu

end

end Term

/-- An array is met where an integer is wanted for the index or the element of an array. -/
def Operator.StopsAtArray : Operator → List TermSort → Prop
  | .select, [.array d _, i] => Term.StopsAtArray [d] [i]
  | .store, [.array d r, i, v] => Term.StopsAtArray [d, r] [i, v]
  | _, _ => False

namespace Term

open TermSort (Fits)

section

variable {a i v t : Term} {q r s : TermSort} {o : Operator}

lemma element_eq {d e : TermSort} (ha : a.sort = .array d e) :
    element a i = castAll [d] [i] >>= fun us => .ok (.op .select (a :: us)) := by
  unfold element
  rw [ha, castAll]
  dsimp only
  rcases castTo d i with x | u <;> rfl

lemma update_eq {d e : TermSort} (ha : a.sort = .array d e) :
    update a i v = castAll [d, e] [i, v] >>= fun us => .ok (.op .store (a :: us)) := by
  unfold update
  rw [ha, castAll, castAll]
  dsimp only
  rcases castTo d i with x | u
  · rfl
  · rcases castTo e v with x | w <;> rfl

lemma element_built (ha : a.HasSort q) (hi : i.HasSort r) :
    Built HasSort (fun u => Operator.select.looseSort? [q, r] = some u)
      (Operator.select.StopsAtArray [q, r]) (element a i) := by
  cases q with
  | int | bool =>
    unfold element
    rw [ha.sort_eq]
    exact .refused nofun id
  | array d e =>
    rw [element_eq ha.sort_eq]
    refine (castAll_built rfl (.cons hi .nil)).bind ?_ ?_ (fun _ => Iff.rfl)
    · rintro us _ ⟨rfl, hfits⟩ hus
      have hfit : d.Fits r := by simpa using hfits
      exact .ok (b := e) (if_pos hfit) (.op (.cons ha hus) (if_pos rfl))
    · intro hn u hu
      rw [Operator.looseSort?_select] at hu
      split at hu
      · exact hn _ ⟨rfl, .cons ‹_› .nil⟩
      · cases hu

lemma update_built (ha : a.HasSort q) (hi : i.HasSort r) (hv : v.HasSort s) :
    Built HasSort (fun u => Operator.store.looseSort? [q, r, s] = some u)
      (Operator.store.StopsAtArray [q, r, s]) (update a i v) := by
  cases q with
  | int | bool =>
    unfold update
    rw [ha.sort_eq]
    exact .refused nofun id
  | array d e =>
    rw [update_eq ha.sort_eq]
    refine (castAll_built rfl (.cons hi (.cons hv .nil))).bind ?_ ?_ (fun _ => Iff.rfl)
    · rintro us _ ⟨rfl, hfits⟩ hus
      have hfit : d.Fits r ∧ e.Fits s := by simpa using hfits
      exact .ok (b := .array d e) (if_pos hfit) (.op (.cons ha hus) (if_pos ⟨rfl, rfl⟩))
    · intro hn u hu
      rw [Operator.looseSort?_store] at hu
      split at hu
      · rename_i hfit
        exact hn _ ⟨rfl, .cons hfit.1 (.cons hfit.2 .nil)⟩
      · cases hu

/-- Connectives take Booleans as they are. -/
lemma connect_built {ts : List Term} {ss : List TermSort} (hts : List.Forall₂ HasSort ts ss)
    (ho : o.strictSort? ss = o.looseSort? ss)
    (hs : ∀ u, o.looseSort? ss = some u ↔ u = .bool ∧ ∀ s ∈ ss, s = .bool) :
    Built HasSort (fun u => o.looseSort? ss = some u) False (connect o ts) := by
  have hall : (ts.all fun t => t.sort = .bool) = true ↔ ∀ s ∈ ss, s = .bool := by
    rw [← map_sort_of_hasSort hts]
    simp
  unfold connect
  split
  · rename_i h
    have hbool := (hs .bool).mpr ⟨rfl, hall.mp h⟩
    exact .ok hbool (.op hts (ho.trans hbool))
  · rename_i h
    refine .refused ?_ id
    intro u hu
    exact h (hall.mpr ((hs u).mp hu).2)

lemma arity_of_ofOperator {ts : List Term} {u : Term} (h : ofOperator o ts = .ok u) :
    o.arity = ts.length := by
  unfold ofOperator at h
  split at h <;> first | rfl | cases h

/-- **An operator gives a term exactly for the sorts that it takes**, and fails otherwise as they tell. -/
lemma ofOperator_built {ts : List Term} {ss : List TermSort} (hl : o.arity = ts.length)
    (hts : List.Forall₂ HasSort ts ss) :
    Built HasSort (fun u => o.looseSort? ss = some u) (o.StopsAtArray ss) (ofOperator o ts) := by
  have pair : 2 = ts.length → ∃ a b r s, ts = [a, b] ∧ ss = [r, s] ∧ a.HasSort r ∧ b.HasSort s := by
    intro hl
    obtain ⟨a, b, rfl⟩ := List.length_eq_two.mp hl.symm
    obtain ⟨r, s, rfl, ha, hb⟩ := forall₂_pair hts
    exact ⟨a, b, r, s, rfl, rfl, ha, hb⟩
  have triple : 3 = ts.length → ∃ a b c q r s, ts = [a, b, c] ∧ ss = [q, r, s] ∧ a.HasSort q ∧
      b.HasSort r ∧ c.HasSort s := by
    intro hl
    obtain ⟨a, b, c, rfl⟩ := List.length_eq_three.mp hl.symm
    obtain ⟨q, r, s, rfl, ha, hb, hc⟩ := forall₂_triple hts
    exact ⟨a, b, c, q, r, s, rfl, rfl, ha, hb, hc⟩
  cases o with
  | not =>
    obtain ⟨a, rfl⟩ := List.length_eq_one_iff.mp hl.symm
    obtain ⟨r, rfl, ha⟩ := forall₂_single hts
    refine connect_built hts ?_ ?_
    · cases r <;> rfl
    · intro u
      rw [Operator.looseSort?_not]
      simp [@eq_comm _ u, and_comm]
  | and | or | implies =>
    obtain ⟨a, b, r, s, rfl, rfl, ha, hb⟩ := pair hl
    refine connect_built hts ?_ ?_
    · cases r <;> cases s <;> rfl
    · intro u
      rw [Operator.looseSort?_onBools _ _ (by simp)]
      simp [@eq_comm _ u, and_comm]
  | eq =>
    obtain ⟨a, b, r, s, rfl, rfl, ha, hb⟩ := pair hl
    exact equation_built ha hb
  | lt | le | gt | ge =>
    obtain ⟨a, b, r, s, rfl, rfl, ha, hb⟩ := pair hl
    exact compare_built rfl rfl rfl ha hb
  | add =>
    obtain ⟨a, b, r, s, rfl, rfl, ha, hb⟩ := pair hl
    exact sum_built ha hb
  | mul =>
    obtain ⟨a, b, r, s, rfl, rfl, ha, hb⟩ := pair hl
    exact product_built ha hb
  | sub | div =>
    obtain ⟨a, b, r, s, rfl, rfl, ha, hb⟩ := pair hl
    exact arith_built rfl rfl ha hb
  | select =>
    obtain ⟨a, i, r, s, rfl, rfl, ha, hi⟩ := pair hl
    exact element_built ha hi
  | ite =>
    obtain ⟨c, a, b, q, r, s, rfl, rfl, hc, ha, hb⟩ := triple hl
    exact choice_built hc ha hb
  | store =>
    obtain ⟨a, i, v, q, r, s, rfl, rfl, ha, hi, hv⟩ := triple hl
    exact update_built ha hi hv

end

end Term

end Horn

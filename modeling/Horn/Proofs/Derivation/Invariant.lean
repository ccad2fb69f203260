import Horn.Derivation.Invariant
import Horn.Proofs.Derivation.Region

/-!
What invariants say of facts. Main statement: invariants that refute a goal leave no way to reach it by facts
that follow (`Invariants.not_areMet_of_refute`), whatever was guessed before they settled.
-/

namespace Horn

open Linear

namespace Invariants

variable {I J : Invariants} {is : List Inference} {i : Inference} {p : Premises} {a : Application}
  {c : Cell} {ns : List Int} {ρ : Nat → Int} {as : List Atom} {n : Nat}

/-- The conditions on a cell hold of the integers. -/
def Allow (I : Invariants) (c : Cell) (ns : List Int) : Prop :=
  ∃ as, I.lookup c = some as ∧ ∀ a ∈ as, a.Holds (valuation ns)

def AreProper (I : Invariants) : Prop := ∀ e ∈ I, Cube.IsProper e.2

lemma mem_of_lookup (h : I.lookup c = some as) : (c, as) ∈ I := by
  obtain ⟨l, r, rfl, -⟩ := List.lookup_eq_some_iff.mp h
  exact List.mem_append_right _ List.mem_cons_self

lemma AreProper.of_lookup (hI : I.AreProper) (h : I.lookup c = some as) : Cube.IsProper as :=
  hI _ (mem_of_lookup h)

/-! ### What premises are given -/

lemma exists_of? (hI : I.AreProper) (ha : a.IsOrdered) (h : I.Allow a.cell (a.values ρ)) :
    ∃ bs, I.of? a = some bs ∧ Cube.IsMet ρ bs := by
  obtain ⟨as, has, hholds⟩ := h
  refine ⟨_, by rw [of?, has, Option.map_some], List.forall_mem_map.mpr fun b hb => ?_⟩
  exact Application.isMet_bind ha ⟨hI.of_lookup has b hb, hholds b hb⟩

lemma exists_mapM_of? (hI : I.AreProper) {bs : List Application} (hbs : ∀ b ∈ bs, b.IsOrdered)
    (h : ∀ b ∈ bs, I.Allow b.cell (b.values ρ)) :
    ∃ ass, bs.mapM I.of? = some ass ∧ Cube.IsMet ρ ass.flatten := by
  induction bs with
  | nil => exact ⟨[], rfl, Cube.isMet_nil⟩
  | cons b bs ih =>
    obtain ⟨hb, hbs⟩ := List.forall_mem_cons.mp hbs
    obtain ⟨hb', h⟩ := List.forall_mem_cons.mp h
    obtain ⟨as, has, hmet⟩ := exists_of? hI hb hb'
    obtain ⟨ass, hass, hmets⟩ := ih hbs h
    exact ⟨as :: ass, by simp [has, hass], hmet.append hmets⟩

/-- **Premises that are met by facts the invariants allow are not refuted.** -/
lemma exists_given? (hI : I.AreProper) (hp : p.IsProper) (h : p.AreMet I.Allow ρ) :
    ∃ c, I.given? p = some c ∧ c.IsMet ρ := by
  obtain ⟨ass, hass, hmets⟩ := exists_mapM_of? hI hp.facts h.facts
  obtain ⟨c, hc, hmet⟩ := Cube.exists_ofList (h.cube.append hmets)
  have hnonempty : c.isEmpty = false := by
    rw [Bool.eq_false_iff]
    exact fun hempty => Cube.not_isMet_of_isEmpty hempty ρ hmet
  exact ⟨c, by simp [given?, hass, hc, hnonempty], hmet⟩

/-! ### Weakening -/

lemma AreProper.weaken (hI : I.AreProper) (i : Inference) : (I.weaken i).AreProper := by
  unfold Invariants.weaken
  split
  · exact hI
  dsimp only
  split
  · exact List.forall_mem_cons.mpr ⟨Cube.isProper_nil, hI⟩
  · refine List.forall_mem_map.mpr fun e he => ?_
    split
    · exact fun a ha => hI e he a (List.mem_filter.mp ha).1
    · exact hI e he

lemma lookup_map_filter (I : Invariants) (d c : Cell) (q : Atom → Bool) :
    (I.map fun e => if e.1 == d then (e.1, e.2.filter q) else e).lookup c =
      (I.lookup c).map fun as => if c = d then as.filter q else as := by
  induction I with
  | nil => rfl
  | cons e I ih =>
    obtain ⟨f, as⟩ := e
    have hhead : (if f == d then (f, as.filter q) else (f, as)) = (f, if f = d then as.filter q else as) := by
      by_cases hfd : f = d <;> simp [hfd]
    rw [List.map_cons, hhead, List.lookup_cons, List.lookup_cons, ih]
    by_cases hcf : c = f
    · simp [hcf]
    · simp [beq_eq_false_iff_ne.mpr hcf]

/-- **Weakening allows no less**, and it allows what the inference leads to. -/
lemma Allow.weaken (h : I.Allow c ns) (i : Inference) : (I.weaken i).Allow c ns := by
  unfold Invariants.weaken
  split
  · exact h
  dsimp only
  obtain ⟨as, has, hholds⟩ := h
  split
  · rename_i hnone
    have hne : c ≠ i.conclusion.cell := by
      rintro rfl
      rw [hnone] at has
      cases has
    exact ⟨as, by rw [List.lookup_cons, beq_eq_false_iff_ne.mpr hne]; exact has, hholds⟩
  · refine ⟨_, by rw [lookup_map_filter, has, Option.map_some], fun a ha => ?_⟩
    split at ha
    · exact hholds a (List.mem_filter.mp ha).1
    · exact hholds a ha

lemma allow_weaken (hI : I.AreProper) (hi : i.IsProper) (h : i.premises.AreMet I.Allow ρ) :
    (I.weaken i).Allow i.conclusion.cell (i.conclusion.values ρ) := by
  obtain ⟨c, hc, hmet⟩ := exists_given? hI hi.premises h
  unfold Invariants.weaken
  rw [hc]
  dsimp only
  split
  · exact ⟨[], by rw [List.lookup_cons, beq_self_eq_true], fun a ha => nomatch ha⟩
  · rename_i as has
    refine ⟨_, by rw [lookup_map_filter, has, Option.map_some, if_pos rfl], fun a ha => ?_⟩
    obtain ⟨ha, hkeeps⟩ := List.mem_filter.mp ha
    have hproper : (a.bind fun j => i.conclusion.args.getD j (.ofInt 0)).IsProper :=
      (hI.of_lookup has a ha).bind (isOrdered_getD hi.conclusion)
    have hholds := hmet.holds_of_entails hproper hkeeps
    rw [Atom.holds_bind] at hholds
    simpa only [Application.value_getD] using hholds

lemma AreProper.foldl (hI : I.AreProper) : (is.foldl Invariants.weaken I).AreProper := by
  induction is generalizing I with
  | nil => exact hI
  | cons i is ih => exact ih (hI.weaken i)

lemma Allow.foldl (h : I.Allow c ns) : (is.foldl Invariants.weaken I).Allow c ns := by
  induction is generalizing I with
  | nil => exact h
  | cons i is ih => exact ih (h.weaken i)

lemma allow_foldl (hI : I.AreProper) (his : ∀ i ∈ is, i.IsProper) (hi : i ∈ is)
    (h : i.premises.AreMet I.Allow ρ) :
    (is.foldl Invariants.weaken I).Allow i.conclusion.cell (i.conclusion.values ρ) := by
  induction is generalizing I with
  | nil => cases hi
  | cons j is ih =>
    obtain ⟨hj, his⟩ := List.forall_mem_cons.mp his
    rcases List.mem_cons.mp hi with rfl | hi
    · exact (allow_weaken hI hj h).foldl
    · exact ih (hI.weaken j) his hi ⟨h.cube, fun a ha => (h.facts a ha).weaken j⟩

/-- **Invariants that have settled allow every fact that follows.** -/
theorem allow_of_settle (hI : I.AreProper) (his : ∀ i ∈ is, i.IsProper) (h : settle is n I = some J) :
    J.AreProper ∧ ∀ c ns, Derives is c ns → J.Allow c ns := by
  induction n generalizing I with
  | zero => cases h
  | succ n ih =>
    rw [settle] at h
    split at h
    · rename_i hfixed
      cases h
      refine ⟨hI, fun c ns => Derives.of_closed fun i hi ρ hmet => ?_⟩
      have hallow := allow_foldl hI his hi hmet
      rwa [eq_of_beq hfixed] at hallow
    · exact ih hI.foldl h

/-- **A goal that invariants refute is not reached by facts that they allow.** -/
lemma not_areMet_of_refute {gs : List Premises} {F : Cell → List Int → Prop} (hI : I.AreProper)
    (hgs : ∀ g ∈ gs, g.IsProper) (hF : ∀ c ns, F c ns → I.Allow c ns) (h : I.refute gs = true) :
    ∀ g ∈ gs, ∀ ρ, ¬ g.AreMet F ρ := by
  intro g hg ρ hmet
  obtain ⟨c, hc, -⟩ := exists_given? hI (hgs g hg) ⟨hmet.cube, fun a ha => hF _ _ (hmet.facts a ha)⟩
  have hnone := List.all_eq_true.mp h g hg
  rw [hc] at hnone
  cases hnone

end Invariants

/-! ### Guesses are well-formed -/

namespace Guess

variable {level : Guess} {numerals : List Int} {goal : List Premises} {cell : Cell} {cs : List Cube}
  {rs : List Region} {t : Form} {k : Nat}

lemma isProper_boundsAround (ht : t.IsOrdered) (cs : List Cube) : Cube.IsProper (Cube.boundsAround cs t) := by
  unfold Cube.boundsAround
  refine Cube.IsProper.append ?_ ?_
  · split
    · exact List.forall_mem_singleton.mpr (ht.plus _)
    · exact Cube.isProper_nil
  · split
    · exact List.forall_mem_singleton.mpr (ht.neg.plus _)
    · exact Cube.isProper_nil

lemma isProper_remainders {ds : List Nat} (ht : t.IsOrdered) (hds : ∀ d ∈ ds, 0 < d) (cs : List Cube) :
    Cube.IsProper (Cube.remainders cs ds t) := by
  unfold Cube.remainders
  split
  · intro a ha
    obtain ⟨d, hd, rfl⟩ := List.mem_map.mp (List.mem_filter.mp ha).1
    exact ⟨hds d hd, ht.plus _⟩
  · exact Cube.isProper_nil

lemma pos_of_mem_divisors : ∀ d ∈ divisors numerals, 0 < d := by
  intro d hd
  rw [divisors, List.mem_eraseDups, List.mem_append] at hd
  rcases hd with hd | hd
  · revert d
    decide
  · have := (List.mem_filter.mp hd).2
    simp only [decide_eq_true_eq] at this
    omega

lemma isOrdered_sumsOf : ∀ t ∈ sumsOf k, t.IsOrdered := by
  have hvar := Form.isOrdered_var
  intro t ht
  rcases List.mem_append.mp ht with ht | ht
  · obtain ⟨i, -, ht⟩ := List.mem_flatMap.mp ht
    obtain ⟨j, -, ht⟩ := List.mem_flatMap.mp ht
    simp only [List.mem_cons, List.not_mem_nil, or_false] at ht
    rcases ht with rfl | rfl
    · exact (hvar j).add (hvar i)
    · exact (hvar j).sub (hvar i)
  · obtain ⟨i, -, ht⟩ := List.mem_flatMap.mp ht
    obtain ⟨j, -, ht⟩ := List.mem_flatMap.mp ht
    obtain ⟨l, -, ht⟩ := List.mem_flatMap.mp ht
    simp only [List.mem_cons, List.not_mem_nil, or_false] at ht
    rcases ht with rfl | rfl | rfl | rfl
    · exact ((hvar l).add (hvar j)).add (hvar i)
    · exact ((hvar l).add (hvar j)).sub (hvar i)
    · exact ((hvar l).sub (hvar j)).add (hvar i)
    · exact ((hvar l).sub (hvar j)).sub (hvar i)

lemma isProper_demands {g : Premises} (hg : g.IsProper) : ∀ e ∈ demands g, Cube.IsProper e.2 := by
  intro e he
  obtain ⟨a, ha, he⟩ := List.mem_flatMap.mp he
  have hb := (hg.facts a ha).lift a.args.length
  dsimp only at he
  split at he
  · cases he
  · rename_i c hc
    have hproper := ((hg.cube.lift a.args.length).append (isProper_definitions hb)).ofList hc
    obtain ⟨d, hd, rfl⟩ := List.mem_map.mp he
    cases hproj : c.project (· < a.args.length) with
    | none =>
      rw [hproj] at hd
      cases hd
    | some ds =>
      rw [hproj] at hd
      exact hproper.project hproj d hd

lemma isProper_conditions (hgoal : ∀ g ∈ goal, g.IsProper) (hcs : ∀ c ∈ cs, c.IsProper) :
    Cube.IsProper (conditions level numerals goal cell cs) := by
  have hwanted : ∀ c ∈ (goal.flatMap demands).filterMap fun e => if e.1 == cell then some e.2 else none,
      Cube.IsProper c := by
    intro c hc
    obtain ⟨e, he, hc⟩ := List.mem_filterMap.mp hc
    obtain ⟨g, hg, he⟩ := List.mem_flatMap.mp he
    split at hc <;> cases hc
    exact isProper_demands (hgoal g hg) e he
  have hflatten {cs : List Cube} (hcs : ∀ c ∈ cs, c.IsProper) : Cube.IsProper cs.flatten := by
    intro a ha
    obtain ⟨c, hc, ha⟩ := List.mem_flatten.mp ha
    exact hcs c hc a ha
  intro a ha
  simp only [conditions] at ha
  rw [List.mem_eraseDups] at ha
  rcases List.mem_append.mp ha with ha | ha
  · rcases List.mem_append.mp ha with ha | ha
    · rcases List.mem_append.mp ha with ha | ha
      · obtain ⟨t, ht, ha⟩ := List.mem_flatMap.mp ha
        refine isProper_boundsAround ?_ cs a ha
        rw [List.mem_eraseDups, List.mem_append, List.mem_append] at ht
        rcases ht with (ht | ht) | ht
        · exact isOrdered_variablesFrom _ _ t ht
        · split at ht
          · cases ht
          · exact isOrdered_sumsOf t ht
        · obtain ⟨b, hb, rfl⟩ := List.mem_map.mp ht
          have hproper : b.IsProper := (List.mem_append.mp hb).elim (hflatten hcs b) (hflatten hwanted b)
          exact Form.IsOrdered.oriented (hproper.form)
      · obtain ⟨b, hb, ha⟩ := List.mem_flatMap.mp (List.mem_filter.mp ha).1
        exact (hflatten hwanted b hb).negate ha
    · exact hflatten hcs a (List.mem_filter.mp ha).1
  · split at ha
    · obtain ⟨t, ht, ha⟩ := List.mem_flatMap.mp ha
      refine isProper_remainders ?_ pos_of_mem_divisors cs a ha
      exact (List.mem_append.mp ht).elim (isOrdered_variablesFrom _ _ t) (isOrdered_sumsOf t)
    · cases ha

lemma areProper_invariants (hgoal : ∀ g ∈ goal, g.IsProper) (hrs : Region.AreProper rs) :
    (invariants level numerals goal rs).AreProper := by
  refine List.forall_mem_map.mpr fun cell _ => isProper_conditions hgoal fun c hc => ?_
  obtain ⟨r, hr, rfl⟩ := List.mem_map.mp hc
  exact hrs r (List.mem_filter.mp hr).1

end Guess

namespace Invariants

variable {P : Problem} {numerals : List Int} {rs : List Region} {I : Invariants}

lemma lookup_map_nil {cs : List Cell} {c : Cell} (h : c ∈ cs) :
    (cs.map fun c => (c, ([] : List Atom))).lookup c = some [] := by
  induction cs with
  | nil => cases h
  | cons d cs ih =>
    rw [List.map_cons, List.lookup_cons]
    by_cases hcd : c = d
    · rw [beq_iff_eq.mpr hcd]
    · rw [beq_eq_false_iff_ne.mpr hcd]
      exact ih ((List.mem_cons.mp h).resolve_left hcd)

/-- Invariants that were guessed allow every fact that follows. -/
lemma allow_ofGuess (hP : P.IsProper) (hrs : Region.AreProper rs) (level : Guess) :
    (ofGuess P numerals rs level).AreProper ∧
      ∀ c ns, Derives P.inferences c ns → (ofGuess P numerals rs level).Allow c ns := by
  unfold ofGuess
  dsimp only
  cases hs : settle P.inferences _ (level.invariants numerals P.goal rs) with
  | some J => exact allow_of_settle (Guess.areProper_invariants hP.goal hrs) hP.inferences hs
  | none =>
    rw [Option.getD_none]
    refine ⟨List.forall_mem_map.mpr fun c _ => Cube.isProper_nil, fun c ns => Derives.of_closed ?_⟩
    intro i hi ρ _
    refine ⟨[], lookup_map_nil ?_, fun a ha => nomatch ha⟩
    exact List.mem_eraseDups.mpr (List.mem_map_of_mem hi)

/-- **The invariants of a problem allow every fact that follows by its inferences.** -/
theorem allow_of_refuting (hP : P.IsProper) (hrs : Region.AreProper rs)
    (h : refuting P numerals rs = some I) :
    P.complete = true ∧ I.AreProper ∧ ∀ c ns, Derives P.inferences c ns → I.Allow c ns := by
  unfold refuting at h
  split at h
  · rename_i hcomplete
    refine ⟨hcomplete, ?_⟩
    dsimp only at h
    split at h
    · cases h
      exact allow_ofGuess hP hrs .plain
    split at h <;> cases h
    · exact allow_ofGuess hP hrs .sums
    · exact allow_ofGuess hP hrs .remainders
  · cases h

end Invariants

end Horn

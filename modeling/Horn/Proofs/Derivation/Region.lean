import Horn.Derivation.Region
import Horn.Proofs.Linear.Projection
import Mathlib.Data.List.Forall2

/-!
What regions of facts hold. Main statement: regions that are closed hold every fact that follows by the
inferences of a problem, and if the goal is not reached in them, its premises are not met by such facts
(`Spread.of_closed`).
-/

namespace Horn

open Linear

/-- The integers of a cell as values of the variables from 0 on. -/
def valuation (ns : List Int) : Nat → Int := fun i => ns.getD i 0

lemma isOrdered_getD {ts : List Form} (hts : ∀ t ∈ ts, t.IsOrdered) (i : Nat) :
    (ts.getD i (.ofInt 0)).IsOrdered := by
  rw [List.getD_eq_getElem?_getD]
  cases hi : ts[i]? with
  | none => exact Form.isOrdered_ofInt 0
  | some t => exact hts t (List.mem_of_getElem? hi)

namespace Application

def values (ρ : Nat → Int) (a : Application) : List Int := a.args.map (Form.value ρ)

def IsOrdered (a : Application) : Prop := ∀ t ∈ a.args, t.IsOrdered

variable {a : Application} {ρ : Nat → Int}

@[simp] lemma values_lift (k : Nat) (a : Application) :
    (a.lift k).values ρ = a.values fun x => ρ (x + k) := by
  simp [values, lift, Function.comp_def]

lemma IsOrdered.lift (h : a.IsOrdered) (k : Nat) : (a.lift k).IsOrdered :=
  List.forall_mem_map.mpr fun t ht => (h t ht).lift k

lemma value_getD (a : Application) (i : Nat) :
    (a.args.getD i (.ofInt 0)).value ρ = valuation (a.values ρ) i := by
  rw [valuation, values, List.getD_eq_getElem?_getD, List.getD_eq_getElem?_getD, List.getElem?_map]
  cases a.args[i]? <;> simp

/-- A condition on the integers of a cell, asked of an application. -/
lemma isMet_bind (h : a.IsOrdered) {b : Atom} (hb : b.IsMet (valuation (a.values ρ))) :
    (b.bind fun i => a.args.getD i (.ofInt 0)).IsMet ρ := by
  refine ⟨hb.1.bind (isOrdered_getD h), (Atom.holds_bind _ _).mpr ?_⟩
  simpa only [value_getD] using hb.2

end Application

structure Premises.IsProper (p : Premises) : Prop where
  cube : p.cube.IsProper
  facts : ∀ a ∈ p.facts, a.IsOrdered

structure Inference.IsProper (i : Inference) : Prop where
  premises : i.premises.IsProper
  conclusion : i.conclusion.IsOrdered

structure Problem.IsProper (P : Problem) : Prop where
  inferences : ∀ i ∈ P.inferences, i.IsProper
  goal : ∀ g ∈ P.goal, g.IsProper

/-- The conditions hold of the values of variables, and the relations are among some facts. -/
structure Premises.AreMet (F : Cell → List Int → Prop) (ρ : Nat → Int) (p : Premises) : Prop where
  cube : p.cube.IsMet ρ
  facts : ∀ a ∈ p.facts, F a.cell (a.values ρ)

/-- The facts that follow by inferences. -/
inductive Derives (is : List Inference) : Cell → List Int → Prop
  | intro {i : Inference} {ρ : Nat → Int} (hi : i ∈ is) (hcube : i.premises.cube.IsMet ρ)
      (hfacts : ∀ a ∈ i.premises.facts, Derives is a.cell (a.values ρ)) :
      Derives is i.conclusion.cell (i.conclusion.values ρ)

/-- What follows is among all facts that inferences do not lead out of. -/
lemma Derives.of_closed {is : List Inference} {F : Cell → List Int → Prop}
    (h : ∀ i ∈ is, ∀ ρ, i.premises.AreMet F ρ → F i.conclusion.cell (i.conclusion.values ρ))
    {c : Cell} {ns : List Int} (hd : Derives is c ns) : F c ns := by
  induction hd with
  | intro hi hcube _ ih => exact h _ hi _ ⟨hcube, ih⟩

/-! ### One region -/

namespace Region

variable {r : Region} {rs : List Region} {cell : Cell} {ns : List Int} {ρ : Nat → Int} {k : Nat}
  {as : List Atom}

structure Has (r : Region) (cell : Cell) (ns : List Int) : Prop where
  cell : r.cell = cell
  cube : r.cube.IsMet (valuation ns)

def AreProper (rs : List Region) : Prop := ∀ r ∈ rs, r.cube.IsProper

/-- Some region has the fact. -/
def Hold (rs : List Region) (cell : Cell) (ns : List Int) : Prop := ∃ r ∈ rs, r.Has cell ns

lemma Has.hold_of_isCovered (h : r.Has cell ns) (hrs : AreProper rs) (hc : r.isCovered rs = true) :
    Hold rs cell ns := by
  obtain ⟨d, hd, hmet⟩ := h.cube.of_isCovered (fun d hd => by
    obtain ⟨q, hq, rfl⟩ := List.mem_map.mp hd
    exact hrs q (List.mem_filter.mp hq).1) hc
  obtain ⟨q, hq, rfl⟩ := List.mem_map.mp hd
  obtain ⟨hq, hcell⟩ := List.mem_filter.mp hq
  exact ⟨q, hq, (eq_of_beq hcell).trans h.cell, hmet⟩

lemma exists_of_ofConditions (h : ofConditions cell k as = some rs) (has : Cube.IsMet ρ as)
    (hns : ∀ i < k, ρ i = valuation ns i) : Hold rs cell ns := by
  obtain ⟨c, hc, hmet⟩ := Cube.exists_ofList has
  rw [ofConditions, hc] at h
  obtain ⟨cs, hcs, rfl⟩ := Option.map_eq_some_iff.mp h
  obtain ⟨⟨d, hd, hdmet⟩, hvars⟩ := hmet.project hcs
  have hnonempty : d.isEmpty = false := by
    rw [Bool.eq_false_iff]
    exact fun hempty => Cube.not_isMet_of_isEmpty hempty ρ hdmet
  refine ⟨⟨cell, d⟩, List.mem_map_of_mem (List.mem_filter.mpr ⟨hd, by simp [hnonempty]⟩), rfl, ?_⟩
  exact hdmet.congr fun i hi => hns i (by simpa using hvars d hd i hi)

lemma areProper_of_ofConditions (h : ofConditions cell k as = some rs) (has : Cube.IsProper as) :
    AreProper rs := by
  rw [ofConditions] at h
  cases hc : Cube.ofList as with
  | none =>
    rw [hc] at h
    cases h
    exact fun r hr => nomatch hr
  | some c =>
    rw [hc] at h
    obtain ⟨cs, hcs, rfl⟩ := Option.map_eq_some_iff.mp h
    intro r hr
    obtain ⟨d, hd, rfl⟩ := List.mem_map.mp hr
    exact (has.ofList hc).project hcs d (List.mem_filter.mp hd).1

end Region

lemma isMet_definitions {ρ : Nat → Int} {k : Nat} {ts : List Form} (hts : ∀ t ∈ ts, t.IsOrdered)
    (h : ∀ i t, ts[i]? = some t → t.value ρ = ρ (k + i)) : Cube.IsMet ρ (definitions k ts) := by
  intro a ha
  obtain ⟨⟨t, i⟩, hti, rfl⟩ := List.mem_map.mp ha
  have hget := List.mem_zipIdx_iff_getElem?.mp hti
  refine ⟨(hts t (List.mem_of_getElem? hget)).sub (Form.isOrdered_var _), ?_⟩
  change (t.sub (.var (k + i))).value ρ = 0
  rw [Form.value_sub, Form.value_var, h i t hget, Int.sub_self]

lemma isProper_definitions {k : Nat} {ts : List Form} (hts : ∀ t ∈ ts, t.IsOrdered) :
    Cube.IsProper (definitions k ts) := by
  intro a ha
  obtain ⟨⟨t, i⟩, hti, rfl⟩ := List.mem_map.mp ha
  exact (hts t (List.mem_of_getElem? (List.mem_zipIdx_iff_getElem?.mp hti))).sub (Form.isOrdered_var _)

/-! ### What follows from regions -/

namespace Premises

variable {p : Premises} {rs qs old new : List Region} {as : List Application} {ρ : Nat → Int}

lemma IsProper.lift (hp : p.IsProper) (k : Nat) : (p.lift k).IsProper :=
  ⟨hp.cube.lift k, List.forall_mem_map.mpr fun a ha => (hp.facts a ha).lift k⟩

lemma isMet_conditions (hp : p.IsProper) (hcube : p.cube.IsMet ρ)
    (hqs : List.Forall₂ (fun a r => Region.Has r a.cell (a.values ρ)) p.facts qs) :
    Cube.IsMet ρ (p.conditions qs) := by
  refine hcube.append fun b hb => ?_
  obtain ⟨⟨a, r⟩, har, hb⟩ := List.mem_flatMap.mp hb
  obtain ⟨b, hbr, rfl⟩ := List.mem_map.mp hb
  exact Application.isMet_bind (hp.facts a (List.of_mem_zip har).1) (((List.forall₂_iff_zip.mp hqs).2 har).cube b hbr)

lemma isProper_conditions (hp : p.IsProper) (hqs : Region.AreProper qs) :
    Cube.IsProper (p.conditions qs) := by
  refine hp.cube.append fun b hb => ?_
  obtain ⟨⟨a, r⟩, har, hb⟩ := List.mem_flatMap.mp hb
  obtain ⟨b, hbr, rfl⟩ := List.mem_map.mp hb
  exact (hqs r (List.of_mem_zip har).2 b hbr).bind (isOrdered_getD (hp.facts a (List.of_mem_zip har).1))

/-- Relations that regions hold are held by a choice of them. -/
lemma exists_choice (h : ∀ a ∈ as, Region.Hold rs a.cell (a.values ρ)) :
    ∃ qs, List.Forall₂ (fun a r => r ∈ rs ∧ Region.Has r a.cell (a.values ρ)) as qs := by
  induction as with
  | nil => exact ⟨[], .nil⟩
  | cons a as ih =>
    obtain ⟨⟨r, hr, hhas⟩, has⟩ := List.forall_mem_cons.mp h
    obtain ⟨qs, hqs⟩ := ih has
    exact ⟨r :: qs, .cons ⟨hr, hhas⟩ hqs⟩

lemma hold_of_choice (hqs : List.Forall₂ (fun a r => Region.Has r a.cell (a.values ρ)) as qs)
    (h : ∀ q ∈ qs, q ∈ rs) : ∀ a ∈ as, Region.Hold rs a.cell (a.values ρ) := by
  induction hqs with
  | nil => exact fun a ha => nomatch ha
  | cons har _ ih =>
    obtain ⟨hr, hqs⟩ := List.forall_mem_cons.mp h
    exact List.forall_mem_cons.mpr ⟨⟨_, hr, har⟩, ih hqs⟩

lemma mem_choices (h : List.Forall₂ (fun a r => r ∈ rs ∧ r.cell = Application.cell a) as qs) :
    qs ∈ choices as rs := by
  induction h with
  | nil => exact List.mem_singleton_self _
  | @cons a r as qs har _ ih =>
    exact List.mem_flatMap.mpr ⟨r, List.mem_filter.mpr ⟨har.1, beq_iff_eq.mpr har.2⟩,
      List.mem_map_of_mem ih⟩

/-- A choice among old and new regions has a new one, or it is one among the old ones. -/
lemma mem_newChoices (h : List.Forall₂ (fun a r => r ∈ old ++ new ∧ r.cell = Application.cell a) as qs) :
    qs ∈ newChoices as old new ∨ ∀ q ∈ qs, q ∈ old := by
  induction h with
  | nil => exact .inr fun q hq => nomatch hq
  | @cons a r as qs har htail ih =>
    rw [newChoices, List.mem_append, List.mem_flatMap, List.mem_flatMap]
    rcases List.mem_append.mp har.1 with hold | hnew
    · rcases ih with hqs | hqs
      · exact .inl (.inr ⟨r, List.mem_filter.mpr ⟨hold, beq_iff_eq.mpr har.2⟩, List.mem_map_of_mem hqs⟩)
      · exact .inr (List.forall_mem_cons.mpr ⟨hold, hqs⟩)
    · exact .inl (.inl ⟨r, List.mem_filter.mpr ⟨hnew, beq_iff_eq.mpr har.2⟩,
        List.mem_map_of_mem (mem_choices htail)⟩)

lemma mem_of_mem_choices (h : qs ∈ choices as rs) : ∀ q ∈ qs, q ∈ rs := by
  induction as generalizing qs with
  | nil =>
    cases List.mem_singleton.mp h
    exact fun q hq => nomatch hq
  | cons a as ih =>
    obtain ⟨r, hr, h⟩ := List.mem_flatMap.mp h
    obtain ⟨qs, hqs, rfl⟩ := List.mem_map.mp h
    exact List.forall_mem_cons.mpr ⟨(List.mem_filter.mp hr).1, ih hqs⟩

lemma mem_of_mem_newChoices (h : qs ∈ newChoices as old new) : ∀ q ∈ qs, q ∈ old ++ new := by
  induction as generalizing qs with
  | nil => cases h
  | cons a as ih =>
    rcases List.mem_append.mp h with h | h
    · obtain ⟨r, hr, h⟩ := List.mem_flatMap.mp h
      obtain ⟨qs, hqs, rfl⟩ := List.mem_map.mp h
      exact List.forall_mem_cons.mpr
        ⟨List.mem_append_right _ (List.mem_filter.mp hr).1, mem_of_mem_choices hqs⟩
    · obtain ⟨r, hr, h⟩ := List.mem_flatMap.mp h
      obtain ⟨qs, hqs, rfl⟩ := List.mem_map.mp h
      exact List.forall_mem_cons.mpr ⟨List.mem_append_left _ (List.mem_filter.mp hr).1, ih hqs⟩

lemma not_isMet_of_holdIn? {choices : List (List Region)} (h : p.holdIn? choices = some false)
    (hqs : qs ∈ choices) : ¬ Cube.IsMet ρ (p.conditions qs) := by
  induction choices with
  | nil => cases hqs
  | cons rs choices ih =>
    intro hmet
    rw [holdIn?] at h
    rcases hc : (Cube.ofList (p.conditions rs)).elim (some false) Cube.holds? with _ | _ | _
    · rw [hc] at h
      simp [Option.filter_eq_some_iff] at h
    · rw [hc] at h
      rcases List.mem_cons.mp hqs with rfl | hqs
      · obtain ⟨c, hofList, hcmet⟩ := Cube.exists_ofList hmet
        rw [hofList] at hc
        exact Cube.not_isMet_of_isEmpty (beq_iff_eq.mpr hc) ρ hcmet
      · exact ih h hqs hmet
    · rw [hc] at h
      cases h

end Premises

namespace Inference

variable {i : Inference} {qs rs : List Region} {ρ : Nat → Int}

/-- **What an inference leads to is in the regions that follow**. -/
lemma hold_of_apply (hi : i.IsProper) (h : i.apply qs = some rs) (hcube : i.premises.cube.IsMet ρ)
    (hqs : List.Forall₂ (fun a r => Region.Has r a.cell (a.values ρ)) i.premises.facts qs) :
    Region.Hold rs i.conclusion.cell (i.conclusion.values ρ) := by
  let k := i.conclusion.args.length
  -- the conclusion comes first, the variables of the inference after it
  let ρ' : Nat → Int := fun x => if x < k then valuation (i.conclusion.values ρ) x else ρ (x - k)
  have hρ : (fun x => ρ' (x + k)) = ρ := by
    funext x
    simp [ρ']
  have hvalues (a : Application) : (a.lift k).values ρ' = a.values ρ := by rw [Application.values_lift, hρ]
  have hpremises : Cube.IsMet ρ' ((i.premises.lift k).conditions qs) := by
    refine Premises.isMet_conditions (hi.premises.lift k) (Cube.IsMet.lift (by rwa [hρ])) ?_
    refine List.forall₂_map_left_iff.mpr (hqs.imp fun a r har => ?_)
    rw [hvalues]
    exact har
  have hconclusion : Cube.IsMet ρ' (definitions 0 (i.conclusion.lift k).args) := by
    refine isMet_definitions (hi.conclusion.lift k) fun j t hj => ?_
    have hlt : j < k := by
      have := (List.getElem?_eq_some_iff.mp hj).1
      simpa [Application.lift] using this
    have hj : ((i.conclusion.lift k).values ρ')[j]? = some (t.value ρ') := by
      rw [Application.values, List.getElem?_map, hj]
      rfl
    rw [hvalues] at hj
    rw [Nat.zero_add]
    simp only [ρ', if_pos hlt, valuation, List.getD_eq_getElem?_getD, hj, Option.getD_some]
  exact Region.exists_of_ofConditions h (hpremises.append hconclusion) fun j hj => if_pos hj

lemma areProper_of_apply (hi : i.IsProper) (h : i.apply qs = some rs) (hqs : Region.AreProper qs) :
    Region.AreProper rs :=
  Region.areProper_of_ofConditions h ((Premises.isProper_conditions (hi.premises.lift _) hqs).append
    (isProper_definitions (hi.conclusion.lift _)))

end Inference

/-! ### Drifts are well-formed -/

lemma isOrdered_variablesFrom (k n : Nat) : ∀ t ∈ Passage.variablesFrom k n, t.IsOrdered := by
  rintro t ht
  obtain ⟨i, -, rfl⟩ := List.mem_map.mp ht
  exact Form.isOrdered_var _

namespace Passage

variable {p q : Passage} {a b : Application} {as : List Atom}

lemma isProper_of_ofConditions (ha : a.IsOrdered) (hb : b.IsOrdered) (has : Cube.IsProper as)
    (hp : p ∈ ofConditions a b as) : p.cube.IsProper := by
  simp only [ofConditions] at hp
  split at hp
  · cases hp
  · rename_i c hc
    have hproper := ((has.append (isProper_definitions ha)).append (isProper_definitions hb)).ofList hc
    obtain ⟨d, hd, rfl⟩ := List.mem_map.mp hp
    cases hproj : c.project (· < a.args.length + b.args.length) with
    | none =>
      rw [hproj] at hd
      cases hd
    | some ds =>
      rw [hproj] at hd
      exact hproper.project hproj d hd

lemma isProper_of_ofInference {i : Inference} (hi : i.IsProper) (hp : p ∈ ofInference i) :
    p.cube.IsProper := by
  simp only [ofInference] at hp
  split at hp
  · rename_i a ha
    have ha : a.IsOrdered := hi.premises.facts a (by rw [ha]; exact List.mem_cons_self)
    exact isProper_of_ofConditions (ha.lift _) (hi.conclusion.lift _) (hi.premises.cube.lift _) hp
  · cases hp

lemma isProper_of_andThen {r : Passage} (hp : p.cube.IsProper) (hq : q.cube.IsProper)
    (hr : r ∈ p.andThen q) : r.cube.IsProper := by
  simp only [andThen] at hr
  split at hr
  · have hvars {k l m n : Nat} : ∀ t ∈ variablesFrom k l ++ variablesFrom m n, t.IsOrdered :=
      List.forall_mem_append.mpr ⟨isOrdered_variablesFrom _ _, isOrdered_variablesFrom _ _⟩
    exact isProper_of_ofConditions (a := ⟨p.source, _⟩) (b := ⟨q.target, _⟩)
      (isOrdered_variablesFrom _ _) (isOrdered_variablesFrom _ _)
      ((hp.bind fun i => isOrdered_getD hvars i).append (hq.bind fun i => isOrdered_getD hvars i)) hr
  · cases hr

end Passage

namespace Drift

variable {d : Drift} {p : Passage} {r : Region} {rs : List Region}

lemma isProper_of_ofPassage? (hp : p.cube.IsProper) (h : ofPassage? p = some d) : d.guard.IsProper := by
  unfold ofPassage? at h
  split at h
  · cases h
  obtain ⟨steps, -, h⟩ := Option.bind_eq_some_iff.mp h
  split at h
  · cases h
  obtain ⟨guard, hguard, h⟩ := Option.bind_eq_some_iff.mp h
  split at h <;> cases h
  refine (hp.bind fun i => ?_).ofList hguard
  split
  · exact Form.isOrdered_var i
  · exact (Form.isOrdered_var _).plus _

lemma areProper_of_apply (hd : d.guard.IsProper) (hr : r.cube.IsProper) (h : d.apply r = some rs) :
    Region.AreProper rs := by
  have hback {n : Form} (hn : n.IsOrdered) :
      ∀ t ∈ d.steps.zipIdx.map fun e => (Form.var e.2).sub (n.scale e.1), t.IsOrdered := by
    intro t ht
    obtain ⟨e, -, rfl⟩ := List.mem_map.mp ht
    exact (Form.isOrdered_var _).sub (hn.scale _)
  have hfirst := isOrdered_getD (hback (Form.isOrdered_var d.steps.length))
  have hlast := isOrdered_getD (hback (Form.isOrdered_ofInt 1))
  have hstep : (Atom.nonneg ((Form.var d.steps.length).plus (-1))).IsProper := (Form.isOrdered_var _).plus _
  exact Region.areProper_of_ofConditions h
    ((((hr.bind hfirst).append (hd.bind hfirst)).append (hd.bind hlast)).cons hstep)

lemma isProper_of_ofPassages {ps : List Passage} (hps : ∀ p ∈ ps, p.cube.IsProper) (hd : d ∈ ofPassages ps) :
    d.guard.IsProper := by
  obtain ⟨p, hp, hd⟩ := List.mem_filterMap.mp hd
  refine isProper_of_ofPassage? ?_ hd
  rcases List.mem_append.mp hp with hp | hp
  · exact hps p hp
  · obtain ⟨q, hq, hp⟩ := List.mem_flatMap.mp hp
    obtain ⟨r, hr, hp⟩ := List.mem_flatMap.mp hp
    exact Passage.isProper_of_andThen (hps q hq) (hps r hr) hp

end Drift

/-! ### Spreading -/

namespace Spread

variable {P : Problem} {old new known rs : List Region} {ds : List Drift} {reached : Option Bool} {n : Nat}
  {c : Cell} {ns : List Int}

lemma mem_of_mem_unseen {r : Region} (h : r ∈ unseen known rs) : r ∈ rs := by
  have hfold : ∀ r ∈ unseen known rs, r ∈ rs := by
    refine List.foldlRecOn rs _ (motive := fun new : List Region => ∀ r ∈ new, r ∈ rs)
      (fun r hr => nomatch hr) fun new hnew q hq => ?_
    split
    · exact hnew
    · exact List.forall_mem_append.mpr ⟨hnew, List.forall_mem_singleton.mpr hq⟩
  exact hfold r h

lemma hold_append_left {qs : List Region} (h : Region.Hold rs c ns) : Region.Hold (rs ++ qs) c ns :=
  h.imp fun _ hr => ⟨List.mem_append_left _ hr.1, hr.2⟩

lemma hold_append_right {qs : List Region} (h : Region.Hold qs c ns) : Region.Hold (rs ++ qs) c ns :=
  h.imp fun _ hr => ⟨List.mem_append_right _ hr.1, hr.2⟩

/-- Facts of regions are in those that are kept of them, or they were known. -/
lemma hold_unseen (hproper : Region.AreProper (known ++ rs)) (h : Region.Hold rs c ns) :
    Region.Hold (known ++ unseen known rs) c ns := by
  obtain ⟨r, hr, hhas⟩ := h
  obtain ⟨ss, ts, rfl⟩ := List.append_of_mem hr
  have hss : ∀ q ∈ unseen known ss, q ∈ ss := fun q => mem_of_mem_unseen
  rw [unseen] at hss ⊢
  rw [List.foldl_append, List.foldl_cons]
  generalize List.foldl _ [] ss = new at hss ⊢
  refine List.foldlRecOn ts _ (motive := fun new : List Region => Region.Hold (known ++ new) c ns)
    ?_ fun new hnew q hq => ?_
  · split
    · rename_i hcovered
      refine hhas.hold_of_isCovered (fun q hq => hproper q ?_) hcovered
      rw [List.mem_append] at hq ⊢
      exact hq.imp_right fun hq => List.mem_append_left _ (hss q hq)
    · exact hold_append_right (hold_append_right ⟨r, List.mem_singleton_self _, hhas⟩)
  · split
    · exact hnew
    · rw [← List.append_assoc]
      exact hold_append_left hnew

/-- What a spread keeps from round to round. -/
structure IsKept (P : Problem) (old new : List Region) (reached : Option Bool) : Prop where
  areProper : Region.AreProper (old ++ new)
  leads : ∀ i ∈ P.inferences, ∀ ρ, i.premises.AreMet (Region.Hold old) ρ →
    Region.Hold (old ++ new) i.conclusion.cell (i.conclusion.values ρ)
  goal : reached = some false → ∀ g ∈ P.goal, ∀ ρ, ¬ g.AreMet (Region.Hold (old ++ new)) ρ

/-- Where a goal is not reached with the help of a new region, it is reached with old ones or not at all. -/
lemma not_areMet_of_reachedBy? (hP : P.IsProper) (h : P.reachedBy? old new = some false)
    (hold : ∀ g ∈ P.goal, ∀ ρ, g.facts ≠ [] → ¬ g.AreMet (Region.Hold old) ρ) :
    ∀ g ∈ P.goal, ∀ ρ, ¬ g.AreMet (Region.Hold (old ++ new)) ρ := by
  intro g hg ρ hmet
  have hanswer : g.holdIn? (if g.facts.isEmpty then [[]] else Premises.newChoices g.facts old new) =
      some false := by
    simp only [Problem.reachedBy?] at h
    split at h
    · cases h
    rename_i htrue
    split at h
    · cases h
    rename_i hnone
    rw [List.contains_iff_mem] at htrue hnone
    have hmem := List.mem_map_of_mem (f := fun g : Premises =>
      g.holdIn? (if g.facts.isEmpty then [[]] else Premises.newChoices g.facts old new)) hg
    rcases ha : g.holdIn? (if g.facts.isEmpty then [[]] else Premises.newChoices g.facts old new)
      with _ | _ | _
    · exact absurd (ha ▸ hmem) hnone
    · rfl
    · exact absurd (ha ▸ hmem) htrue
  obtain ⟨qs, hqs⟩ := Premises.exists_choice hmet.facts
  have hhas := hqs.imp fun _ _ h => h.2
  have hconditions := Premises.isMet_conditions (hP.goal g hg) hmet.cube hhas
  split at hanswer
  · rename_i hempty
    rw [List.isEmpty_iff.mp hempty] at hqs
    cases hqs
    exact Premises.not_isMet_of_holdIn? hanswer (List.mem_singleton_self _) hconditions
  · rename_i hempty
    rcases Premises.mem_newChoices (hqs.imp fun _ _ h => ⟨h.1, h.2.cell⟩) with hnew | hall
    · exact Premises.not_isMet_of_holdIn? hanswer hnew hconditions
    · exact hold g hg ρ (by simpa using hempty) ⟨hmet.cube, Premises.hold_of_choice hhas hall⟩

/-- The facts of a spread lead to no others, and the goal is not reached by them where that is said. -/
structure IsRight (P : Problem) (S : Spread) : Prop where
  closed : ∀ i ∈ P.inferences, ∀ ρ, i.premises.AreMet (Region.Hold S.regions) ρ →
    Region.Hold S.regions i.conclusion.cell (i.conclusion.values ρ)
  goal : S.reached = some false → ∀ g ∈ P.goal, ∀ ρ, ¬ g.AreMet (Region.Hold S.regions) ρ

lemma areProper_round (hP : P.IsProper) (hds : ∀ d ∈ ds, d.guard.IsProper)
    (h : Region.AreProper (old ++ new)) :
    Region.AreProper ((old ++ new) ++ ((round P ds old new).filterMap id).flatten) := by
  refine List.forall_mem_append.mpr ⟨h, fun r hr => ?_⟩
  obtain ⟨rs, hrs, hr⟩ := List.mem_flatten.mp hr
  obtain ⟨o, ho, hrs⟩ := List.mem_filterMap.mp hrs
  rcases List.mem_append.mp ho with ho | ho
  · obtain ⟨d, hd, ho⟩ := List.mem_flatMap.mp ho
    obtain ⟨q, hq, rfl⟩ := List.mem_map.mp ho
    exact Drift.areProper_of_apply (hds d hd)
      (h q (List.mem_append_right _ (List.mem_filter.mp hq).1)) hrs r hr
  · obtain ⟨i, hi, ho⟩ := List.mem_flatMap.mp ho
    obtain ⟨qs, hqs, rfl⟩ := List.mem_map.mp ho
    exact Inference.areProper_of_apply (hP.inferences i hi) hrs
      (fun q hq => h q (Premises.mem_of_mem_newChoices hqs q hq)) r hr

lemma areProper_unseen (h : Region.AreProper (known ++ rs)) : Region.AreProper (known ++ unseen known rs) := by
  obtain ⟨hknown, hrs⟩ := List.forall_mem_append.mp h
  exact List.forall_mem_append.mpr ⟨hknown, fun r hr => hrs r (mem_of_mem_unseen hr)⟩

lemma areProper_spreadFrom (hP : P.IsProper) (hds : ∀ d ∈ ds, d.guard.IsProper)
    (h : Region.AreProper (old ++ new)) : Region.AreProper (spreadFrom P ds n old new reached).regions := by
  induction n generalizing old new reached with
  | zero => exact h
  | succ n ih =>
    have hnext := areProper_unseen (areProper_round hP hds h)
    unfold spreadFrom
    dsimp only
    split
    · exact (List.forall_mem_append.mp h).1
    split
    · exact h
    refine (?_ : ∀ r, Region.AreProper (if r == some true || (round P ds old new).any Option.isNone then
        Spread.mk (old ++ new ++ unseen (old ++ new) ((round P ds old new).filterMap id).flatten) false r
      else spreadFrom P ds n (old ++ new)
        (unseen (old ++ new) ((round P ds old new).filterMap id).flatten) r).regions) _
    intro r
    split
    · exact hnext
    · exact ih hnext

/-- **A round keeps what a spread keeps.** -/
lemma IsKept.round (hP : P.IsProper) (hds : ∀ d ∈ ds, d.guard.IsProper) (h : IsKept P old new reached)
    (hnone : (Spread.round P ds old new).any Option.isNone = false) :
    let next := unseen (old ++ new) ((Spread.round P ds old new).filterMap id).flatten
    ∀ reached', (reached' = some false → reached = some false ∧ P.reachedBy? (old ++ new) next = some false) →
      IsKept P (old ++ new) next reached' := by
  intro next reached' hreached
  have hproper := areProper_round hP hds h.areProper
  refine ⟨areProper_unseen hproper, ?_, ?_⟩
  · intro i hi ρ hmet
    obtain ⟨qs, hqs⟩ := Premises.exists_choice hmet.facts
    have hhas := hqs.imp fun _ _ h => h.2
    rcases Premises.mem_newChoices (hqs.imp fun _ _ h => ⟨h.1, h.2.cell⟩) with hnew | hall
    · have hmem : i.apply qs ∈ Spread.round P ds old new :=
        List.mem_append_right _ (List.mem_flatMap.mpr ⟨i, hi, List.mem_map_of_mem hnew⟩)
      obtain ⟨rs, hrs⟩ : ∃ rs, i.apply qs = some rs := by
        have hsome := List.any_eq_false.mp hnone _ hmem
        rwa [Bool.not_eq_true, Option.isNone_eq_false_iff, Option.isSome_iff_exists] at hsome
      have hhold := Inference.hold_of_apply (hP.inferences i hi) hrs hmet.cube hhas
      refine hold_unseen hproper (hhold.imp fun r hr => ⟨?_, hr.2⟩)
      exact List.mem_flatten.mpr ⟨rs, List.mem_filterMap.mpr ⟨_, hmem, hrs⟩, hr.1⟩
    · exact hold_append_left (h.leads i hi ρ ⟨hmet.cube, Premises.hold_of_choice hhas hall⟩)
  · intro hfalse
    obtain ⟨hold, hnext⟩ := hreached hfalse
    exact not_areMet_of_reachedBy? hP hnext fun g hg ρ _ => h.goal hold g hg ρ

lemma spreadFrom_isRight (hP : P.IsProper) (hds : ∀ d ∈ ds, d.guard.IsProper) (h : IsKept P old new reached)
    (hclosed : (spreadFrom P ds n old new reached).closed = true) :
    IsRight P (spreadFrom P ds n old new reached) := by
  induction n generalizing old new reached with
  | zero => cases hclosed
  | succ n ih =>
    unfold spreadFrom at hclosed ⊢
    dsimp only at hclosed ⊢
    split at hclosed
    · rename_i hempty
      rw [if_pos hempty]
      have hnil := List.isEmpty_iff.mp hempty
      subst hnil
      obtain ⟨-, hleads, hgoal⟩ := h
      rw [List.append_nil] at hleads hgoal
      exact ⟨hleads, hgoal⟩
    rename_i hempty
    rw [if_neg hempty]
    split at hclosed
    · cases hclosed
    rename_i hmost
    rw [if_neg hmost]
    have hnext : ∀ r, (r = some false → reached = some false ∧ P.reachedBy? (old ++ new)
          (unseen (old ++ new) ((Spread.round P ds old new).filterMap id).flatten) = some false) →
        ∀ S, S = (if r == some true || (Spread.round P ds old new).any Option.isNone then
            Spread.mk (old ++ new ++ unseen (old ++ new) ((Spread.round P ds old new).filterMap id).flatten) false r
          else spreadFrom P ds n (old ++ new)
            (unseen (old ++ new) ((Spread.round P ds old new).filterMap id).flatten) r) →
        S.closed = true → IsRight P S := by
      rintro r hr _ rfl hclosed
      split at hclosed
      · cases hclosed
      rename_i hgoes
      rw [if_neg hgoes]
      rw [Bool.or_eq_true, not_or, Bool.not_eq_true, Bool.not_eq_true] at hgoes
      exact ih (h.round hP hds hgoes.2 _ hr) hclosed
    refine hnext _ (fun hfalse => ?_) _ rfl hclosed
    split at hfalse
    · rename_i hreached
      exact ⟨hfalse, hreached⟩
    · cases hfalse
    · cases hfalse

lemma areProper_begin (hP : P.IsProper) :
    Region.AreProper (((P.inferences.filter fun i => i.premises.facts.isEmpty).map fun i =>
      i.apply []).filterMap id).flatten := by
  intro r hr
  obtain ⟨rs, hrs, hr⟩ := List.mem_flatten.mp hr
  obtain ⟨o, ho, hrs⟩ := List.mem_filterMap.mp hrs
  obtain ⟨i, hi, rfl⟩ := List.mem_map.mp ho
  exact Inference.areProper_of_apply (hP.inferences i (List.mem_filter.mp hi).1) hrs
    (fun q hq => nomatch hq) r hr

lemma isProper_of_mem_drifts (hP : P.IsProper) : ∀ d ∈ P.drifts, d.guard.IsProper := by
  refine fun d hd => Drift.isProper_of_ofPassages (fun p hp => ?_) hd
  obtain ⟨i, hi, hp⟩ := List.mem_flatMap.mp hp
  exact Passage.isProper_of_ofInference (hP.inferences i hi) hp

lemma areProper_ofProblem {rounds : Nat} (hP : P.IsProper) : Region.AreProper (ofProblem P rounds).regions := by
  have hnew : Region.AreProper ([] ++ unseen [] _) := areProper_unseen (areProper_begin hP)
  unfold ofProblem
  dsimp only
  split
  · exact hnew
  · exact areProper_spreadFrom hP (isProper_of_mem_drifts hP) hnew

/-- What follows from no premises is where a spread begins. -/
lemma isKept_begin (hP : P.IsProper)
    (hnone : ((P.inferences.filter fun i => i.premises.facts.isEmpty).map fun i => i.apply []).any
      Option.isNone = false) :
    let found := (P.inferences.filter fun i => i.premises.facts.isEmpty).map fun i => i.apply []
    let new := unseen [] (found.filterMap id).flatten
    IsKept P [] new (P.reachedBy? [] new) := by
  intro found new
  have hproper : Region.AreProper (found.filterMap id).flatten := areProper_begin hP
  have hnothing {as : List Application} {ρ : Nat → Int}
      (h : ∀ a ∈ as, Region.Hold [] a.cell (a.values ρ)) : as = [] := by
    cases as with
    | nil => rfl
    | cons a as =>
      obtain ⟨r, hr, -⟩ := h a List.mem_cons_self
      cases hr
  refine ⟨areProper_unseen hproper, fun i hi ρ hmet => ?_, fun hreached => ?_⟩
  · have hfacts := hnothing hmet.facts
    have hmem : i.apply [] ∈ found :=
      List.mem_map_of_mem (List.mem_filter.mpr ⟨hi, List.isEmpty_iff.mpr hfacts⟩)
    have hsome := List.any_eq_false.mp hnone _ hmem
    rw [Bool.not_eq_true, Option.isNone_eq_false_iff, Option.isSome_iff_exists] at hsome
    obtain ⟨rs, hrs⟩ := hsome
    have hhold := Inference.hold_of_apply (hP.inferences i hi) hrs hmet.cube (by rw [hfacts]; exact .nil)
    refine hold_unseen hproper (hhold.imp fun r hr => ⟨?_, hr.2⟩)
    exact List.mem_flatten.mpr ⟨rs, List.mem_filterMap.mpr ⟨_, hmem, hrs⟩, hr.1⟩
  · exact not_areMet_of_reachedBy? hP hreached fun g hg ρ hne hmet => hne (hnothing hmet.facts)

/-- **The regions of a closed spread hold every fact that follows, and the goal is not reached by these where
that is said.** -/
theorem of_closed {rounds : Nat} (hP : P.IsProper) (hclosed : (ofProblem P rounds).closed = true) :
    (∀ c ns, Derives P.inferences c ns → Region.Hold (ofProblem P rounds).regions c ns) ∧
      ((ofProblem P rounds).reached = some false →
        ∀ g ∈ P.goal, ∀ ρ, ¬ g.AreMet (Derives P.inferences) ρ) := by
  have hright : IsRight P (ofProblem P rounds) := by
    unfold ofProblem at hclosed ⊢
    dsimp only at hclosed ⊢
    split at hclosed
    · cases hclosed
    rename_i hgoes
    rw [if_neg hgoes]
    rw [Bool.or_eq_true, not_or, Bool.not_eq_true, Bool.not_eq_true] at hgoes
    exact spreadFrom_isRight hP (isProper_of_mem_drifts hP) (isKept_begin hP hgoes.2) hclosed
  have hholds : ∀ c ns, Derives P.inferences c ns → Region.Hold (ofProblem P rounds).regions c ns :=
    fun c ns => Derives.of_closed hright.closed
  exact ⟨hholds, fun hreached g hg ρ hmet =>
    hright.goal hreached g hg ρ ⟨hmet.cube, fun a ha => hholds _ _ (hmet.facts a ha)⟩⟩

end Spread

end Horn

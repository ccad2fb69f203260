import Horn.Proofs.Linear.Elimination

/-!
Taking out all variables. Main statements: a projection is met where the conjunction is
(`Cube.IsMet.project`), a conjunction that is called empty is met nowhere (`Cube.not_isMet_of_isEmpty`), and
where a conjunction is met, so is what it entails (`Cube.IsMet.holds_of_entails`) and one of those that cover
it (`Cube.IsMet.of_isCovered`).
-/

namespace Horn.Linear.Cube

variable {ρ : Nat → Int} {x n : Nat} {c d : Cube} {a : Atom} {as : List Atom} {t : Form}
  {cs ds done : List Cube} {p : Nat → Bool}

lemma mem_vars : x ∈ c.vars ↔ ∃ a ∈ c, x ∈ a.vars := by
  rw [vars, List.mem_eraseDups, List.mem_flatMap]

lemma IsMet.congr {ρ' : Nat → Int} (hc : c.IsMet ρ) (h : ∀ x ∈ c.vars, ρ x = ρ' x) : c.IsMet ρ' :=
  fun a ha => ⟨(hc a ha).1, (Atom.holds_congr fun x hx => h x (mem_vars.mpr ⟨a, ha, hx⟩)).mp (hc a ha).2⟩

lemma easiest?_eq_some (h : c.easiest? p = some x) : p x = true := by
  obtain ⟨e, he, rfl⟩ := Option.map_eq_some_iff.mp h
  clear h
  revert e
  refine List.foldlRecOn _ _ (motive := fun best : Option (Nat × Nat) => ∀ e, best = some e → p e.1 = true)
    ?_ fun best hbest e he e' he' => ?_
  · exact fun e he => nomatch he
  · obtain ⟨y, hy, rfl⟩ := List.mem_map.mp he
    have hy := (List.mem_filter.mp hy).2
    cases best with
    | none =>
      cases he'
      exact hy
    | some b =>
      dsimp only at he'
      split at he'
      · cases he'
        exact hy
      · exact hbest e' he'

lemma not_of_easiest?_none (h : c.easiest? p = none) (hx : x ∈ c.vars) : p x = false := by
  rw [easiest?, Option.map_eq_none_iff] at h
  have hnil : c.vars.filter p = [] := by
    cases hl : c.vars.filter p with
    | nil => rfl
    | cons y ys =>
      rw [hl, List.map_cons, List.foldl_cons] at h
      exfalso
      revert h
      refine List.foldlRecOn _ _ (motive := fun best : Option (Nat × Nat) => best = none → False)
        ?_ fun best hbest e he => ?_
      · exact fun h => nomatch h
      · cases best with
        | none => exact absurd rfl hbest
        | some b =>
          dsimp only
          split <;> exact fun h => nomatch h
  exact Bool.eq_false_iff.mpr (List.filter_eq_nil_iff.mp hnil x hx)

lemma mem_insert_self (ds : List Cube) (c : Cube) : c ∈ if ds.contains c then ds else c :: ds := by
  split
  · exact List.contains_iff_mem.mp ‹_›
  · exact List.mem_cons_self

lemma mem_insert_of_mem (h : d ∈ ds) : d ∈ if ds.contains c then ds else c :: ds := by
  split
  · exact h
  · exact .tail _ h

lemma eq_or_mem_of_mem_insert (h : d ∈ if ds.contains c then ds else c :: ds) : d = c ∨ d ∈ ds := by
  split at h
  · exact .inr h
  · exact List.mem_cons.mp h

lemma eliminateAll_spec (h : eliminateAll p n cs done = some ds) (hc : ∃ c ∈ cs ++ done, c.IsMet ρ)
    (hdone : ∀ d ∈ done, ∀ x ∈ d.vars, p x = false) :
    (∃ d ∈ ds, d.IsMet ρ) ∧ ∀ d ∈ ds, ∀ x ∈ d.vars, p x = false := by
  induction n generalizing cs done ρ with
  | zero =>
    cases cs with
    | nil =>
      cases h
      simpa using ⟨hc, hdone⟩
    | cons c cs => cases h
  | succ n ih =>
    cases cs with
    | nil =>
      cases h
      simpa using ⟨hc, hdone⟩
    | cons c cs =>
      rw [Cube.eliminateAll] at h
      cases he : c.easiest? p with
      | none =>
        rw [he] at h
        obtain ⟨d, hd, hmet⟩ := hc
        refine ih h ⟨d, ?_, hmet⟩ fun d hd => ?_
        · rcases List.mem_append.mp hd with hd | hd
          · rcases List.mem_cons.mp hd with rfl | hd
            · exact List.mem_append_right _ (mem_insert_self done d)
            · exact List.mem_append_left _ hd
          · exact List.mem_append_right _ (mem_insert_of_mem hd)
        · rcases eq_or_mem_of_mem_insert hd with rfl | hd
          · exact fun x hx => not_of_easiest?_none he hx
          · exact hdone d hd
      | some x =>
        rw [he] at h
        obtain ⟨es, hes, hds⟩ := Option.bind_eq_some_iff.mp h
        obtain ⟨d, hd, hmet⟩ := hc
        rcases List.mem_cons.mp hd with rfl | hd
        · obtain ⟨m, e, he', hemet⟩ := hmet.eliminate hes
          obtain ⟨⟨d', hd', hmet'⟩, hvars⟩ := ih hds ⟨e, by simp [he'], hemet⟩ hdone
          refine ⟨⟨d', hd', hmet'.congr fun y hy => Function.update_of_ne ?_ _ _⟩, hvars⟩
          rintro rfl
          exact absurd (easiest?_eq_some he) (by simp [hvars d' hd' y hy])
        · have hd := List.mem_append_right es hd
          exact ih hds ⟨d, by rwa [List.append_assoc], hmet⟩ hdone

/-- **A projection is met where the conjunction is**: one of its conjunctions is, and they speak of no other
variables than those that are kept. -/
theorem IsMet.project {keep : Nat → Bool} (hc : c.IsMet ρ) (h : c.project keep = some ds) :
    (∃ d ∈ ds, d.IsMet ρ) ∧ ∀ d ∈ ds, ∀ x ∈ d.vars, keep x = true := by
  obtain ⟨hmet, hvars⟩ := eliminateAll_spec h ⟨c, by simp, hc⟩ fun _ h => nomatch h
  exact ⟨hmet, fun d hd x hx => by simpa using hvars d hd x hx⟩

lemma isProper_of_eliminateAll (h : eliminateAll p n cs done = some ds) (hcs : ∀ c ∈ cs, c.IsProper)
    (hdone : ∀ d ∈ done, d.IsProper) : ∀ d ∈ ds, d.IsProper := by
  induction n generalizing cs done with
  | zero =>
    cases cs with
    | nil =>
      cases h
      simpa using hdone
    | cons c cs => cases h
  | succ n ih =>
    cases cs with
    | nil =>
      cases h
      simpa using hdone
    | cons c cs =>
      obtain ⟨hc, hcs⟩ := List.forall_mem_cons.mp hcs
      rw [eliminateAll] at h
      cases he : c.easiest? p with
      | none =>
        rw [he] at h
        refine ih h hcs fun d hd => ?_
        rcases eq_or_mem_of_mem_insert hd with rfl | hd
        · exact hc
        · exact hdone d hd
      | some x =>
        rw [he] at h
        obtain ⟨es, hes, h⟩ := Option.bind_eq_some_iff.mp h
        exact ih h (List.forall_mem_append.mpr ⟨fun e he => hc.eliminate hes he, hcs⟩) hdone

lemma IsProper.project {keep : Nat → Bool} (hc : c.IsProper) (h : c.project keep = some ds) :
    ∀ d ∈ ds, d.IsProper :=
  isProper_of_eliminateAll h (List.forall_mem_singleton.mpr hc) fun _ h => nomatch h

lemma not_isMet_of_anyHolds? (h : anyHolds? n cs = some false) (hc : c ∈ cs) (ρ : Nat → Int) : ¬ c.IsMet ρ := by
  induction n generalizing cs c ρ with
  | zero =>
    cases cs with
    | nil => cases hc
    | cons d cs => cases h
  | succ n ih =>
    cases cs with
    | nil => cases hc
    | cons d cs =>
      rw [anyHolds?] at h
      cases he : d.easiest? fun _ => true with
      | none =>
        rw [he] at h
        cases h
      | some x =>
        rw [he] at h
        dsimp only at h
        cases hes : d.eliminate x with
        | none =>
          rw [hes] at h
          simp [Option.filter_eq_some_iff] at h
        | some es =>
          rw [hes] at h
          intro hmet
          rcases List.mem_cons.mp hc with rfl | hc
          · obtain ⟨m, e, he', hemet⟩ := hmet.eliminate hes
            exact ih h (List.mem_append_left _ he') _ hemet
          · exact ih h (List.mem_append_right _ hc) ρ hmet

/-- **A conjunction that is called empty is met nowhere.** -/
theorem not_isMet_of_isEmpty (h : c.isEmpty = true) (ρ : Nat → Int) : ¬ c.IsMet ρ :=
  not_isMet_of_anyHolds? (eq_of_beq h) List.mem_cons_self ρ

/-! ### What follows -/

lemma holds_of_denials_empty (hc : c.IsMet ρ) (ha : a.IsProper)
    (h : (a.negate.all fun b => (c.add b).all isEmpty) = true) : a.Holds ρ := by
  by_contra hn
  obtain ⟨b, hb, hmet⟩ := ha.exists_negate hn
  obtain ⟨d, hd, hdmet⟩ := hc.add hmet
  have hempty := List.all_eq_true.mp h b hb
  rw [hd, Option.all_some] at hempty
  exact not_isMet_of_isEmpty hempty ρ hdmet

/-- **What a conjunction entails holds wherever it is met.** -/
theorem IsMet.holds_of_entails (hc : c.IsMet ρ) (ha : a.IsProper) (h : c.entails a = true) : a.Holds ρ := by
  cases a with
  | zero t | nonneg t => exact holds_of_denials_empty hc ha h
  | divides d t =>
    rw [entails] at h
    split at h
    · exact (hc _ (List.contains_iff_mem.mp h)).2
    · exact holds_of_denials_empty hc ha h

lemma IsMet.of_implies (hc : c.IsMet ρ) (hd : ∀ a ∈ d, a.IsProper) (h : c.implies d = true) : d.IsMet ρ :=
  fun a ha => ⟨hd a ha, hc.holds_of_entails (hd a ha) (List.all_eq_true.mp h a ha)⟩

lemma IsMet.minus (hc : c.IsMet ρ) (has : ∀ a ∈ as, a.IsProper) (hn : ¬ IsMet ρ as) :
    ∃ d ∈ c.minus as, d.IsMet ρ := by
  induction as generalizing c with
  | nil => exact absurd (fun _ h => nomatch h) hn
  | cons a as ih =>
    obtain ⟨ha, has⟩ := List.forall_mem_cons.mp has
    rw [Cube.minus]
    by_cases hholds : a.Holds ρ
    · obtain ⟨c', hc', hmet⟩ := hc.add ⟨ha, hholds⟩
      obtain ⟨d, hd, hdmet⟩ := ih hmet has fun h => hn (h.cons ⟨ha, hholds⟩)
      exact ⟨d, List.mem_append_right _ (by rwa [hc']), hdmet⟩
    · obtain ⟨b, hb, hbmet⟩ := ha.exists_negate hholds
      obtain ⟨d, hd, hdmet⟩ := hc.add hbmet
      refine ⟨d, List.mem_append_left _ (List.mem_filter.mpr ⟨List.mem_filterMap.mpr ⟨b, hb, hd⟩, ?_⟩), hdmet⟩
      rw [Bool.not_eq_true', Bool.eq_false_iff]
      exact fun hempty => not_isMet_of_isEmpty hempty ρ hdmet

/-- **Where a conjunction is met that others cover, one of them is.** -/
theorem IsMet.of_isCovered (hc : c.IsMet ρ) (hds : ∀ d ∈ ds, ∀ a ∈ d, a.IsProper)
    (h : isCovered ds c = true) : ∃ d ∈ ds, d.IsMet ρ := by
  induction ds generalizing c with
  | nil => exact absurd hc (not_isMet_of_isEmpty h ρ)
  | cons d ds ih =>
    obtain ⟨hd, hds⟩ := List.forall_mem_cons.mp hds
    by_cases hmet : d.IsMet ρ
    · exact ⟨d, List.mem_cons_self, hmet⟩
    · obtain ⟨e, he, hemet⟩ := hc.minus hd hmet
      obtain ⟨d', hd', hmet'⟩ := ih hemet hds (List.all_eq_true.mp h e he)
      exact ⟨d', .tail _ hd', hmet'⟩

end Horn.Linear.Cube

import Mathlib.Data.List.Induction
import Horn.Proofs.Derivation.Search

/-!
Deriving facts round by round. Main statements: each fact derived has a proof, in which every fact follows
by one of the rules from those before it; and where everything was found, what the clauses lead to from the
facts derived is among them.
-/

namespace Horn

open Element Term

/-! ### Proofs -/

namespace Fact

/-- The fact holds wherever one of the rules and the given facts do. -/
def FollowsBy (rules : List Term) (φs : List Fact) (φ : Fact) : Prop :=
  ∃ t ∈ rules, ∀ J, t.Holds J → (∀ ψ ∈ φs, ψ.Holds J) → φ.Holds J

/-- **A list of facts is a proof**: each follows by one of the rules from those before it. -/
inductive IsProof (rules : List Term) : List Fact → Prop where
  | nil : IsProof rules []
  | snoc {φs : List Fact} {φ : Fact} (h : IsProof rules φs) (hφ : φ.FollowsBy rules φs) :
      IsProof rules (φs ++ [φ])

variable {rules : List Term} {φs ψs : List Fact} {φ : Fact} {J : Interpretation}

lemma FollowsBy.mono (h : φ.FollowsBy rules φs) (hsub : φs ⊆ ψs) : φ.FollowsBy rules ψs := by
  obtain ⟨t, ht, hfollows⟩ := h
  exact ⟨t, ht, fun J hJ hψs => hfollows J hJ fun ψ hψ => hψs ψ (hsub hψ)⟩

/-- What is proved holds wherever the rules do. -/
lemma IsProof.holds (h : IsProof rules φs) (hJ : ∀ t ∈ rules, t.Holds J) : ∀ φ ∈ φs, φ.Holds J := by
  induction h with
  | nil => nofun
  | snoc _ hφ ih =>
    obtain ⟨t, ht, hfollows⟩ := hφ
    rw [List.forall_mem_append]
    exact ⟨ih, by simpa using hfollows J (hJ t ht) ih⟩

lemma IsProof.append_filter (h : IsProof rules φs) (hφ : φ.FollowsBy rules φs) (p : Fact → Bool) :
    IsProof rules (φs ++ [φ].filter p) := by
  rw [List.filter_singleton]
  cases p φ with
  | true => exact .snoc h hφ
  | false => rwa [cond_false, List.append_nil]

/-- Proofs are joined to a proof. -/
lemma IsProof.join (h : IsProof rules φs) (h' : IsProof rules ψs) :
    IsProof rules (Pending.join φs ψs) := by
  induction h' with
  | nil => simpa [Pending.join] using h
  | @snoc ψs φ h' hφ ih =>
    have hjoin : Pending.join φs (ψs ++ [φ]) =
        Pending.join φs ψs ++ [φ].filter fun q => !φs.contains q := by
      rw [Pending.join, Pending.join, List.filter_append, List.append_assoc]
    rw [hjoin]
    exact ih.append_filter (hφ.mono fun ψ hψ => Pending.mem_join.mpr (.inr hψ)) _

end Fact

/-- The fact is of the sorts of its relation and stands in its proof. -/
structure Derived.IsProved (rules : List Term) (d : Derived) : Prop where
  sorts : d.fact.args.map Datum.sort = d.fact.relation.domain
  mem : d.fact ∈ d.proof
  isProof : Fact.IsProof rules d.proof

/-- The facts of a base are proved, also the new ones. -/
def Base.IsProved (rules : List Term) (B : Base) : Prop :=
  ∀ d, d ∈ B.known ∨ d ∈ B.fresh → d.IsProved rules

lemma Base.IsProved.isSound {rules : List Term} {B : Base} (h : B.IsProved rules) : B.IsSound where
  sorts d hd := (h d hd).sorts
  proof d hd := (h d hd).mem

namespace Pending

variable {rules : List Term} {B : Base} {p : Pending} {s r : Solution} {c before : Case}

/-- The facts used for a solution are a proof. -/
lemma Leads.isProof (h : Leads B p s r) (hB : B.IsProved rules) (hs : Fact.IsProof rules s.proof) :
    Fact.IsProof rules r.proof := by
  induction h with
  | done => exact hs
  | test _ _ _ _ ih => exact ih hs
  | met hd _ _ ih => exact ih (hs.join (hB _ hd).isProof)
  | value _ _ ih => exact ih hs

lemma perm_of_mem_freshly (h : p ∈ freshly before c) : p.all.Perm (before ++ c) := by
  fun_induction freshly before c with
  | case1 => cases h
  | case2 before f as ls ih =>
    rcases List.mem_cons.mp h with rfl | h
    · rw [all_some]
      exact List.perm_middle.symm
    · simpa using ih h
  | case3 before l ls hl ih => simpa using ih h

lemma exists_mem_freshly {f : Symbol} {as : List Term} (before : Case) (h : .fact f as ∈ c) :
    ∃ p ∈ freshly before c, p.fresh = some (f, as) := by
  fun_induction freshly before c with
  | case1 => cases h
  | case2 before g bs ls ih =>
    rcases List.mem_cons.mp h with heq | h
    · cases heq
      exact ⟨_, List.mem_cons_self, rfl⟩
    · obtain ⟨p, hp, hfresh⟩ := ih h
      exact ⟨p, List.mem_cons_of_mem _ hp, hfresh⟩
  | case3 before l ls hl ih =>
    rcases List.mem_cons.mp h with rfl | h
    · exact absurd rfl (hl f as)
    · exact ih h

end Pending

namespace Case

variable {B : Base} {r : Solution} {c : Case} {first : Bool}

/-- How a solution of a case is found. -/
lemma exists_leads (h : r ∈ (c.newSolutions B first).results) :
    ∃ p : Pending, p.all.Perm c ∧ Pending.Leads B p ⟨[], []⟩ r := by
  unfold newSolutions at h
  split at h
  · obtain ⟨p, hp, hr⟩ := Found.mem_union_map.mp h
    exact ⟨p, Pending.perm_of_mem_freshly hp, Pending.leads_of_mem_search hr⟩
  · split at h
    · exact ⟨⟨none, c⟩, .refl _, Pending.leads_of_mem_search h⟩
    · cases h

end Case

/-! ### Rules and their clauses -/

/-- The clauses are those of closed rules. -/
structure IsClauses (rules : List Term) (cs : List Clause) : Prop where
  closed : ∀ t ∈ rules, t.IsClosed .all
  clause : ∀ t ∈ rules, ∃ c ∈ cs, Clause.ofRule? t = some c
  rule : ∀ c ∈ cs, ∃ t ∈ rules, Clause.ofRule? t = some c

namespace Clause

variable {rules : List Term} {c : Clause} {t : Term} {Δ : List TermSort} {B : Base} {first : Bool}
  {d : Derived} {J : Interpretation} {env : List Element}

lemma hasSort_of_mem {a : Term} {as : List Term} {ss : List TermSort}
    (h : List.Forall₂ HasSort as ss) (ha : a ∈ as) : ∃ s, a.HasSort s := by
  induction h with
  | nil => cases ha
  | cons ha' _ ih =>
    rcases List.mem_cons.mp ha with rfl | ha
    · exact ⟨_, ha'⟩
    · exact ih ha

/-- The literals for the head are formulas. -/
lemma IsFormula.headLiterals (h : c.IsFormula Δ) : Case.IsFormula Δ c.headLiterals := by
  obtain ⟨-, has, hscoped⟩ := h.head.args
  intro l hl
  obtain ⟨a, ha, rfl⟩ := List.mem_map.mp hl
  obtain ⟨s, hs⟩ := hasSort_of_mem has ha
  have ha := areScoped_iff.mp hscoped a ha
  exact ⟨.op (.cons hs (.cons hs .nil)) (by simp [Operator.strictSort?]),
    by simp [isScoped, areScoped, ha]⟩

/-- The literals for the head always hold. -/
lemma IsFormula.headLiterals_metBy (h : c.IsFormula (sortsOf env)) (ds : List Derived) :
    Case.MetBy ds J env c.headLiterals := by
  obtain ⟨-, has, hscoped⟩ := h.head.args
  intro l hl
  obtain ⟨a, ha, rfl⟩ := List.mem_map.mp hl
  obtain ⟨s, hs⟩ := hasSort_of_mem has ha
  obtain ⟨x, hx⟩ := hs.exists_means (J := J) (areScoped_iff.mp hscoped a ha)
  exact (means_eq_true_iff hx hx rfl).mpr rfl

lemma mem_derive : d ∈ (c.derive B first).results ↔ ∃ b ∈ c.cases,
    ∃ r ∈ (Case.newSolutions (b ++ c.headLiterals) B first).results, c.derive? r = some d := by
  rw [derive, List.mem_filterMap]
  simp only [List.mem_map, Found.mem_union_map, id_eq]
  constructor
  · rintro ⟨_, ⟨r, ⟨b, hb, hr⟩, rfl⟩, hd⟩
    exact ⟨b, hb, r, hr, hd⟩
  · rintro ⟨b, hb, r, hr, hd⟩
    exact ⟨_, ⟨r, ⟨b, hb, hr⟩, rfl⟩, hd⟩

/-- **What a clause derives is proved** if the facts are from which it is derived. -/
lemma isProved_of_mem_derive (ht : t ∈ rules) (hclosed : t.IsClosed .all) (hc : ofRule? t = some c)
    (hB : B.IsProved rules) (hd : d ∈ (c.derive B first).results) : d.IsProved rules := by
  obtain ⟨b, hb, r, hr, hd⟩ := mem_derive.mp hd
  obtain ⟨p, hperm, hleads⟩ := Case.exists_leads hr
  obtain ⟨ds, hds, rfl⟩ := Option.map_eq_some_iff.mp hd
  have hform := (ofRule?_iff hclosed hc).1
  have hp : Case.IsFormula t.context p.all :=
    (Case.forall_congr hperm).mpr (List.forall_mem_append.mpr ⟨hform.cases b hb, hform.headLiterals⟩)
  obtain ⟨hsorted, hsound⟩ := hleads.sound hB.isSound hp (Datum.Valuation.isSorted_nil _)
  obtain ⟨env, henv, hfits⟩ := hsorted.exists_fits
  obtain ⟨-, has, hscoped⟩ := hform.head.args
  have hmeans : ∀ J, List.Forall₂ (Means J env) c.args (ds.map Datum.element) :=
    fun J => means_of_data? has (henv ▸ hscoped) hfits hds
  have hfollows : Fact.FollowsBy rules r.proof ⟨c.relation, ds⟩ := by
    refine ⟨t, ht, fun J hJ hψs => ?_⟩
    have hholds := (Case.forall_congr hperm).mp (hsound J env henv hψs hfits).2
    rw [(ofRule?_iff hclosed hc).2 J] at hJ
    exact (Fact.means_iff hform.head (hmeans J)).mp
      (hJ env henv b hb (List.forall_mem_append.mp hholds).1)
  have hsorts : ds.map Datum.sort = c.relation.domain := by
    rw [← Datum.sortsOf_map_element, sortsOf_of_means (hmeans default), map_sort_of_hasSort has]
  exact ⟨hsorts, Pending.mem_join.mpr (.inr (List.mem_singleton_self _)),
    (hleads.isProof hB .nil).append_filter hfollows _⟩

/-- A case finds all its solutions in which a new fact is used; without relations it is solved in the
first round. -/
lemma newSolutions_answers {b : Case} (hB : B.IsSound) (hb : Case.IsFormula (sortsOf env) b)
    (hmet : Case.MetBy B.known J env b)
    (hnew : (∃ f as, .fact f as ∈ b ∧ ∃ d ∈ B.fresh, d.fact.Meets f as J env) ∨
      b.any Literal.isFact = false ∧ first = true) : (b.newSolutions B first).Answers env := by
  unfold Case.newSolutions
  rcases hnew with ⟨f, as, hfact, hd⟩ | ⟨hno, rfl⟩
  · rw [if_pos (List.any_eq_true.mpr ⟨_, hfact, rfl⟩)]
    obtain ⟨p, hp, hfresh⟩ := Pending.exists_mem_freshly [] hfact
    have hperm := Pending.perm_of_mem_freshly hp
    refine Found.answers_union_map hp
      (Pending.search_answers (J := J) hB ?_ ?_ ?_ (Datum.Valuation.fits_nil env))
    · exact (Case.forall_congr hperm).mpr hb
    · rw [hfresh]
      rintro a ⟨⟩
      exact hd
    · exact fun l hl => hmet l (hperm.mem_iff.mp (List.mem_append_right _ hl))
  · rw [hno, if_neg nofun, if_pos rfl]
    exact Pending.search_answers hB hb nofun hmet (Datum.Valuation.fits_nil env)

/-- **A clause derives all that it leads to** with the help of a new fact. -/
lemma exists_mem_derive {b : Case} (hc : c.IsFormula (sortsOf env)) (hB : B.IsSound)
    (hb : b ∈ c.cases) (hmet : Case.MetBy B.known J env b)
    (hnew : (∃ f as, .fact f as ∈ b ∧ ∃ d ∈ B.fresh, d.fact.Meets f as J env) ∨
      b.any Literal.isFact = false ∧ first = true)
    (hcomplete : (c.derive B first).complete = true) :
    ∃ d ∈ (c.derive B first).results, d.fact.Meets c.relation c.args J env := by
  have hform := List.forall_mem_append.mpr ⟨hc.cases b hb, hc.headLiterals⟩
  have hmet' := List.forall_mem_append.mpr ⟨hmet, hc.headLiterals_metBy (J := J) B.known⟩
  have hnew' : (∃ f as, .fact f as ∈ b ++ c.headLiterals ∧ ∃ d ∈ B.fresh, d.fact.Meets f as J env) ∨
      (b ++ c.headLiterals).any Literal.isFact = false ∧ first = true := by
    refine hnew.imp ?_ (And.imp_left fun hno => ?_)
    · rintro ⟨f, as, hfact, hd⟩
      exact ⟨f, as, List.mem_append_left _ hfact, hd⟩
    · rw [List.any_append, hno]
      simp [headLiterals, Literal.isFact]
  rw [derive, Bool.and_eq_true, Found.complete_union_map, List.all_eq_true] at hcomplete
  obtain ⟨r, hr, hfits⟩ := newSolutions_answers hB hform hmet' hnew' (hcomplete.1 b hb)
  obtain ⟨d, hd⟩ := Option.isSome_iff_exists.mp
    (hcomplete.2 _ (List.mem_map_of_mem (Found.mem_union_map.mpr ⟨b, hb, hr⟩)))
  refine ⟨d, mem_derive.mpr ⟨b, hb, r, hr, hd⟩, ?_⟩
  obtain ⟨ds, hds, rfl⟩ := Option.map_eq_some_iff.mp hd
  obtain ⟨-, has, hscoped⟩ := hc.head.args
  exact ⟨rfl, means_of_data? has hscoped hfits hds⟩

end Clause

/-! ### Rounds -/

namespace Program

variable {known ds : List Derived} {d : Derived}

lemma unseen_concat (known ds : List Derived) (d : Derived) :
    unseen known (ds ++ [d]) = if (known ++ unseen known ds).any fun e => e.fact == d.fact
      then unseen known ds else unseen known ds ++ [d] := by
  rw [unseen, List.foldl_concat, ← unseen]

lemma mem_of_mem_unseen (h : d ∈ unseen known ds) : d ∈ ds := by
  induction ds using List.reverseRecOn with
  | nil => cases h
  | append_singleton ds e ih =>
    rw [unseen_concat] at h
    rw [List.mem_append]
    split at h
    · exact .inl (ih h)
    · exact (List.mem_append.mp h).imp_left ih

/-- What is not new is known or was found before. -/
lemma exists_mem_unseen (h : d ∈ ds) : ∃ e ∈ known ++ unseen known ds, e.fact = d.fact := by
  induction ds using List.reverseRecOn with
  | nil => cases h
  | append_singleton ds e ih =>
    rw [unseen_concat]
    rcases List.mem_append.mp h with h | h
    · obtain ⟨e', he', heq⟩ := ih h
      refine ⟨e', ?_, heq⟩
      split
      · exact he'
      · rw [← List.append_assoc]
        exact List.mem_append_left _ he'
    · obtain rfl := List.mem_singleton.mp h
      split
      · rename_i hany
        simpa [or_and_right, exists_or] using hany
      · exact ⟨d, by simp, rfl⟩

variable {rules : List Term} {P : Program} {n budget : Nat} {first complete : Bool} {B : Base}

/-- A base stays proved when the facts of a round are added. -/
lemma isProved_append (hcs : IsClauses rules P.clauses) (hB : B.IsProved rules) {p : Derived → Bool} :
    let new := unseen B.known
      ((Found.union (P.clauses.map fun c => c.derive B first)).results.filter p)
    Base.IsProved rules { B with known := B.known ++ new, fresh := new } := by
  intro new
  have hnew : ∀ d ∈ new, d.IsProved rules := by
    intro d hd
    obtain ⟨c, hc, hd⟩ := Found.mem_union_map.mp (List.mem_filter.mp (mem_of_mem_unseen hd)).1
    obtain ⟨t, ht, hct⟩ := hcs.rule c hc
    exact Clause.isProved_of_mem_derive ht (hcs.closed t ht) hct hB hd
  rintro d (hd | hd)
  · exact (List.mem_append.mp hd).elim (fun hd => hB d (.inl hd)) (hnew d)
  · exact hnew d hd

/-- **What a saturation ends with is proved.** -/
theorem saturateFrom_isProved (hcs : IsClauses rules P.clauses) (hB : B.IsProved rules) :
    ∀ d ∈ (P.saturateFrom n budget first B complete).known, d.IsProved rules := by
  induction n generalizing budget first B complete with
  | zero => exact fun d hd => hB d (.inl hd)
  | succ n ih =>
    have hknown : ∀ d ∈ B.known, d.IsProved rules := fun d hd => hB d (.inl hd)
    unfold saturateFrom
    simp only
    split
    · exact hknown
    · split
      · exact hknown
      · split
        · exact hknown
        · exact ih (isProved_append hcs hB)

/-- What the rules lead to from some facts, by the cases with a property, is among other facts. -/
def LeadInto (rules : List Term) (J : Interpretation) (p : Case → Prop) (ds es : List Derived) :
    Prop :=
  ∀ t ∈ rules, ∀ c, Clause.ofRule? t = some c → ∀ b ∈ c.cases, p b → ∀ env, sortsOf env = t.context →
    Case.MetBy ds J env b → ∃ e ∈ es, e.fact.Meets c.relation c.args J env

variable {J : Interpretation}

lemma LeadInto.mono {p q : Case → Prop} {ds es es' : List Derived} (h : LeadInto rules J p ds es)
    (hpq : ∀ b, q b → p b) (hes : ∀ e ∈ es, ∃ e' ∈ es', e'.fact = e.fact) :
    LeadInto rules J q ds es' := by
  intro t ht c hc b hb hq env henv hmet
  obtain ⟨e, he, hrel, hmeans⟩ := h t ht c hc b hb (hpq b hq) env henv hmet
  obtain ⟨e', he', heq⟩ := hes e he
  exact ⟨e', he', by rw [heq, hrel], by rw [heq]; exact hmeans⟩

/-- **A round finds all that the rules lead to** from the known facts, if it is known what they lead to
from those that are not new. Cases without relations count in the first round. -/
lemma round_leadInto (hcs : IsClauses rules P.clauses) (hB : B.IsProved rules) {old : List Derived}
    (hold : B.known = old ++ B.fresh)
    (hlead : LeadInto rules J (fun b => first = true → b.any Literal.isFact = true) old B.known)
    (hcomplete : (Found.union (P.clauses.map fun c => c.derive B first)).complete = true) :
    LeadInto rules J (fun _ => True) B.known
      (B.known ++ (Found.union (P.clauses.map fun c => c.derive B first)).results) := by
  intro t ht c hct b hb _ env henv hmet
  obtain ⟨c', hc, hct'⟩ := hcs.clause t ht
  cases hct.symm.trans hct'
  have hform := (Clause.ofRule?_iff (hcs.closed t ht) hct).1
  rw [← henv] at hform
  have hderive : (∃ f as, .fact f as ∈ b ∧ ∃ d ∈ B.fresh, d.fact.Meets f as J env) ∨
      b.any Literal.isFact = false ∧ first = true → ∃ e ∈ B.known ++
        (Found.union (P.clauses.map fun c => c.derive B first)).results,
        e.fact.Meets c.relation c.args J env := by
    intro hnew
    obtain ⟨d, hd, hm⟩ := Clause.exists_mem_derive hform hB.isSound hb hmet hnew
      (Found.complete_union_map.mp hcomplete c hc)
    exact ⟨d, List.mem_append_right _ (Found.mem_union_map.mpr ⟨c, hc, hd⟩), hm⟩
  by_cases hmetold : Case.MetBy old J env b
  · by_cases hp : first = true → b.any Literal.isFact = true
    · obtain ⟨e, he, hm⟩ := hlead t ht c hct b hb hp env henv hmetold
      exact ⟨e, List.mem_append_left _ he, hm⟩
    · exact hderive (.inr (by simpa [and_comm] using hp))
  · -- some literal is met by a new fact only
    obtain ⟨l, hl, hnot⟩ : ∃ l ∈ b, ¬ l.MetBy old J env := by simpa [Case.MetBy] using hmetold
    cases l with
    | test a => exact absurd (hmet _ hl) hnot
    | fact f as =>
      obtain ⟨d, hd, hm⟩ := hmet _ hl
      rw [hold, List.mem_append] at hd
      refine hderive (.inl ⟨f, as, hl, d, hd.resolve_left fun hd => hnot ⟨d, hd, hm⟩, hm⟩)

/-- **Where everything was found, the rules lead from the facts to no others.** -/
theorem saturateFrom_leadInto (hcs : IsClauses rules P.clauses) (hB : B.IsProved rules)
    (hinv : complete = true → ∃ old, B.known = old ++ B.fresh ∧
      LeadInto rules J (fun b => first = true → b.any Literal.isFact = true) old B.known)
    (hfinished : (P.saturateFrom n budget first B complete).finished = true)
    (hcomplete : (P.saturateFrom n budget first B complete).complete = true) :
    LeadInto rules J (fun _ => True) (P.saturateFrom n budget first B complete).known
      (P.saturateFrom n budget first B complete).known := by
  induction n generalizing budget first B complete with
  | zero => cases hfinished
  | succ n ih =>
    set found := Found.union (P.clauses.map fun c => c.derive B first) with hfound
    set within := found.results.filter fun d => P.holds d.fact with hwithin
    -- what is found in this round, as long as nothing is left out
    have hround : (complete && found.complete && within.length == found.results.length) = true →
        LeadInto rules J (fun _ => True) B.known (B.known ++ unseen B.known within) := by
      intro hall
      rw [Bool.and_eq_true, Bool.and_eq_true, beq_iff_eq, hwithin,
        List.length_filter_eq_length_iff, ← List.filter_eq_self] at hall
      obtain ⟨old, hold, hlead⟩ := hinv hall.1.1
      refine (round_leadInto hcs hB hold hlead hall.1.2).mono (fun b _ => trivial) fun e he => ?_
      rw [hwithin, hall.2]
      rcases List.mem_append.mp he with he | he
      · exact ⟨e, List.mem_append_left _ he, rfl⟩
      · exact exists_mem_unseen he
    unfold saturateFrom at hfinished hcomplete ⊢
    simp only [← hfound, ← hwithin] at hfinished hcomplete ⊢
    split at hfinished
    · cases hfinished
    rename_i hbudget
    rw [if_neg hbudget] at hcomplete ⊢
    split at hfinished
    · cases hfinished
    rename_i hfew
    rw [if_neg hfew] at hcomplete ⊢
    split at hfinished
    · rename_i hempty
      rw [if_pos hempty] at hcomplete ⊢
      have h := hround hcomplete
      rwa [List.isEmpty_iff.mp hempty, List.append_nil] at h
    · rename_i hempty
      rw [if_neg hempty] at hcomplete ⊢
      refine ih (isProved_append hcs hB) (fun hall => ⟨B.known, rfl, ?_⟩) hfinished hcomplete
      exact (hround hall).mono (fun b _ => trivial) fun e he => ⟨e, he, rfl⟩

/-- The base of which a saturation starts. -/
lemma isProved_nil (samples : List Int) : Base.IsProved rules ⟨[], [], samples⟩ :=
  fun _ hd => hd.elim nofun nofun

theorem saturate_isProved (hcs : IsClauses rules P.clauses) (budget : Nat) :
    ∀ d ∈ (P.saturate budget).known, d.IsProved rules :=
  saturateFrom_isProved hcs (isProved_nil P.samples)

theorem saturate_leadInto (hcs : IsClauses rules P.clauses) (J : Interpretation)
    (hfinished : (P.saturate budget).finished = true)
    (hcomplete : (P.saturate budget).complete = true) :
    LeadInto rules J (fun _ => True) (P.saturate budget).known (P.saturate budget).known := by
  refine saturateFrom_leadInto hcs (isProved_nil P.samples) (fun _ => ⟨[], rfl, ?_⟩) hfinished hcomplete
  intro t ht c hc b hb hfact env henv hmet
  obtain ⟨l, hl, hlfact⟩ := List.any_eq_true.mp (hfact rfl)
  cases l with
  | test a => cases hlfact
  | fact f as =>
    obtain ⟨d, hd, -⟩ := hmet _ hl
    cases hd

end Program

end Horn

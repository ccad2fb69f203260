import Horn.Derivation.Decision
import Horn.Proofs.Derivation.Bounds
import Horn.Proofs.Derivation.Stratified

/-!
What is found out about a goal from facts. Main statements: the facts that a goal is reached by are a proof,
and the goal holds wherever they do; of a goal that is not reached, some interpretation satisfies the rules
and not the goal.
-/

namespace Horn

open Element Term

/-! ### Interpretations by facts -/

namespace Derived

/-- The interpretation in which relations hold of what the facts derived say. -/
noncomputable def interpretation (ds : List Derived) : Interpretation :=
  .ofFacts (ds.map (·.fact))

variable {ds : List Derived} {env : List Element} {l : Literal} {f : Symbol} {as : List Term}

lemma means_interpretation_iff (h : (Term.app f as).IsFormula (sortsOf env)) :
    Means (interpretation ds) env (.app f as) (.ofBool true) ↔
      ∃ d ∈ ds, d.fact.Meets f as (interpretation ds) env := by
  rw [interpretation, means_ofFacts_iff h]
  simp

lemma holds_iff_metBy (h : l.formula.IsFormula (sortsOf env)) :
    l.Holds (interpretation ds) env ↔ l.MetBy ds (interpretation ds) env := by
  cases l with
  | fact f as => exact means_interpretation_iff h
  | test t => exact Iff.rfl

end Derived

/-- Where the rules lead from facts to no others, they hold if nothing but the facts does. -/
lemma holds_interpretation {rules : List Term} {cs : List Clause} {ds : List Derived}
    (hcs : IsClauses rules cs)
    (h : Program.LeadInto rules (Derived.interpretation ds) (fun _ => True) ds ds) :
    ∀ t ∈ rules, t.Holds (Derived.interpretation ds) := by
  intro t ht
  obtain ⟨c, hc, hct⟩ := hcs.clause t ht
  obtain ⟨hform, hiff⟩ := Clause.ofRule?_iff (hcs.closed t ht) hct
  rw [hiff]
  intro env henv b hb hholds
  rw [← henv] at hform
  refine (Derived.means_interpretation_iff hform.head).mpr (h t ht c hct b hb trivial env henv fun l hl => ?_)
  exact (Derived.holds_iff_metBy (hform.cases b hb l hl)).mp (hholds l hl)

namespace Decision

variable {rules : List Term} {cs : List Clause} {goal : Term} {g : List Case} {budget : Nat}

/-- **What is said of a goal is right**: the facts that it is reached by are a proof, and it holds wherever
they do; and a goal that is said not to be reached fails somewhere where all rules hold. -/
def IsRight (rules : List Term) (goal : Term) : Decision → Prop
  | .reached φs => Fact.IsProof rules φs ∧ ∀ J, (∀ φ ∈ φs, φ.Holds J) → goal.Holds J
  | .unreachable => ∃ J, (∀ t ∈ rules, t.Holds J) ∧ ¬ goal.Holds J
  | .undecided => True

/-- A goal that is reached by a solution of one of its cases. -/
lemma reached_isRight {c : Case} {samples : List Int} {ds : List Derived} {s : Solution}
    {Δ : List TermSort} (hds : ∀ d ∈ ds, d.IsProved rules) (hc : Case.IsFormula Δ c)
    (hgoal : ∀ J env, sortsOf env = Δ → Case.Holds c J env → goal.Holds J)
    (hs : s ∈ (c.solutions ⟨ds, [], samples⟩).results) :
    IsRight rules goal (.reached s.proof) := by
  have hB : Base.IsProved rules ⟨ds, [], samples⟩ := fun d hd => hd.elim (hds d) nofun
  have hleads := Pending.leads_of_mem_search hs
  obtain ⟨hsorted, hsound⟩ := hleads.sound hB.isSound hc (Datum.Valuation.isSorted_nil _)
  obtain ⟨env, henv, hfits⟩ := hsorted.exists_fits
  exact ⟨hleads.isProof hB .nil, fun J hJ => hgoal J env henv (hsound J env henv hJ hfits).2⟩

/-- A goal with no solution among facts from which the rules lead to no others. -/
lemma unreachable_isRight {samples : List Int} {ds : List Derived} {Δ : List TermSort}
    (hcs : IsClauses rules cs) (hds : ∀ d ∈ ds, d.IsProved rules)
    (hlead : Program.LeadInto rules (Derived.interpretation ds) (fun _ => True) ds ds)
    (hform : ∀ c ∈ g, Case.IsFormula Δ c)
    (hgoal : ∀ J, goal.Holds J → ∃ env, sortsOf env = Δ ∧ ∃ c ∈ g, Case.Holds c J env)
    (hcomplete : (Found.union (g.map fun c => c.solutions ⟨ds, [], samples⟩)).complete = true)
    (hnone : (Found.union (g.map fun c => c.solutions ⟨ds, [], samples⟩)).results = []) :
    IsRight rules goal .unreachable := by
  refine ⟨Derived.interpretation ds, holds_interpretation hcs hlead, fun hholds => ?_⟩
  obtain ⟨env, rfl, c, hc, hholds⟩ := hgoal _ hholds
  have hB : Base.IsProved rules ⟨ds, [], samples⟩ := fun d hd => hd.elim (hds d) nofun
  have hmet : Case.MetBy ds (Derived.interpretation ds) env c :=
    fun l hl => (Derived.holds_iff_metBy (hform c hc l hl)).mp (hholds l hl)
  have hanswers : (c.solutions ⟨ds, [], samples⟩).Answers env :=
    Pending.search_answers hB.isSound (hform c hc) nofun hmet (Datum.Valuation.fits_nil env)
  obtain ⟨r, hr, -⟩ := Found.answers_union_map hc hanswers hcomplete
  rw [hnone] at hr
  cases hr

/-- **What derived facts tell about a goal is right.** -/
theorem ofCases_isRight (hcs : IsClauses rules cs) (hgoal : goal.IsClosed .any)
    (hg : goal.matrix.cases? = some g) : (ofCases cs g budget).IsRight rules goal := by
  have hmatrix := hgoal.toIsFormula.matrix
  have hform := isFormula_of_cases? hg hmatrix
  have hholds : ∀ J, goal.Holds J ↔
      ∃ env, sortsOf env = goal.context ∧ ∃ c ∈ g, Case.Holds c J env := by
    intro J
    rw [hgoal.holds_any_iff]
    refine exists_congr fun env => and_congr_right fun henv => ?_
    exact (cases?_iff hg (henv ▸ hmatrix)).1
  have hknown := Program.saturate_isProved (P := .ofClauses cs g) hcs budget
  unfold ofCases
  dsimp only
  split
  · rename_i hfinished
    split
    · rename_i s ss hres
      obtain ⟨c, hc, hs⟩ := Found.mem_union_map.mp (hres ▸ List.mem_cons_self (a := s) (l := ss))
      exact reached_isRight hknown (hform c hc)
        (fun J env henv h => (hholds J).mpr ⟨env, henv, c, hc, h⟩) hs
    · rename_i hnone
      split
      · rename_i hcomplete
        rw [Bool.and_eq_true] at hcomplete
        exact unreachable_isRight hcs hknown (Program.saturate_leadInto hcs _ hfinished hcomplete.1)
          hform (fun J => (hholds J).mp) hcomplete.2 hnone
      · split
        · rename_i hrefutes
          obtain ⟨J, hJ, hnot⟩ := Bounds.exists_of_refutes hcs hform hrefutes
          refine ⟨J, hJ, ?_⟩
          rw [hholds]
          rintro ⟨env, henv, c, hc, h⟩
          exact hnot c hc env henv h
        · trivial
  · trivial

/-! ### Goals and rules -/

lemma isClauses_of_mapM (hrules : ∀ t ∈ rules, t.IsClosed .all)
    (h : rules.mapM Clause.ofRule? = some cs) : IsClauses rules cs := by
  induction rules generalizing cs with
  | nil =>
    cases h
    exact ⟨nofun, nofun, nofun⟩
  | cons t rules ih =>
    rw [List.mapM_cons] at h
    obtain ⟨c, hc, h⟩ := Option.bind_eq_some_iff.mp h
    obtain ⟨cs, hcs, h⟩ := Option.bind_eq_some_iff.mp h
    cases h
    obtain ⟨-, hclause, hrule⟩ := ih (fun t ht => hrules t (.tail _ ht)) hcs
    refine ⟨hrules, List.forall_mem_cons.mpr ⟨⟨c, .head _, hc⟩, fun t ht => ?_⟩,
      List.forall_mem_cons.mpr ⟨⟨t, .head _, hc⟩, fun c hc => ?_⟩⟩
    · obtain ⟨c, hc, h⟩ := hclause t ht
      exact ⟨c, .tail _ hc, h⟩
    · obtain ⟨t, ht, h⟩ := hrule c hc
      exact ⟨t, .tail _ ht, h⟩

lemma orElse_cases (d : Decision) (e : Unit → Decision) : d.orElse e = d ∨ d.orElse e = e () := by
  cases d with
  | undecided => exact .inr rfl
  | reached φs => exact .inl rfl
  | unreachable => exact .inl rfl

variable {R : Reasoning}

/-- What is found out about a goal is right, or it is told by other means than facts. -/
lemma ofGoal_cases (R : Reasoning) (budget : Nat) (hrules : ∀ t ∈ rules, t.IsClosed .all)
    (hgoal : goal.IsClosed .any) : (ofGoal R rules goal budget).IsRight rules goal ∨
      ofGoal R rules goal budget = if R = .propositional then ofAnswer (goal.followsFrom? rules)
        else ofRegions rules goal := by
  unfold ofGoal
  dsimp only
  split
  · rename_i cs g hcs hg
    refine (orElse_cases _ _).imp_left fun heq => ?_
    rw [heq]
    exact ofCases_isRight (isClauses_of_mapM hrules hcs) hgoal hg
  · exact .inr rfl

lemma trace_ofAnswer (a : Option Bool) : (ofAnswer a).trace = [] := by
  rcases a with _ | _ | _ <;> rfl

lemma trace_ofRegions (rules : List Term) (goal : Term) : (ofRegions rules goal).trace = [] := by
  unfold ofRegions
  dsimp only
  split
  · rfl
  · split
    · rfl
    · split
      · rfl
      · exact trace_ofAnswer _

/-- **Facts that are shown for a goal are a proof from the rules**, and the goal holds wherever they do. -/
theorem reached_isProof (hrules : ∀ t ∈ rules, t.IsClosed .all) (hgoal : goal.IsClosed .any)
    {φs : List Fact} (hφs : φs ≠ []) (h : ofGoal R rules goal budget = .reached φs) :
    Fact.IsProof rules φs ∧ ∀ J, (∀ φ ∈ φs, φ.Holds J) → goal.Holds J := by
  have hcases := ofGoal_cases R budget hrules hgoal
  rw [h] at hcases
  refine hcases.resolve_right fun heq => hφs ?_
  have htrace : φs.map Fact.term = [] := by
    change (Decision.reached φs).trace = []
    rw [heq]
    split
    · exact trace_ofAnswer _
    · exact trace_ofRegions rules goal
  exact List.map_eq_nil_iff.mp htrace

/-- **A goal over finite sorts that is refuted fails somewhere where all rules hold.** -/
theorem exists_of_unreachable (hrules : ∀ t ∈ rules, t.IsClosed .all)
    (hheads : ∀ t ∈ rules, t.headAndBody?.isSome) (hgoal : goal.IsClosed .any)
    (h : ofGoal .propositional rules goal budget = .unreachable) :
    ∃ J, (∀ t ∈ rules, t.Holds J) ∧ ¬ goal.Holds J := by
  rcases ofGoal_cases .propositional budget hrules hgoal with hright | heq
  · rwa [h] at hright
  · rw [h, if_pos rfl] at heq
    rcases hf : goal.followsFrom? rules with _ | _ | _ <;> rw [hf] at heq <;> try cases heq
    obtain ⟨J, hJ, hiff⟩ := exists_holds_iff_of_followsFrom? hrules hheads hgoal hf
    exact ⟨J, hJ, by simp [hiff]⟩

/-- **A goal over finite sorts that is reached follows from the rules**, where nothing is denied. -/
theorem holds_of_reached (hrules : ∀ t ∈ rules, t.IsClosed .all)
    (hheads : ∀ t ∈ rules, t.headAndBody?.isSome) (hgoal : goal.IsClosed .any)
    (haffirm : ∀ t ∈ rules, t.Affirms) (hocc : ∀ e ∈ goal.matrix.occurrences true, e.2 = true)
    {φs : List Fact} (h : ofGoal .propositional rules goal budget = .reached φs) {J : Interpretation}
    (hJ : ∀ t ∈ rules, t.Holds J) : goal.Holds J := by
  rcases ofGoal_cases .propositional budget hrules hgoal with hright | heq
  · rw [h] at hright
    exact hright.2 J (hright.1.holds hJ)
  · rw [h, if_pos rfl] at heq
    rcases hf : goal.followsFrom? rules with _ | _ | _ <;> rw [hf] at heq <;> try cases heq
    exact holds_of_followsFrom? hrules hheads hgoal haffirm hocc hf hJ

end Decision

end Horn

import Horn.Session.Resident
import Horn.Proofs.Derivation.Decision
import Horn.Proofs.Session.Reason
import Horn.Proofs.Session.Rules
import Horn.Proofs.Sorting.Translation

/-!
What the resident engine says of goals. Main statement: in whatever way a session has been run, its engine
holds closed rules only, the facts that it shows for a goal are a proof from them from which the goal follows,
and over finite sorts its verdicts are right.
-/

namespace Horn

namespace Term

/-- **The closure of a translated formula is a closed formula.** -/
lemma Made.isClosed {Γ : Symbols} {ns : List String} {t : Term} (h : Made Γ ns t)
    (hs : t.HasSort .bool) (q : Quantifier) : (t.close q Γ.free).IsClosed q := by
  unfold close
  split
  · refine ⟨⟨hs, h.isScoped []⟩, ?_⟩
    rintro p bs u rfl
    cases h
  · refine ⟨⟨.quant (hs.closeAt Γ.free 0), ?_⟩, fun p bs u heq => by cases heq; rfl⟩
    have hscoped := isScoped_closeAt Γ.free [] [] t (h.isScoped _)
    rw [List.nil_append, List.append_nil] at hscoped
    rw [Term.isScoped, List.append_nil, List.map_map]
    exact hscoped

lemma isClosed_close {Γ : Symbols} {e : Expr} {t : Term} (hΓ : Γ.WellFormed)
    (h : e.toFormula Γ = .ok t) (q : Quantifier) : (t.close q Γ.free).IsClosed q := by
  obtain ⟨ht, hbool⟩ := Expr.toFormula_eq_ok.mp h
  obtain ⟨s, -, hs⟩ := Expr.toTerm_hasSort hΓ ht
  obtain rfl : s = .bool := hs.sort_eq.symm.trans hbool
  exact (Expr.toTerm_made hΓ ht).isClosed hs q

end Term

namespace Session

variable {E : Engine} {s s' : Session} {J : List (Engine × EngineCall)} {ks : List EngineCall}

lemma Preparing.not_addRule (h : Preparing E s ks s') {t : Term} {l : String} :
    .addRule t l ∉ ks := by
  induction h with
  | still => exact nofun
  | declare _ _ _ ih => exact ih
  | refused _ _ _ _ _ ih => simpa using ih
  | registered _ _ _ _ _ ih => simpa using ih

/-- Rules are handed over as closed formulas. -/
lemma Moves.isClosed (h : Moves E s ks s') (hg : Good J s) {t : Term} {l : String}
    (ht : .addRule t l ∈ ks) : t.IsClosed .all := by
  cases h with
  | prepared h => exact absurd ht h.not_addRule
  | handed h h' =>
    have ht := (List.mem_append.mp ht).resolve_left h.not_addRule
    have hΓ := (h.good hg).symbols
    cases h' with
    | refused ha hf hu hE | added ha hf hu hE =>
      cases List.mem_singleton.mp ht
      exact hu ▸ Term.isClosed_close hΓ hf .all
    | asked ha hf hu hks =>
      rcases List.mem_cons.mp ht with heq | ht
      · cases heq
      · cases hks _ ht

end Session

namespace Resident

/-- The resident engine and its session after commands, some of them carried out with other engines. -/
def run (r : Resident) (cs : List (Option Engine × Command)) : Resident :=
  cs.foldl (fun r c => (r.perform c.1 c.2).2) r

/-- **What holds of the resident engine after any run.** -/
structure Good (r : Resident) : Prop where
  session : ∃ J, r.session.Good J
  rules : ∀ t ∈ r.rules, t.IsClosed .all

lemma mem_rulesOf {calls : List (Phase × EngineCall)} {t : Term} (h : t ∈ rulesOf calls) :
    ∃ l, .addRule t l ∈ calls.map (·.2) := by
  obtain ⟨⟨p, k⟩, hk, heq⟩ := List.mem_filterMap.mp h
  cases k with
  | addRule u l =>
    cases heq
    exact ⟨l, List.mem_map_of_mem hk⟩
  | _ => cases heq

lemma Good.perform {r : Resident} (h : r.Good) (other : Option Engine) (x : Command) :
    (r.perform other x).2.Good := by
  obtain ⟨⟨J, hJ⟩, hrules⟩ := h
  have hmoves := Session.perform_moves x (other.getD r.engine) r.session
  cases other with
  | some E => exact ⟨⟨_, hmoves.good hJ⟩, hrules⟩
  | none =>
    refine ⟨⟨_, hmoves.good hJ⟩, List.forall_mem_append.mpr ⟨hrules, fun t ht => ?_⟩⟩
    obtain ⟨l, hl⟩ := mem_rulesOf ht
    exact hmoves.isClosed hJ hl

/-- **Every run keeps what holds of the resident engine.** -/
lemma Good.run {r : Resident} (h : r.Good) (cs : List (Option Engine × Command)) : (r.run cs).Good := by
  induction cs generalizing r with
  | nil => exact h
  | cons x cs ih => exact ih (h.perform x.1 x.2)

lemma good_new (c : Config) : (new c).Good := ⟨⟨[], Session.good_new c⟩, nofun⟩

/-! ### Verdicts -/

section

variable {r : Resident} {goal : Term}

/-- A rule that is taken on has a head. -/
lemma isSome_headAndBody?_of_refuse? {R : Reasoning} {rules : List Term}
    (h : R.refuse? rules goal = none) : ∀ t ∈ rules, t.headAndBody?.isSome := by
  intro t ht
  have hnone := List.findSome?_eq_none_iff.mp (Option.or_eq_none_iff.mp h).1 t ht
  unfold Reasoning.refuseRule? at hnone
  split at hnone
  · cases hnone
  · rename_i hb
    rw [hb, Option.isSome_some]

/-- What is found out about a goal is found within a budget, unless that is next to nothing. -/
lemma decide_cases (r : Resident) (goal : Term) : r.decide goal = .undecided ∨
    ∃ n, r.decide goal = .ofGoal (r.reasoningFor goal) r.rules goal n := by
  unfold decide
  dsimp only
  split
  · exact .inl rfl
  · exact .inr ⟨_, rfl⟩

lemma decide_of_answer {v : Verdict} (h : r.answer goal = .ok v) :
    (∀ t ∈ r.rules, t.headAndBody?.isSome) ∧ (r.decide goal).verdict = v := by
  unfold answer at h
  split at h
  · cases h
  · rename_i hrefuse
    cases h
    exact ⟨isSome_headAndBody?_of_refuse? hrefuse, rfl⟩

/-- **The facts that the engine shows for a goal are a proof from its rules**, and the goal holds wherever
they do. -/
lemma Good.trace_isProof (h : r.Good) (hgoal : goal.IsClosed .any) :
    ∃ φs : List Fact, r.engine.trace goal = .ok (φs.map fun φ => some φ.term) ∧ (φs ≠ [] →
      Fact.IsProof r.rules φs ∧ ∀ J, (∀ φ ∈ φs, φ.Holds J) → goal.Holds J) := by
  change ∃ φs, Except.ok ((r.decide goal).trace.map some) = _ ∧ _
  rcases hd : r.decide goal with φs | _ | _
  · refine ⟨φs, by rw [Decision.trace, List.map_map]; rfl, fun hφs => ?_⟩
    rcases decide_cases r goal with hund | ⟨n, hn⟩
    · rw [hd] at hund
      cases hund
    · exact Decision.reached_isProof h.rules hgoal hφs (hn.symm.trans hd)
  · exact ⟨[], rfl, fun hne => absurd rfl hne⟩
  · exact ⟨[], rfl, fun hne => absurd rfl hne⟩

/-- A goal over finite sorts that the engine refutes fails somewhere where all rules hold. -/
lemma Good.exists_of_unsat (h : r.Good) (hgoal : goal.IsClosed .any)
    (hfinite : r.reasoningFor goal = .propositional) (hanswer : r.answer goal = .ok .unsat) :
    ∃ J, (∀ t ∈ r.rules, t.Holds J) ∧ ¬ goal.Holds J := by
  obtain ⟨hheads, hverdict⟩ := decide_of_answer hanswer
  rcases decide_cases r goal with hund | ⟨n, hn⟩
  · rw [hund] at hverdict
    cases hverdict
  · rw [hfinite] at hn
    rcases hd : r.decide goal with φs | _ | _ <;> rw [hd] at hverdict <;> try cases hverdict
    exact Decision.exists_of_unreachable h.rules hheads hgoal (hn.symm.trans hd)

/-- A goal over finite sorts that the engine reaches follows from its rules, where nothing is denied. -/
lemma Good.holds_of_sat (h : r.Good) (hgoal : goal.IsClosed .any)
    (hfinite : r.reasoningFor goal = .propositional) (hanswer : r.answer goal = .ok .sat)
    (haffirm : ∀ t ∈ r.rules, t.Affirms) (hocc : ∀ e ∈ goal.matrix.occurrences true, e.2 = true)
    {J : Interpretation} (hJ : ∀ t ∈ r.rules, t.Holds J) : goal.Holds J := by
  obtain ⟨hheads, hverdict⟩ := decide_of_answer hanswer
  rcases decide_cases r goal with hund | ⟨n, hn⟩
  · rw [hund] at hverdict
    cases hverdict
  · rw [hfinite] at hn
    rcases hd : r.decide goal with φs | _ | _ <;> rw [hd] at hverdict <;> try cases hverdict
    exact Decision.holds_of_reached h.rules hheads hgoal haffirm hocc (hn.symm.trans hd) hJ

end

/-- **What a query says over finite sorts is right**, in whatever way the session has been run: a goal that
is unsatisfiable fails somewhere where all rules hold, and one that is satisfiable follows from the rules if
nothing is denied in them or in the goal. -/
theorem query_right (c : Config) (cs : List (Option Engine × Command)) (e : Expr) {q : QueryResult}
    (h : (Session.query e ((new c).run cs).engine ((new c).run cs).session).result = .ok q) :
    let r := (new c).run cs
    ∃ t, e.toFormula r.session.symbols = .ok t ∧ let goal := t.close .any r.session.symbols.free
      r.reasoningFor goal = .propositional →
        (q.result = .unsatisfiable → ∃ J, (∀ t ∈ r.rules, t.Holds J) ∧ ¬ goal.Holds J) ∧
        (q.result = .satisfiable → (∀ t ∈ r.rules, t.Affirms) →
          (∀ f ∈ goal.matrix.occurrences true, f.2 = true) →
          ∀ J, (∀ t ∈ r.rules, t.Holds J) → goal.Holds J) := by
  intro r
  have hgood : r.Good := (good_new c).run cs
  obtain ⟨J, hJ⟩ := hgood.session
  have hend := Session.query_ends e r.engine r.session
  change (Session.query e r.engine r.session).result = .ok q at h
  generalize Session.query e r.engine r.session = o at h hend
  cases hend with
  | unknown hn => cases h
  | noTerm hn ht => cases h
  | @asked t _ _ _ _ hn ht ha =>
    have hgoal := Term.isClosed_close hJ.symbols ht .any
    cases h
    refine ⟨t, ht, fun hfinite => ⟨fun hq => ?_, fun hq haffirm hocc J hJ => ?_⟩⟩
    · exact hgood.exists_of_unsat hgoal hfinite (ha.classifies.unsatisfiable.mp hq)
    · exact hgood.holds_of_sat hgoal hfinite (ha.classifies.satisfiable.mp hq) haffirm hocc hJ

end Resident

end Horn

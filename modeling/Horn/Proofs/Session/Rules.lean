import Horn.Proofs.Closure
import Horn.Proofs.Session.Journal

/-!
The rules that a session records and the goals that it asks about. Main statement: each is the closure of
a translated formula over the constants that are declared at the time, and what is recorded stays as it
is.
-/

namespace Horn.Session

/-! ### The constants in force -/

section

variable {E : Engine} {s : Session} {n : String}

lemma DeclareEnd.free {sp : SortSpec} {o : Outcome Unit} (h : DeclareEnd n sp s o)
    (hs : sp.isFunction = true) : o.session.symbols.free = s.symbols.free := by
  cases h with
  | failed hd => rfl
  | again hf hs => rfl
  | declared hf hs' =>
    unfold Symbols.free Symbols.constants
    rw [Symbols.add_declarations, List.filter_append, List.filter_singleton]
    change List.map _ (_ ++ bif !sp.isFunction then _ else []) = _
    rw [hs, Bool.not_true, cond_false, List.append_nil]

lemma RegisterEnd.symbols {o : Outcome Unit} (h : RegisterEnd n E s o) :
    o.session.symbols = s.symbols := by
  cases h with
  | again hr => rfl
  | missing hr hf => rfl
  | notRelation hr hf hb => rfl
  | refused hr hf hb hE => rfl
  | registered hr hf hb hE => rfl

/-- Finding the head of a rule leaves the declared constants alone. -/
lemma free_withHead (e : Expr) (E : Engine) (s : Session) :
    (withHead e E s).session.symbols.free = s.symbols.free := by
  rw [withHead_eq]
  have hend := head_ends e.ruleHead E s
  generalize head e.ruleHead E s = o at hend ⊢
  cases hend with
  | error hf =>
    have hend := errorRelation_ends E s
    generalize errorRelation E s = o at hend ⊢
    cases hend with
    | known hr => rfl
    | undeclared hr hd ho => exact hd.free rfl
    | unregistered hr hd ho hg ho' => rw [hg.symbols, hd.free rfl]
    | made hr hd ho hg ho' => rw [hg.symbols, hd.free rfl]
  | registered hf hr => rfl
  | notHead hf hr => rfl

end

/-! ### What is recorded -/

section

variable {E : Engine} {s s' : Session} {ks : List EngineCall}

lemma Preparing.rules (h : Preparing E s ks s') : s'.rules = s.rules := by
  induction h with
  | still => rfl
  | declare _ _ _ ih => exact ih
  | refused _ _ _ _ _ ih => exact ih
  | registered _ _ _ _ _ ih => exact ih

/-- **What adding a rule does**, if it succeeds: the formula of the rule with its head is closed over
the declared constants and recorded under the label. -/
lemma addRule_ok {e : Expr} {l : String} (h : (addRule e l E s).result = .ok ()) :
    ∃ t, e.ruleForm.toFormula (addRule e l E s).session.symbols = .ok t ∧
      (addRule e l E s).session.Admits e.ruleForm ∧
      (e.ruleHead.isBareFalse = true → (addRule e l E s).session.isRegistered errorName = true) ∧
      (addRule e l E s).session.symbols.free = s.symbols.free ∧
      (addRule e l E s).session.rules = s.rules ++ [(l, t.close .all s.symbols.free)] := by
  have hend := addRule_ends e l E s
  have hfree := free_withHead e E s
  have hrules := (withHead_preparing e E s).rules
  generalize addRule e l E s = o at h hend ⊢
  cases hend with
  | unknown hn => cases h
  | noHead hn ho => cases h
  | noTerm hn ho ht => cases h
  | refused hn ho ht hu hE => cases h
  | @added e' t u hn ho ht hu hE =>
    obtain ⟨rfl, ha, hreg⟩ := withHead_ok (searchName_none hn) ho
    refine ⟨t, ht, ha, hreg, hfree, ?_⟩
    rw [hu, hfree, ← hrules]

/-- The goal of a query is the closure of its formula over the declared constants. -/
lemma query_goal {e : Expr} {p : Phase} {g : Term} (h : (p, .query g) ∈ (query e E s).calls) :
    ∃ t, s.Admits e ∧ e.toFormula s.symbols = .ok t ∧ g = t.close .any s.symbols.free := by
  have hend := query_ends e E s
  generalize query e E s = o at h hend
  cases hend with
  | unknown hn => cases h
  | noTerm hn ht => cases h
  | @asked t r reason ks lg hn ht ha =>
    rcases List.mem_cons.mp h with h | h
    · cases h
      exact ⟨t, searchName_none hn, ht, rfl⟩
    · obtain ⟨k, hk, hkg⟩ := List.mem_map.mp h
      cases hkg
      cases ha.followUps _ hk

/-- A query whose names are admitted and that is a formula is put to the engine. -/
lemma query_hands {e : Expr} {t : Term} (ha : s.Admits e) (ht : e.toFormula s.symbols = .ok t)
    (E : Engine) : (.querying, .query (t.close .any s.symbols.free)) ∈ (query e E s).calls := by
  have hend := query_ends e E s
  generalize query e E s = o at hend ⊢
  cases hend with
  | unknown hn =>
    rw [Expr.searchName_eq_none_iff.mpr ha] at hn
    cases hn
  | noTerm hn ht' =>
    rw [ht] at ht'
    cases ht'
  | asked hn ht' hans =>
    rw [ht] at ht'
    cases ht'
    exact .head _

lemma Handing.rules_kept (h : Handing E s ks s') : s.rules <+: s'.rules := by
  cases h with
  | refused ha ht hu hE => exact List.prefix_refl _
  | added ha ht hu hE => exact List.prefix_append _ _
  | asked ha ht hu hks => exact List.prefix_refl _

/-- **A command leaves the recorded rules as they are**, and at most adds one. -/
lemma Moves.rules_kept (h : Moves E s ks s') : s.rules <+: s'.rules := by
  cases h with
  | prepared h => exact h.rules ▸ List.prefix_refl _
  | handed h h' => rw [← h.rules]; exact h'.rules_kept

theorem run_rules_kept (s : Session) (cs : List (Engine × Command)) :
    s.rules <+: (run s cs).rules := by
  induction cs generalizing s with
  | nil => exact List.prefix_refl _
  | cons x cs ih => exact (perform_moves x.2 x.1 s).rules_kept.trans (ih _)

end

/-- **Rules and goals are closures, and rules stay as they are**, after any run. A rule that is added is
recorded last, as the closure under one universal binder of the formula of the rule with its head, over
the constants that were declared when it was added; so is a goal under an existential one. Whatever the
session is then told to do, the rules recorded so far come first, in their order. -/
theorem rules_closed (c : Config) (cs : List (Engine × Command)) :
    let s := run (new c) cs
    (∀ E e l, (addRule e l E s).result = .ok () → ∃ t u,
      e.ruleForm.toFormula (addRule e l E s).session.symbols = .ok t ∧
      (addRule e l E s).session.rules = s.rules ++ [(l, u)] ∧
      (addRule e l E s).session.symbols.free = s.symbols.free ∧
      Term.IsClosure .all s.symbols.free t u) ∧
    (∀ E e p g, (p, .query g) ∈ (query e E s).calls → ∃ t, e.toFormula s.symbols = .ok t ∧
      Term.IsClosure .any s.symbols.free t g) ∧
    ∀ cs', s.rules <+: (run s cs').rules := by
  intro s
  have hg := good_run c cs
  refine ⟨?_, ?_, run_rules_kept s⟩
  · intro E e l h
    obtain ⟨t, ht, -, -, hfree, hrules⟩ := addRule_ok h
    have hg' := (addRule_ends e l E s).moves.good hg
    have hmade := Expr.toTerm_made hg'.symbols (Expr.toFormula_eq_ok.mp ht).1
    refine ⟨t, _, ht, hrules, hfree, ?_⟩
    rw [← hfree]
    exact hmade.isClosure hg'.symbols .all
  · intro E e p g hgoal
    obtain ⟨t, -, ht, rfl⟩ := query_goal hgoal
    have hmade := Expr.toTerm_made hg.symbols (Expr.toFormula_eq_ok.mp ht).1
    exact ⟨t, ht, hmade.isClosure hg.symbols .any⟩

end Horn.Session

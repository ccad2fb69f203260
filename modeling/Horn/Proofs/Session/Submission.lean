import Mathlib.Data.List.Forall2
import Horn.Proofs.Session.ErrorName
import Horn.Proofs.Session.Rules

/-!
The rules that a run submits with success, beside the ones that the session records. Main statement: the
recorded rules are, one by one, the closures of the submitted ones, which name no other functions than
admitted expressions may.
-/

namespace Horn

/-- A rule as it was submitted, with its label and the symbols that were declared when it was added. -/
structure Submission where
  rule : Expr
  label : String
  symbols : Symbols

namespace Session

def submitted (E : Engine) (s : Session) : Command → List Submission
  | .addRule e l => match (addRule e l E s).result with
    | .ok _ => [⟨e, l, (addRule e l E s).session.symbols⟩]
    | .error _ => []
  | _ => []

def submissions (s : Session) : List (Engine × Command) → List Submission
  | [] => []
  | (E, x) :: cs => submitted E s x ++ submissions (perform x E s).session cs

/-- **What a recorded rule has to do with the one that was submitted**, as the session stands. -/
structure Records (s : Session) (r : String × Term) (σ : Submission) : Prop where
  label : r.1 = σ.label
  wellFormed : σ.symbols.WellFormed
  clause : ∃ t, σ.rule.ruleForm.toFormula σ.symbols = .ok t ∧ r.2 = t.close .all σ.symbols.free
  declared : ∀ d ∈ σ.symbols.declarations, d ∈ s.symbols.declarations
  usable : ∀ d ∈ σ.symbols.functions, d.name ∈ σ.rule.ruleForm.names → s.Usable d
  error : σ.rule.ruleHead.isBareFalse = true →
    ∃ d, σ.symbols.find? errorName = some d ∧ d.isFunction = true ∧ d.symbol = errorSymbol

section

variable {E : Engine} {s s' : Session} {J : List (Engine × EngineCall)} {S : List Submission}

lemma Records.grows {r : String × Term} {σ : Submission} (h : Records s r σ) (hs : Grows s s') :
    Records s' r σ where
  label := h.label
  wellFormed := h.wellFormed
  clause := h.clause
  declared d hd := hs.declared d (h.declared d hd)
  usable d hd hn := hs.usable (h.usable d hd hn)
  error := h.error

/-- The error relation has no arguments if it heads a rule that has a term. -/
lemma error_of_registered (hg : Good J s) (hr : s.isRegistered errorName = true) {t : Term}
    (ht : errorExpr.toTerm s.symbols = .ok t) :
    ∃ d, s.symbols.find? errorName = some d ∧ d.isFunction = true ∧ d.symbol = errorSymbol := by
  rcases hg.error_cases hr with ⟨-, hmem, -⟩ | ⟨-, k, hterm⟩
  · obtain ⟨hfind, hk⟩ := hg.symbols.mem_functions_iff.mp (hg.relation _ hmem).1
    exact ⟨errorDeclaration, hfind, hk, rfl⟩
  · rw [hterm] at ht
    cases ht

/-- A rule with the error relation for its head has a term only if the error relation has one. -/
lemma errorExpr_toTerm {e : Expr} {Γ : Symbols} {t : Term} (hf : e.ruleHead.isBareFalse = true)
    (h : e.ruleForm.toTerm Γ = .ok t) : ∃ u, errorExpr.toTerm Γ = .ok u := by
  unfold Expr.ruleForm at h
  rw [hf, if_pos rfl] at h
  rcases e.rule_cases with ⟨b, hd, sp, rfl⟩ | ⟨-, -, hp, -⟩
  · rcases Expr.toTerm_eq_ok h with ⟨c, hnil, -⟩ | ⟨-, ts, hts, -⟩
    · cases hnil
    · obtain ⟨v, us, -, hus, -⟩ := Expr.toTerms_cons_eq_ok hts
      obtain ⟨u, -, hu, -⟩ := Expr.toTerms_cons_eq_ok hus
      exact ⟨u, hu⟩
  · rw [hp] at h
    exact ⟨t, h⟩

/-- **A rule that is added is recorded** after those that are there. -/
lemma addRule_records {e : Expr} {l : String} (hg : Good J s)
    (h : (addRule e l E s).result = .ok ()) : ∃ u,
      (addRule e l E s).session.rules = s.rules ++ [(l, u)] ∧
      Records (addRule e l E s).session (l, u) ⟨e, l, (addRule e l E s).session.symbols⟩ := by
  obtain ⟨t, ht, ha, hreg, hfree, hrules⟩ := addRule_ok h
  have hg' := (addRule_ends e l E s).moves.good hg
  refine ⟨_, hrules, rfl, hg'.symbols, ⟨t, ht, by rw [hfree]⟩, fun d hd => hd, ?_, ?_⟩
  · intro d hd hn
    exact hg'.usable ha hd hn
  · intro hf
    obtain ⟨u, hu⟩ := errorExpr_toTerm hf (Expr.toFormula_eq_ok.mp ht).1
    exact error_of_registered hg' (hreg hf) hu

lemma RuleEnd.rules_of_error {e : Expr} {l : String} {o : Outcome Unit} {x : SessionError}
    (h : RuleEnd e l E s (withHead e E s) o) (ho : o.result = .error x) :
    o.session.rules = s.rules := by
  have hrules := (withHead_preparing e E s).rules
  cases h with
  | unknown hn => rfl
  | noHead hn hx => exact hrules
  | noTerm hn hx ht => exact hrules
  | refused hn hx ht hu hE => exact hrules
  | added hn hx ht hu hE => cases ho

lemma QueryEnd.rules {e : Expr} {o : Outcome QueryResult} (h : QueryEnd e E s o) :
    o.session.rules = s.rules := by
  cases h with
  | unknown hn => rfl
  | noTerm hn ht => rfl
  | asked hn ht ha => rfl

/-- **A command that leaves other rules behind** adds one, and with success. -/
lemma perform_rules (x : Command) (E : Engine) (s : Session) :
    ((perform x E s).session.rules = s.rules ∧ submitted E s x = []) ∨
      ∃ e l, x = .addRule e l ∧ (addRule e l E s).result = .ok () ∧
        (perform x E s).session = (addRule e l E s).session := by
  have hend := perform_ends x E s
  generalize (perform x E s).calls = ks at hend
  generalize (perform x E s).session = s' at hend ⊢
  cases hend with
  | declare n sp => exact .inl ⟨((declare_ends n sp E s).preparing (E := E)).rules, rfl⟩
  | newVariable n sp => exact .inl ⟨((declare_ends n sp E s).preparing (E := E)).rules, rfl⟩
  | register e => exact .inl ⟨(register_ends e E s).preparing.rules, rfl⟩
  | errorRelation => exact .inl ⟨(errorRelation_ends E s).preparing.rules, rfl⟩
  | query e => exact .inl ⟨(query_ends e E s).rules, rfl⟩
  | looked hx =>
    refine .inl ⟨rfl, ?_⟩
    cases x <;> first | rfl | cases hx
  | addRule e l =>
    rcases hr : (addRule e l E s).result with y | ⟨⟩
    · refine .inl ⟨(addRule_ends e l E s).rules_of_error hr, ?_⟩
      rw [submitted, hr]
    · exact .inr ⟨e, l, rfl, hr, rfl⟩

/-- **A command records what it submits**, and nothing else. -/
lemma perform_records (hg : Good J s) (hS : List.Forall₂ (Records s) s.rules S) (E : Engine)
    (x : Command) : List.Forall₂ (Records (perform x E s).session) (perform x E s).session.rules
      (S ++ submitted E s x) := by
  have hS' : List.Forall₂ (Records (perform x E s).session) s.rules S :=
    hS.imp fun _ _ h => h.grows (perform_moves x E s).grows
  rcases perform_rules x E s with ⟨hr, hx⟩ | ⟨e, l, rfl, hr, hs⟩
  · rw [hr, hx, List.append_nil]
    exact hS'
  · obtain ⟨u, hrules, hrec⟩ := addRule_records hg hr
    rw [hs] at hS' ⊢
    rw [hrules, submitted, hr]
    exact List.rel_append hS' (.cons hrec .nil)

/-- **A run records what it submits**, one by one. -/
theorem run_records (hg : Good J s) (hS : List.Forall₂ (Records s) s.rules S)
    (cs : List (Engine × Command)) : List.Forall₂ (Records (run s cs)) (run s cs).rules
      (S ++ submissions s cs) := by
  induction cs generalizing s J S with
  | nil => rw [submissions, List.append_nil]; exact hS
  | cons c cs ih =>
    obtain ⟨E, x⟩ := c
    rw [submissions, ← List.append_assoc]
    exact ih ((perform_moves x E s).good hg) (perform_records hg hS E x)

end

end Session

end Horn

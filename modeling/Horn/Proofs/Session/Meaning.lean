import Horn.Proofs.Session.Separate
import Horn.Proofs.Session.Submission

/-!
The meaning of what a session hands to its engine. Main statement: recorded rules hold if and only if the
submitted ones hold for all constants, and goals if and only if the query holds for some, exactly if no
two names that expressions may name share a symbol.
-/

namespace Horn

namespace Symbols

/-- What is read as a name that is not declared is built in, and declared nowhere. -/
lemma KeepsBuiltins.find?_eq_none {Γ Γ' : Symbols} (h : Γ'.KeepsBuiltins) {e : Expr} {t : Term}
    (ht : e.toTerm Γ = .ok t) {n : String} (hn : n ∈ e.names) (hnone : Γ.find? n = none) :
    Γ'.find? n = none := by
  obtain ⟨as, s, u, hu, -⟩ := Expr.exists_node ht hn
  obtain ⟨hf, hc⟩ := find?_eq_none_iff_kinds.mp hnone
  rw [find?_eq_none_iff]
  rintro d hd rfl
  obtain ⟨ho, htrue, hfalse, hint⟩ := h d hd
  rcases Expr.toTerm_eq_ok hu with ⟨c, -, hc', -⟩ | ⟨-, ts, -, hr⟩
  · cases hc.symm.trans hc'
  · rcases Expr.rootTerm_eq_ok hr with ⟨f, us, hf', -⟩ | ⟨-, -, ⟨-, hlit⟩ | ⟨-, o, ho', -⟩⟩
    · cases hf.symm.trans hf'
    · rcases Expr.literalTerm_eq_ok hlit with ⟨h, -⟩ | ⟨h, -⟩ | ⟨-, -, k, hk, -⟩
      · exact htrue h
      · exact hfalse h
      · cases hint.symm.trans hk
    · cases ho.symm.trans ho'

end Symbols

namespace Session

section

variable {s : Session} {J : List (Engine × EngineCall)} {r : String × Term} {σ : Submission}
  {K : Interpretation} {I : Denotation}

/-- A name that is not declared has not been when a rule was recorded. -/
lemma Records.find?_eq_none (h : Records s r σ) {n : String} (hn : s.symbols.find? n = none) :
    σ.symbols.find? n = none := by
  rw [Symbols.find?_eq_none_iff] at hn ⊢
  exact fun d hd => hn d (h.declared d hd)

/-- The names of a recorded rule are declared as they were when it was recorded. -/
lemma Records.find?_eq (hg : Good J s) (h : Records s r σ) (hplain : s.symbols.KeepsBuiltins)
    {t : Term} (ht : σ.rule.ruleForm.toTerm σ.symbols = .ok t) :
    ∀ n ∈ σ.rule.ruleForm.names, σ.symbols.find? n = s.symbols.find? n := by
  intro n hn
  rcases hd : σ.symbols.find? n with _ | d
  · rw [hplain.find?_eq_none ht hn hd]
  · obtain ⟨hd, hdn⟩ := h.wellFormed.find?_eq_some_iff.mp hd
    rw [hg.symbols.find?_eq_some_iff.mpr ⟨h.declared d hd, hdn⟩]

/-- **The names of a recorded rule may still be named**, and the constants it is closed over. -/
lemma Records.nameable (hg : Good J s) (h : Records s r σ) (hplain : s.symbols.KeepsBuiltins) :
    (∀ c ∈ σ.symbols.constants, s.Nameable c) ∧
      ∀ d ∈ σ.symbols.declarations, d.name ∈ σ.rule.ruleForm.names → s.Nameable d := by
  have hconst : ∀ c ∈ σ.symbols.constants, c ∈ s.symbols.constants := by
    intro c hc
    obtain ⟨hc, hk⟩ := List.mem_filter.mp hc
    exact List.mem_filter.mpr ⟨h.declared c hc, hk⟩
  refine ⟨fun c hc => hg.nameable_constant (hconst c hc), fun d hd hn => ?_⟩
  obtain ⟨t, ht, -⟩ := h.clause
  have ht := (Expr.toFormula_eq_ok.mp ht).1
  have hsame := h.find?_eq hg hplain ht
  have ht' : σ.rule.ruleForm.toTerm s.symbols = .ok t := by
    rw [← Expr.toTerm_congr h.wellFormed hg.symbols _ hsame, ht]
  refine nameable_of_admits (fun n hn => ?_) ht' d (h.declared d hd) hn
  rcases hf : s.symbols.function? n with _ | f
  · exact isUnregistered_of_function?_eq_none hf
  · obtain ⟨c, hc, hk, -⟩ := hg.symbols.function?_eq_some_iff.mp hf
    rw [← hsame n hn] at hc
    obtain ⟨hmem, rfl⟩ := h.wellFormed.find?_eq_some_iff.mp hc
    exact (h.usable c (List.mem_filter.mpr ⟨hmem, hk⟩) hn).isUnregistered hg

/-- **A recorded rule means what was submitted.** -/
lemma Records.holds_iff (hg : Good J s) (h : Records s r σ) (hsep : s.Separate)
    (hplain : s.symbols.KeepsBuiltins) (hK : K.Interprets s.Nameable I) :
    r.2.Holds K ↔ ∀ ρ, σ.rule.HoldsAsRule σ.symbols I ρ := by
  obtain ⟨t, ht, hclause⟩ := h.clause
  obtain ⟨hconst, hnames⟩ := h.nameable hg hplain
  have hK' : K.Interprets (fun d => d ∈ σ.symbols.declarations ∧ s.Nameable d) I :=
    ⟨fun d hd hk => hK.apply d hd.2 hk, hK.byZero⟩
  rw [hclause, holds_close_all_iff h.wellFormed (fun d hd => hd.1)
    (fun c hc => ⟨(List.mem_filter.mp hc).1, hconst c hc⟩)
    (fun d d' hd hd' => hsep d d' hd.2 hd'.2) hK' (fun d hd hn => ⟨hd, hnames d hd hn⟩)
    (Expr.toFormula_eq_ok.mp ht).1]
  refine forall_congr' fun ρ => ?_
  unfold Expr.Holds Expr.HoldsAsRule
  rw [Expr.value?_ruleForm (h.find?_eq_none (hplain.operator .implies))]
  intro hf
  obtain ⟨d, hd, hk, hs⟩ := h.error hf
  exact Expr.value?_errorExpr hd hk hs

/-- Where the error relation is false, a recorded rule means what was submitted as it was written. -/
lemma Records.holds_iff_of_error (hg : Good J s) (h : Records s r σ) (hsep : s.Separate)
    (hplain : s.symbols.KeepsBuiltins) (hK : K.Interprets s.Nameable I) (hI : I.error = false) :
    r.2.Holds K ↔ ∀ ρ, σ.rule.Holds σ.symbols I ρ := by
  rw [h.holds_iff hg hsep hplain hK]
  refine forall_congr' fun ρ => ?_
  unfold Expr.Holds Expr.HoldsAsRule
  rw [Expr.ruleValue?_of_error (h.find?_eq_none hplain.false)
    (h.find?_eq_none (hplain.operator .implies)) hI]

end

/-! ### Whole runs -/

/-- **What is handed to the engine means what was submitted**, whatever the declared functions stand for.
Their symbols can stand for the same, as far as expressions may name them, and where they do: each
recorded rule holds if and only if the submitted one does for all constants; if the error relation is
false, they all hold if and only if those do as they were written; and a goal holds if and only if the
query does for some constants. -/
structure Faithful (s : Session) (S : List Submission) : Prop where
  interpreted : ∀ I, ∃ K : Interpretation, K.Interprets s.Nameable I
  rule : ∀ (K : Interpretation) I, K.Interprets s.Nameable I →
    List.Forall₂ (fun r σ => r.1 = σ.label ∧
      (r.2.Holds K ↔ ∀ ρ, σ.rule.HoldsAsRule σ.symbols I ρ)) s.rules S
  safe : ∀ (K : Interpretation) I, K.Interprets s.Nameable I → I.error = false →
    ((∀ r ∈ s.rules, r.2.Holds K) ↔ ∀ σ ∈ S, ∀ ρ, σ.rule.Holds σ.symbols I ρ)
  goal : ∀ (K : Interpretation) I, K.Interprets s.Nameable I → ∀ E e p g,
    (p, EngineCall.query g) ∈ (query e E s).calls → (g.Holds K ↔ ∃ ρ, e.Holds s.symbols I ρ)

lemma forall_mem_iff_of_forall₂ {α β : Type} {R : α → β → Prop} {P : α → Prop} {Q : β → Prop}
    {xs : List α} {ys : List β} (h : List.Forall₂ R xs ys) (hR : ∀ x y, R x y → (P x ↔ Q y)) :
    (∀ x ∈ xs, P x) ↔ ∀ y ∈ ys, Q y := by
  induction h with
  | nil => simp
  | cons hxy _ ih => rw [List.forall_mem_cons, List.forall_mem_cons, hR _ _ hxy, ih]

/-- **The meaning of a run**, in which no built-in name is declared: what has been handed to the engine
means what was submitted, whatever the functions stand for, if and only if no two names that expressions
may name share a symbol. -/
theorem run_faithful_iff (c : Config) (cs : List (Engine × Command))
    (hplain : (run (new c) cs).symbols.KeepsBuiltins) :
    Faithful (run (new c) cs) (submissions (new c) cs) ↔ (run (new c) cs).Separate := by
  have hg := good_run c cs
  constructor
  · intro h
    exact hg.separate hplain h.interpreted h.goal
  · intro hsep
    have hrec : List.Forall₂ (Records (run (new c) cs)) (run (new c) cs).rules
        (submissions (new c) cs) := run_records (S := []) (good_new c) .nil cs
    refine ⟨fun I => ?interpreted, fun K I hK => ?rule, fun K I hK hI => ?safe, fun K I hK => ?goal⟩
    case interpreted =>
      obtain ⟨K, hK⟩ := exists_represents hsep I fun _ s => s.someValue
      exact ⟨K, hK.interprets⟩
    case rule => exact hrec.imp fun r σ h => ⟨h.label, h.holds_iff hg hsep hplain hK⟩
    case safe =>
      exact forall_mem_iff_of_forall₂ hrec fun r σ h => h.holds_iff_of_error hg hsep hplain hK hI
    case goal =>
      intro E e p g hgoal
      obtain ⟨t, ha, ht, rfl⟩ := query_goal hgoal
      exact hg.goal_holds_iff hsep hK ha ht

/-- A run with a relation, a fact and a safety rule means what was submitted. -/
theorem run_faithful_safety :
    let cs : List (Engine × Command) :=
      [(obliging, .declare "x" .int), (obliging, .declare "p" (.function [.int] .bool)),
        (obliging, .register (.symbol "p" .absent)),
        (obliging, .addRule (.node "p" [.symbol "0" .int] .bool) "fact"),
        (obliging, .addRule (.implies (.node "p" [.symbol "x" .int] .bool)
          (.symbol "false" .bool)) "safe")]
    (run (new .default) cs).symbols.KeepsBuiltins ∧ (run (new .default) cs).rules.length = 2 ∧
      Faithful (run (new .default) cs) (submissions (new .default) cs) := by
  intro cs
  have hplain : (run (new .default) cs).symbols.KeepsBuiltins := by decide +kernel
  have hwhole : ∀ d ∈ (run (new .default) cs).symbols.declarations, '\x00' ∉ d.name.toList := by
    decide +kernel
  exact ⟨hplain, by decide +kernel,
    (run_faithful_iff .default cs hplain).mpr ((good_run .default cs).separate_of_whole hwhole)⟩

/-- A safety rule that is caught by a constant: its head, which stands for `false`, is bound together with
a constant whose name is that of the error relation up to its first NUL. -/
theorem error_relation_caught :
    let cs : List (Engine × Command) :=
      [(obliging, .declare "chc!error\x00z" .bool),
        (obliging, .addRule (.implies (.symbol "chc!error\x00z" .bool) (.symbol "false" .bool)) "safe")]
    (run (new .default) cs).rules = [("safe", .quant .all [("chc!error", .bool)]
      (.op .implies [.var 0 .bool, .var 0 .bool]))] ∧ ¬ (run (new .default) cs).Separate := by
  intro cs
  have hg := good_run .default cs
  have hfree : (run (new .default) cs).symbols.constants.map (·.symbol) = [errorSymbol] := by
    decide +kernel
  have hrel : (run (new .default) cs).relations.map (·.symbol) = [errorSymbol] := by decide +kernel
  refine ⟨by with_unfolding_all rfl, fun hsep => ?_⟩
  obtain ⟨c, hc, hcs⟩ := List.mem_map.mp (show errorSymbol ∈ _ by rw [hfree]; exact .head _)
  obtain ⟨d, hd, hds⟩ := List.mem_map.mp (show errorSymbol ∈ _ by rw [hrel]; exact .head _)
  -- the constant and the relation may both be named, and so would have to be one declaration
  have hnamed := hg.nameable_relation hd (by rw [hds]; rfl)
  cases hsep c d (hg.nameable_constant hc) hnamed (hcs.trans hds.symm)
  have hk := (hg.symbols.mem_functions_iff.mp (hg.relation c hd).1).2
  rw [(hg.symbols.mem_constants_iff.mp hc).2] at hk
  cases hk

end Session

end Horn

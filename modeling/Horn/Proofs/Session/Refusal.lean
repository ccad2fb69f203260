import Horn.Proofs.Session.Journal
import Horn.Proofs.Sorting.Misfit

/-!
How translation fails, in a session too. Main statement: a failure has words, with one exception, which
the sorts tell: an array stands where an integer is wanted, and all that is translated before it has a
sort.
-/

namespace Horn

lemma TermError.message?_eq_none_iff {x : TermError} : x.message? = none ↔ x = .arrayAsInt := by
  cases x <;> simp [message?]

lemma Failure.error_ne_term (f : Failure) (x : TermError) : f.error ≠ .term x := by
  cases f <;> exact nofun

lemma Expr.toTerm_worded_iff {Γ : Symbols} (hΓ : Γ.WellFormed) (e : Expr) :
    ((∃ t, e.toTerm Γ = .ok t) ∨ ∃ x, e.toTerm Γ = .error x ∧ x.message? ≠ none) ↔
      ¬ e.StopsAtArray Γ := by
  rw [← toTerm_eq_arrayAsInt_iff hΓ]
  simp only [ne_eq, TermError.message?_eq_none_iff]
  rcases e.toTerm Γ with x | t <;> simp

namespace Session

variable {E : Engine} {s : Session} {x : TermError}

/-! ### Steps that translate nothing -/

lemma DeclareEnd.result_ne_term {n : String} {sp : SortSpec} {o : Outcome Unit}
    (h : DeclareEnd n sp s o) : o.result ≠ .error (.term x) := by
  cases h <;> exact nofun

lemma RegisterEnd.result_ne_term {n : String} {o : Outcome Unit} (h : RegisterEnd n E s o) :
    o.result ≠ .error (.term x) := by
  cases h with
  | @refused d f hr hf hb hE => exact fun h => f.error_ne_term x (Except.error.inj h)
  | _ => exact nofun

lemma ErrorEnd.result_ne_term {o : Outcome Expr} (h : ErrorEnd E s o) :
    o.result ≠ .error (.term x) := by
  cases h with
  | known hr => exact nofun
  | undeclared hr hd ho =>
    rintro ⟨⟩
    exact hd.result_ne_term ho
  | unregistered hr hd ho hg ho' =>
    rintro ⟨⟩
    exact hg.result_ne_term ho'
  | made hr hd ho hg ho' => exact nofun

/-- Where the head of a rule cannot be found it is blamed itself. -/
lemma withHead_result_ne_term {e : Expr} (hx : ∀ h, x ≠ .notHead h) :
    (withHead e E s).result ≠ .error (.term x) := by
  have hhead : (head e.ruleHead E s).result ≠ .error (.term x) := by
    have hend := head_ends e.ruleHead E s
    generalize head e.ruleHead E s = o at hend
    cases hend with
    | error hf => exact (errorRelation_ends E s).result_ne_term
    | registered hf hr => exact nofun
    | notHead hf hr =>
      rintro ⟨⟩
      exact hx _ rfl
  rw [withHead_eq]
  rcases hr : (head e.ruleHead E s).result with y | h
  · rw [hr] at hhead
    exact hhead ∘ fun h => congrArg _ (Except.error.inj h)
  · exact nofun

lemma AnswerEnd.result_ne_term {goal : Term} {m : Value} {r : Except SessionError QueryResult}
    {reason : String} {ks : List EngineCall} (h : AnswerEnd E goal m r reason ks) :
    r ≠ .error (.term x) := by
  cases h with
  | reached hq hw => cases hw <;> exact nofun
  | _ => exact nofun

/-! ### Steps that translate -/

/-- **A query fails in its translation** just if its names are admitted and it is no formula. -/
lemma query_eq_term_iff {e : Expr} : (query e E s).result = .error (.term x) ↔
    s.Admits e ∧ e.toFormula s.symbols = .error x := by
  have hend := query_ends e E s
  generalize query e E s = o at hend ⊢
  rw [Admits, ← Expr.searchName_eq_none_iff]
  cases hend with
  | unknown hn => simp [hn]
  | noTerm hn ht => simp [hn, ht]
  | asked hn ht ha => simp [ha.result_ne_term, ht]

/-- **A rule fails in its translation** just if its names are admitted, its head is found, and with that
it is no formula. -/
lemma addRule_eq_term_iff {e : Expr} {l : String} (hx : ∀ h, x ≠ .notHead h) :
    (addRule e l E s).result = .error (.term x) ↔ s.Admits e ∧ ∃ e',
      (withHead e E s).result = .ok e' ∧ e'.toFormula (withHead e E s).session.symbols = .error x := by
  have hend := addRule_ends e l E s
  have hhead := withHead_result_ne_term (E := E) (s := s) (e := e) hx
  generalize addRule e l E s = o at hend ⊢
  rw [Admits, ← Expr.searchName_eq_none_iff]
  cases hend with
  | unknown hn => simp [hn]
  | @noHead y hn ho =>
    rw [ho] at hhead
    simpa [ho] using hhead
  | noTerm hn ho ht => simp [hn, ho, ht]
  | @refused e' t u f hn ho ht hu hE => simp [ho, ht, f.error_ne_term]
  | added hn ho ht hu hE => simp [ho, ht]

/-- **Translation ends in a term or in an error with words, with one exception.** Whatever has been
declared, translating an expression does so exactly if it does not stop at an array that stands for an
integer; it never does if no symbol gives an array. So the failure without words leaves a query exactly if
its names are admitted and the goal stops so, and it leaves the adding of a rule exactly if its names are
admitted and the rule stops so with the head that has been found for it. -/
theorem translation_stops_iff (e : Expr) :
    (∀ ds, let Γ := Symbols.empty.declareAll ds
      (((∃ t, e.toTerm Γ = .ok t) ∨ ∃ x, e.toTerm Γ = .error x ∧ x.message? ≠ none) ↔
        ¬ e.StopsAtArray Γ) ∧
      (e.toTerm Γ = .error .arrayAsInt ↔ e.StopsAtArray Γ) ∧
      (Γ.ArrayFree → ¬ e.StopsAtArray Γ)) ∧
    ∀ c cs E l, let s := run (new c) cs
      ((query e E s).result = .error (.term .arrayAsInt) ↔
        s.Admits e ∧ e.StopsAtArray s.symbols) ∧
      ((addRule e l E s).result = .error (.term .arrayAsInt) ↔ s.Admits e ∧ ∃ e',
        (withHead e E s).result = .ok e' ∧ e'.StopsAtArray (withHead e E s).session.symbols) := by
  refine ⟨fun ds => ?_, fun c cs E l => ?_⟩
  · have hΓ : (Symbols.empty.declareAll ds).WellFormed := Symbols.wellFormed_empty.declareAll ds
    exact ⟨e.toTerm_worded_iff hΓ, Expr.toTerm_eq_arrayAsInt_iff hΓ e,
      fun hno => Expr.not_stopsAtArray hΓ hno e⟩
  · have hg := good_run c cs
    have hg' := (withHead_preparing e E (run (new c) cs)).good hg
    refine ⟨?_, ?_⟩
    · rw [query_eq_term_iff, Expr.toFormula_eq_arrayAsInt_iff hg.symbols]
    · have hx : ∀ h, TermError.arrayAsInt ≠ .notHead h := fun _ => nofun
      rw [addRule_eq_term_iff hx]
      simp only [Expr.toFormula_eq_arrayAsInt_iff hg'.symbols]

/-- An array that is to be its own index: the failure has no words. -/
theorem index_stops :
    let a := Expr.symbol "a" (.array .int .int)
    (Expr.node "select" [a, a] .int).toTerm (Symbols.empty.declareAll [("a", .array .int .int)]) =
      .error .arrayAsInt ∧ TermError.arrayAsInt.message? = none :=
  ⟨by with_unfolding_all rfl, rfl⟩

end Session

end Horn

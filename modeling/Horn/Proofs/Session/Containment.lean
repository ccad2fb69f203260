import Horn.Proofs.Session.Frame
import Horn.Proofs.Witness.Facts

/-!
What becomes of a failing engine. Main statement: a query that is put to an engine which only answers or
complains brings a result, unless the engine answers that it does not know and then complains when it is
asked why, or a conjunct applies something whose name the marker of the settings cannot be compared with.
-/

namespace Horn

/-- The call, made about a goal, is answered, or the engine complains; nothing else breaks down. -/
def Engine.Contains (E : Engine) (goal : Term) : EngineCall → Prop
  | .register f => E.register f ≠ .error .foreign
  | .addRule t l => E.addRule t l ≠ .error .foreign
  | .query t => E.query t ≠ .error .foreign
  | .reason => E.reason goal ≠ .error .foreign
  | .trace => E.trace goal ≠ .error .foreign
  | .answer => E.answer goal ≠ .error .foreign

namespace Witness

/-- **The marker fails at a trace**: a conjunct of an entry applies something whose name the marker cannot
be compared with. -/
def Unread (m : Value) (ts : List (Option Term)) : Prop :=
  ∃ t, some t ∈ ts ∧ ∃ cs, t.Conjuncts cs ∧ ∃ c ∈ cs, ∃ n as, c.Applies n as ∧ ¬ m.Compares n

variable {m : Value}

lemma gather_eq_none_iff {α : Type} {f : α → Option (List String)} {as : List α} :
    gather f as = none ↔ ∃ a ∈ as, f a = none := by
  induction as with
  | nil => simp [gather]
  | cons a as ih =>
    rw [gather, List.exists_mem_cons_iff, ← ih]
    rcases f a with _ | vs
    · simp
    · rcases gather f as with _ | ws <;> simp

lemma ofConjunct?_eq_none_iff {c : Term} :
    ofConjunct? m c = none ↔ ∃ n as, c.Applies n as ∧ ¬ m.Compares n := by
  simp only [Term.applies_iff, ← Value.begins?_eq_none_iff]
  rw [ofConjunct?]
  rcases c.headName? with _ | n
  · simp
  · rcases hb : m.begins? n with _ | b <;> simp [hb]

lemma ofTrace?_eq_none_iff {ts : List (Option Term)} : ofTrace? m ts = none ↔ Unread m ts := by
  rw [ofTrace?, gather_eq_none_iff]
  constructor
  · rintro ⟨_ | t, ht, h⟩
    · cases h
    · obtain ⟨c, hc, h⟩ := gather_eq_none_iff.mp h
      exact ⟨t, ht, _, Term.conjuncts_iff.mpr rfl, c, hc, ofConjunct?_eq_none_iff.mp h⟩
  · rintro ⟨t, ht, cs, hcs, c, hc, h⟩
    obtain rfl := Term.conjuncts_iff.mp hcs
    exact ⟨some t, ht, gather_eq_none_iff.mpr ⟨c, hc, ofConjunct?_eq_none_iff.mpr h⟩⟩

lemma ofTerm?_eq_none_iff {u : Option Term} : ofTerm? m u = none ↔ Unread m [u] := by
  rw [ofTerm?_eq, ofTrace?_eq_none_iff]

/-- A text is compared with any name. -/
lemma not_unread_of_isText (hm : m.IsText) (ts : List (Option Term)) : ¬ Unread m ts := by
  rintro ⟨t, -, cs, -, c, -, n, as, -, h⟩
  exact h (.text hm)

end Witness

namespace Session

lemma checkRelations_eq_ok {e : Expr} {E : Engine} {s : Session} :
    (checkRelations e E s).result = .ok () ↔ Expr.searchName s.isUnregistered [e] = none := by
  rw [checkRelations_eq]
  rcases Expr.searchName s.isUnregistered [e] with _ | n <;> simp

/-- The search for a witness of a goal fails over the marker: at the trace, or at the answer, which is
looked at if the trace holds no values. -/
def MarkerFails (E : Engine) (goal : Term) (m : Value) : Prop :=
  ∃ ts, E.trace goal = .ok ts ∧ (Witness.Unread m ts ∨
    Witness.ofTrace? m ts = some [] ∧ ∃ t, E.answer goal = .ok t ∧ Witness.Unread m [t])

section

variable {E : Engine} {goal : Term} {m : Value}

lemma not_markerFails_of_isText (hm : m.IsText) : ¬ MarkerFails E goal m := by
  rintro ⟨ts, -, h | ⟨-, t, -, h⟩⟩
  · exact Witness.not_unread_of_isText hm ts h
  · exact Witness.not_unread_of_isText hm [t] h

/-- Where the trace can be searched, the marker fails only at the answer. -/
lemma markerFails_iff {ts : List (Option Term)} {vs : List String} (ht : E.trace goal = .ok ts)
    (hv : Witness.ofTrace? m ts = some vs) : MarkerFails E goal m ↔
      vs = [] ∧ ∃ t, E.answer goal = .ok t ∧ Witness.ofTerm? m t = none := by
  simp only [MarkerFails, ht, Except.ok.injEq, exists_eq_left', ← Witness.ofTrace?_eq_none_iff,
    Witness.ofTerm?_eq, hv, Option.some.injEq, reduceCtorEq, false_or]

/-- **The search for a witness fails over the marker or not at all**, if the engine only answers or
complains. -/
lemma WitnessEnd.error_iff {r : Except SessionError (List String)} {ks : List EngineCall}
    (h : WitnessEnd E goal m r ks) (hE : ∀ k ∈ ks, E.Contains goal k) {x : SessionError} :
    r = .error x ↔ x = .markerNotText ∧ MarkerFails E goal m := by
  cases h with
  | untraced ht => simp [MarkerFails, ht]
  | traceBroke ht => exact absurd ht (hE .trace (by simp))
  | traceUnread ht hv =>
    have hf : MarkerFails E goal m := ⟨_, ht, .inl (Witness.ofTrace?_eq_none_iff.mp hv)⟩
    simp [hf, eq_comm]
  | answerBroke ht hv ha => exact absurd ha (hE .answer (by simp))
  | traced ht hv hne ha => simp [markerFails_iff ht hv, hne]
  | unanswered ht hv ha => simp [markerFails_iff ht hv, ha]
  | answerUnread ht hv ha hu => simp [markerFails_iff ht hv, ha, hu, eq_comm]
  | answered ht hv ha hu => simp [markerFails_iff ht hv, ha, hu]

/-- **What leaves a query** whose goal was put to an engine that only answers or complains. -/
inductive Escapes (E : Engine) (goal : Term) (m : Value) : SessionError → Prop where
  /-- The engine does not know, and complains when it is asked why. -/
  | reason {c : Complaint} (hq : E.query goal = .ok .unknown)
    (hr : E.reason goal = .error (.engine c)) : Escapes E goal m (.unhandled (.engine c))
  | marker (hq : E.query goal = .ok .sat) (hm : MarkerFails E goal m) :
    Escapes E goal m .markerNotText

lemma escapes_iff_of_unknown (hq : E.query goal = .ok .unknown) {x : SessionError} :
    Escapes E goal m x ↔ ∃ c, x = .unhandled (.engine c) ∧ E.reason goal = .error (.engine c) := by
  constructor
  · rintro (⟨-, hr⟩ | ⟨hq', -⟩)
    · exact ⟨_, rfl, hr⟩
    · rw [hq] at hq'; cases hq'
  · rintro ⟨c, rfl, hr⟩
    exact .reason hq hr

lemma escapes_iff_of_sat (hq : E.query goal = .ok .sat) {x : SessionError} :
    Escapes E goal m x ↔ x = .markerNotText ∧ MarkerFails E goal m := by
  constructor
  · rintro (⟨hq', -⟩ | ⟨-, hm⟩)
    · rw [hq] at hq'; cases hq'
    · exact ⟨rfl, hm⟩
  · rintro ⟨rfl, hm⟩
    exact .marker hq hm

/-- Nothing leaves a query whose goal is neither reachable nor unknown. -/
lemma not_escapes (hu : E.query goal ≠ .ok .unknown) (hs : E.query goal ≠ .ok .sat)
    (x : SessionError) : ¬ Escapes E goal m x := by
  rintro (⟨hq, -⟩ | ⟨hq, -⟩)
  · exact hu hq
  · exact hs hq

/-- **A query fails just with what leaves it.** -/
lemma AnswerEnd.error_iff {r : Except SessionError QueryResult} {reason : String}
    {ks : List EngineCall} (h : AnswerEnd E goal m r reason ks)
    (hE : ∀ k ∈ .query goal :: ks, E.Contains goal k) {x : SessionError} :
    r = .error x ↔ Escapes E goal m x := by
  rw [List.forall_mem_cons] at hE
  obtain ⟨hq', hE⟩ := hE
  cases h with
  | broke hq => exact absurd hq hq'
  | exhausted hq hr => simp [not_escapes, hq]
  | failed hq hr => simp [not_escapes, hq]
  | @reached r ks hq hw =>
    rw [escapes_iff_of_sat hq, ← hw.error_iff hE]
    cases r <;> simp [Except.map]
  | unreached hq ha => simp [not_escapes, hq]
  | unreachedBroke hq ha => exact absurd ha (hE .answer (by simp))
  | unknown hq hr => simp [escapes_iff_of_unknown hq, hr]
  | @noReason f hq hr =>
    rw [escapes_iff_of_unknown hq]
    cases f with
    | engine c => simp [hr, eq_comm]
    | foreign => exact absurd hr (hE .reason (by simp))

end

/-- **A failing engine is contained**, with two exceptions. If all names of a goal are admitted and it
is a formula, and if the engine answers each call that the query makes or complains, then the query
brings a result, unless the engine does not know and complains when it is asked for the reason, or a
conjunct of the trace, or of an answer that is looked at, applies something whose name the marker of the
settings cannot be compared with; a text can be compared with any name. The session is idle again in any
case. -/
theorem query_returns_iff (c : Config) (cs : List (Engine × Command)) (E : Engine) (e : Expr) (t : Term)
    (hn : (checkRelations e E (run (new c) cs)).result = .ok ())
    (ht : e.toFormula (run (new c) cs).symbols = .ok t)
    (hE : ∀ k ∈ (query e E (run (new c) cs)).calls,
      E.Contains (t.close .any (run (new c) cs).symbols.free) k.2) :
    let goal := t.close .any (run (new c) cs).symbols.free
    let o := query e E (run (new c) cs)
    ((∃ r, o.result = .ok r) ↔ ∀ x, ¬ Escapes E goal c.marker x) ∧
    (∀ x, o.result = .error x ↔ Escapes E goal c.marker x) ∧ o.session.phase = .idle := by
  intro goal o
  have hend : QueryEnd e E (run (new c) cs) o := query_ends e E _
  have hidle : o.session.phase = .idle := (hend.moves.frame (run_idle c cs)).2
  have herror : ∀ x, o.result = .error x ↔ Escapes E goal c.marker x := by
    rw [checkRelations_eq_ok] at hn
    change ∀ k ∈ o.calls, _ at hE
    clear_value o
    cases hend with
    | unknown hn' => rw [hn] at hn'; cases hn'
    | noTerm _ ht' => rw [ht] at ht'; cases ht'
    | asked _ ht' ha =>
      cases ht.symm.trans ht'
      rw [run_config] at ha
      exact fun x => ha.error_iff (by simpa using hE)
  refine ⟨?_, herror, hidle⟩
  simp only [← herror]
  rcases o.result with x | r
  · exact ⟨nofun, fun h => absurd rfl (h x)⟩
  · exact ⟨fun _ => nofun, fun _ => ⟨r, rfl⟩⟩

def untraceable : Engine := { obliging with
  query := fun _ => .ok .sat
  reason := fun _ => .error (.engine (.text "no reason"))
  trace := fun _ => .error (.engine (.text "no trace"))
  answer := fun _ => .error (.engine (.bytes [0xff])) }

theorem query_returns_untraced :
    (checkRelations (.ofBool true) untraceable (new .default)).result = .ok () ∧
    (Expr.ofBool true).toFormula (new .default).symbols = .ok (.bool true) ∧
    (∀ k ∈ (query (.ofBool true) untraceable (new .default)).calls,
      untraceable.Contains (.bool true) k.2) ∧
    ∃ r, (query (.ofBool true) untraceable (new .default)).result = .ok r := by
  have hn : (checkRelations (.ofBool true) untraceable (new .default)).result = .ok () := by
    with_unfolding_all rfl
  have hE : ∀ k ∈ (query (.ofBool true) untraceable (new .default)).calls,
      untraceable.Contains (.bool true) k.2 := by
    rintro ⟨-, k⟩ -
    cases k <;> exact nofun
  refine ⟨hn, rfl, hE, ?_⟩
  refine (query_returns_iff .default [] untraceable (.ofBool true) (.bool true) hn rfl hE).1.mpr ?_
  intro x hx
  exact not_markerFails_of_isText (.inl ⟨_, rfl⟩) ((escapes_iff_of_sat rfl).mp hx).2

def reticent : Engine := { obliging with
  reason := fun _ => .error (.engine (.text "no reason")) }

/-- A complaint about the reason of an unknown answer leaves the query. -/
theorem reason_complaint_escapes :
    (checkRelations (.ofBool false) reticent (new .default)).result = .ok () ∧
    (Expr.ofBool false).toFormula (new .default).symbols = .ok (.bool false) ∧
    (∀ k ∈ (query (.ofBool false) reticent (new .default)).calls,
      reticent.Contains (.bool false) k.2) ∧
    (query (.ofBool false) reticent (new .default)).result =
      .error (.unhandled (.engine (.text "no reason"))) := by
  refine ⟨by with_unfolding_all rfl, rfl, ?_, by with_unfolding_all rfl⟩
  rintro ⟨-, k⟩ -
  cases k <;> exact nofun

end Session

end Horn

import Horn.Proofs.Session.Containment

/-!
The witness of a reachable goal. Main statement: where the engine says that a goal is reachable, the query
says so too, whatever becomes of the trace and the answer; its witness is all that the trace holds, or all
that the answer holds if the trace holds nothing, or empty.
-/

namespace Horn.Session

variable {E : Engine} {goal : Term} {m : Value}

/-- **The values are those of the whole trace or of the whole answer, or there are none.** -/
structure Whole (E : Engine) (goal : Term) (m : Value) (vs : List String) : Prop where
  /-- A trace with values goes before the answer. -/
  traced : ∀ ts ws, E.trace goal = .ok ts → Witness.ofTrace? m ts = some ws → ws ≠ [] → vs = ws
  /-- The answer stands in for a trace without values. -/
  answered : ∀ ts u, E.trace goal = .ok ts → Witness.ofTrace? m ts = some [] → E.answer goal = .ok u →
    Witness.ofTerm? m u = some vs
  /-- There are no other values than these. -/
  else_empty : vs ≠ [] → ∃ ts, E.trace goal = .ok ts ∧ (Witness.ofTrace? m ts = some vs ∨
    Witness.ofTrace? m ts = some [] ∧ ∃ u, E.answer goal = .ok u ∧ Witness.ofTerm? m u = some vs)

/-- Nothing but the values of the trace and those of the answer comes into question. -/
lemma Whole.unique {vs ws : List String} (hm : m.IsText) (h : Whole E goal m vs)
    (h' : Whole E goal m ws) : vs = ws := by
  rcases ht : E.trace goal with x | ts
  · have hnone : ∀ us, Whole E goal m us → us = [] := by
      intro us hus
      by_contra hne
      obtain ⟨ts, hts, -⟩ := hus.else_empty hne
      rw [ht] at hts
      cases hts
    rw [hnone vs h, hnone ws h']
  · rcases hv : Witness.ofTrace? m ts with _ | us
    · exact absurd (Witness.ofTrace?_eq_none_iff.mp hv) (Witness.not_unread_of_isText hm ts)
    by_cases hus : us = []
    · subst hus
      rcases ha : E.answer goal with x | u
      · have hnone : ∀ us, Whole E goal m us → us = [] := by
          intro us hus
          by_contra hne
          obtain ⟨ts', hts, heq | ⟨-, u, hu, -⟩⟩ := hus.else_empty hne
          · cases ht.symm.trans hts
            cases hv.symm.trans heq
            exact hne rfl
          · rw [ha] at hu
            cases hu
        rw [hnone vs h, hnone ws h']
      · have heq := (h.answered ts u ht hv ha).symm.trans (h'.answered ts u ht hv ha)
        exact Option.some.inj heq
    · rw [h.traced ts us ht hv hus, h'.traced ts us ht hv hus]

/-- **The search for a witness finds a whole one**, if the engine only answers or complains and the
marker is a text. -/
lemma WitnessEnd.whole (hm : m.IsText) {r : Except SessionError (List String)} {ks : List EngineCall}
    (h : WitnessEnd E goal m r ks) (ht : E.trace goal ≠ .error .foreign)
    (ha : E.answer goal ≠ .error .foreign) : ∃ vs, r = .ok vs ∧ Whole E goal m vs := by
  cases h with
  | @untraced c htr =>
    refine ⟨[], rfl, ?_, ?_, fun hne => absurd rfl hne⟩
    · intro ts ws hts
      rw [htr] at hts
      cases hts
    · intro ts u hts
      rw [htr] at hts
      cases hts
  | traceBroke htr => exact absurd htr ht
  | @traceUnread ts htr hv =>
    exact absurd (Witness.ofTrace?_eq_none_iff.mp hv) (Witness.not_unread_of_isText hm ts)
  | answerBroke htr hv han => exact absurd han ha
  | @traced ts vs htr hv hne han =>
    refine ⟨vs, rfl, ?_, ?_, fun _ => ⟨ts, htr, .inl hv⟩⟩
    · intro ts' ws hts' hws _
      cases htr.symm.trans hts'
      exact Option.some.inj (hv.symm.trans hws)
    · intro ts' u hts' hv'
      cases htr.symm.trans hts'
      exact absurd (Option.some.inj (hv.symm.trans hv')) hne
  | @unanswered ts c htr hv han =>
    refine ⟨[], rfl, ?_, ?_, fun hne => absurd rfl hne⟩
    · intro ts' ws hts' hws
      cases htr.symm.trans hts'
      exact fun _ => Option.some.inj (hv.symm.trans hws)
    · intro ts' u hts' _ hu
      rw [han] at hu
      cases hu
  | @answerUnread ts u htr hv han hu =>
    exact absurd (Witness.ofTerm?_eq_none_iff.mp hu) (Witness.not_unread_of_isText hm [u])
  | @answered ts u vs htr hv han hu =>
    refine ⟨vs, rfl, ?_, ?_, fun _ => ⟨ts, htr, .inr ⟨hv, u, han, hu⟩⟩⟩
    · intro ts' ws hts' hws hne
      cases htr.symm.trans hts'
      exact absurd (Option.some.inj (hws.symm.trans hv)) hne
    · intro ts' u' hts' _ hu'
      cases han.symm.trans hu'
      exact hu

/-- **A witness is whole or empty, and never changes the verdict**, for any text as a marker. If the
engine says that the goal of a query is reachable, and then gives a trace and an answer or complains, in
any combination, the query says that the goal is reachable. Its witness is all the values of the trace if there is a trace with
values, also if the engine then complains about the answer; all those of the answer if there are both
and the trace has no values; and otherwise empty. -/
theorem witness_whole_or_empty (c : Config) (cs : List (Engine × Command)) (E : Engine) (e : Expr)
    (t : Term) (hm : c.marker.IsText)
    (hn : (checkRelations e E (run (new c) cs)).result = .ok ())
    (ht : e.toFormula (run (new c) cs).symbols = .ok t)
    (hq : E.query (t.close .any (run (new c) cs).symbols.free) = .ok .sat)
    (htr : E.trace (t.close .any (run (new c) cs).symbols.free) ≠ .error .foreign)
    (ha : E.answer (t.close .any (run (new c) cs).symbols.free) ≠ .error .foreign) :
    ∃ vs, (query e E (run (new c) cs)).result = .ok ⟨.satisfiable, vs, ""⟩ ∧
      ∀ ws, ws = vs ↔ Whole E (t.close .any (run (new c) cs).symbols.free) c.marker ws := by
  have hend := query_ends e E (run (new c) cs)
  rw [checkRelations_eq_ok] at hn
  generalize query e E (run (new c) cs) = o at hend
  cases hend with
  | unknown hn' => rw [hn] at hn'; cases hn'
  | noTerm _ ht' => rw [ht] at ht'; cases ht'
  | asked _ ht' hans =>
    cases ht.symm.trans ht'
    rw [run_config] at hans
    cases hans with
    | reached _ hw =>
      obtain ⟨vs, rfl, hwhole⟩ := hw.whole hm htr ha
      refine ⟨vs, rfl, fun ws => ⟨?_, fun h => h.unique hm hwhole⟩⟩
      rintro rfl
      exact hwhole
    | broke hq' => rw [hq] at hq'; cases hq'
    | exhausted hq' _ => rw [hq] at hq'; cases hq'
    | failed hq' _ => rw [hq] at hq'; cases hq'
    | unreached hq' _ => rw [hq] at hq'; cases hq'
    | unreachedBroke hq' _ => rw [hq] at hq'; cases hq'
    | unknown hq' _ => rw [hq] at hq'; cases hq'
    | noReason hq' _ => rw [hq] at hq'; cases hq'

def traceOnly : Engine := { untraceable with
  trace := fun _ => .ok [some (.app ⟨"summary", [.int], .bool⟩ [.int 7])] }

/-- The values of the trace are kept although the engine complains about the answer. -/
theorem witness_whole_traced :
    (query (.ofBool true) traceOnly (new .default)).result = .ok ⟨.satisfiable, ["7"], ""⟩ ∧
    Whole traceOnly (.bool true) (.text "summary") ["7"] := by
  have hr : (query (.ofBool true) traceOnly (new .default)).result =
      .ok ⟨.satisfiable, ["7"], ""⟩ := by with_unfolding_all rfl
  obtain ⟨vs, hvs, hwhole⟩ := witness_whole_or_empty .default [] traceOnly (.ofBool true) (.bool true)
    (.inl ⟨_, rfl⟩) (by with_unfolding_all rfl) rfl rfl nofun nofun
  have hsame : ["7"] = vs := by
    have heq := hr.symm.trans hvs
    cases heq
    rfl
  exact ⟨hr, (hwhole _).mp hsame⟩

end Horn.Session

import Horn.Proofs.Session.Outcome

/-!
What comes of a query. Main statement: every way in which a query can end, by what the engine says of
its goal and of what it is asked about the goal, with the reason that the session is left with and the
calls that were made.
-/

namespace Horn

def EngineCall.isFollowUp : EngineCall → Bool
  | .reason | .trace | .answer => true
  | _ => false

lemma Action.bind_pure {α β : Type} (x : Action α) (f : α → β) (E : Engine) (s : Session) :
    (x >>= fun a => (Pure.pure (f a) : Action β)) E s =
      ⟨(x E s).result.map f, (x E s).session, (x E s).calls, (x E s).log⟩ := by
  rcases ho : x E s with ⟨e | a, s', ks, lg⟩
  · rw [bind_error ho]
    rfl
  · rw [bind_ok ho, pure_apply, List.append_nil, List.append_nil]
    rfl

lemma Action.ask_bind {α β : Type} (call : EngineCall) (reply : Engine → Reply α)
    (f : Reply α → Action β) (E : Engine) (s : Session) :
    (ask call reply >>= f) E s = { f (reply E) E s with
      calls := (s.phase, call) :: (f (reply E) E s).calls } := rfl

namespace Session

/-! ### The witness of a reachable goal -/

lemma decode_eq (values? : Value → Option (List String)) (E : Engine) (s : Session) :
    decode values? E s = ⟨match values? s.config.marker with
      | some vs => .ok vs
      | none => .error .markerNotText, s, [], []⟩ := by
  unfold decode
  rw [Action.session_bind]
  rcases values? s.config.marker with _ | vs <;> rfl

inductive WitnessEnd (E : Engine) (goal : Term) (m : Value) :
    Except SessionError (List String) → List EngineCall → Prop where
  | untraced {c : Complaint} (ht : E.trace goal = .error (.engine c)) :
    WitnessEnd E goal m (.ok []) [.trace]
  | traceBroke (ht : E.trace goal = .error .foreign) :
    WitnessEnd E goal m (.error (.unhandled .foreign)) [.trace]
  | traceUnread {ts : List (Option Term)} (ht : E.trace goal = .ok ts)
    (hv : Witness.ofTrace? m ts = none) : WitnessEnd E goal m (.error .markerNotText) [.trace]
  | answerBroke {ts : List (Option Term)} {vs : List String} (ht : E.trace goal = .ok ts)
    (hv : Witness.ofTrace? m ts = some vs) (ha : E.answer goal = .error .foreign) :
    WitnessEnd E goal m (.error (.unhandled .foreign)) [.trace, .answer]
  | traced {ts : List (Option Term)} {vs : List String} (ht : E.trace goal = .ok ts)
    (hv : Witness.ofTrace? m ts = some vs) (hne : vs ≠ []) (ha : E.answer goal ≠ .error .foreign) :
    WitnessEnd E goal m (.ok vs) [.trace, .answer]
  | unanswered {ts : List (Option Term)} {c : Complaint} (ht : E.trace goal = .ok ts)
    (hv : Witness.ofTrace? m ts = some []) (ha : E.answer goal = .error (.engine c)) :
    WitnessEnd E goal m (.ok []) [.trace, .answer]
  | answerUnread {ts : List (Option Term)} {t : Option Term} (ht : E.trace goal = .ok ts)
    (hv : Witness.ofTrace? m ts = some []) (ha : E.answer goal = .ok t)
    (hu : Witness.ofTerm? m t = none) :
    WitnessEnd E goal m (.error .markerNotText) [.trace, .answer]
  | answered {ts : List (Option Term)} {t : Option Term} {vs : List String}
    (ht : E.trace goal = .ok ts) (hv : Witness.ofTrace? m ts = some [])
    (ha : E.answer goal = .ok t) (hu : Witness.ofTerm? m t = some vs) :
    WitnessEnd E goal m (.ok vs) [.trace, .answer]

/-- An answer is logged, and only a failure that is none of the engine's ends the query. -/
lemma logAnswer_ends (verdict : String) (goal : Term) (E : Engine) (s : Session) :
    ∃ r lg, logAnswer verdict goal E s = ⟨r, s, [(s.phase, .answer)], lg⟩ ∧
      (r = .ok () ∧ E.answer goal ≠ .error .foreign ∨
        r = .error (.unhandled .foreign) ∧ E.answer goal = .error .foreign) := by
  unfold logAnswer
  rw [Action.ask_bind]
  rcases ha : E.answer goal with (c | _) | t
  · exact ⟨.ok (), _, rfl, .inl ⟨rfl, nofun⟩⟩
  · exact ⟨.error _, _, rfl, .inr ⟨rfl, rfl⟩⟩
  · exact ⟨.ok (), _, rfl, .inl ⟨rfl, nofun⟩⟩

lemma witness_ends (goal : Term) (E : Engine) (s : Session) :
    ∃ r ks lg, witness goal E s = ⟨r, s, ks.map (Prod.mk s.phase), lg⟩ ∧
      WitnessEnd E goal s.config.marker r ks := by
  unfold witness
  rw [Action.ask_bind]
  rcases ht : E.trace goal with (c | _) | ts
  · exact ⟨_, _, _, rfl, .untraced ht⟩
  · exact ⟨_, _, _, rfl, .traceBroke ht⟩
  · dsimp only
    rw [Action.log_bind]
    have hdecode := decode_eq (fun m => Witness.ofTrace? m ts) E s
    rcases hv : Witness.ofTrace? s.config.marker ts with _ | vs
    · rw [hv] at hdecode
      rw [Action.bind_error hdecode]
      exact ⟨_, _, _, rfl, .traceUnread ht hv⟩
    · rw [hv] at hdecode
      rw [Action.bind_ok hdecode]
      dsimp only
      by_cases hne : vs = []
      · subst hne
        rw [List.isEmpty_nil, if_pos rfl, Action.ask_bind]
        rcases ha : E.answer goal with (c | _) | t
        · exact ⟨_, _, _, rfl, .unanswered ht hv ha⟩
        · exact ⟨_, _, _, rfl, .answerBroke ht hv ha⟩
        · dsimp only
          rw [Action.log_bind, decode_eq]
          rcases hu : Witness.ofTerm? s.config.marker t with _ | ws
          · exact ⟨_, _, _, rfl, .answerUnread ht hv ha hu⟩
          · exact ⟨_, _, _, rfl, .answered ht hv ha hu⟩
      · rw [if_neg (mt List.isEmpty_iff.mp hne), Action.bind_pure]
        obtain ⟨r, lg, hl, ⟨rfl, ha⟩ | ⟨rfl, ha⟩⟩ := logAnswer_ends "SAT" goal E s
        · rw [hl]
          exact ⟨_, _, _, rfl, .traced ht hv hne ha⟩
        · rw [hl]
          exact ⟨_, _, _, rfl, .answerBroke ht hv ha⟩

/-! ### The result of a query -/

/-- The reason of an unknown answer, which is never empty. -/
def givenReason (r : String) : String := if r.isEmpty then "unknown" else r

/-- How a query ends whose goal was put to the engine: its result, the reason that it leaves, and the
calls that follow. -/
inductive AnswerEnd (E : Engine) (goal : Term) (m : Value) :
    Except SessionError QueryResult → String → List EngineCall → Prop where
  | broke (hq : E.query goal = .error .foreign) :
    AnswerEnd E goal m (.error (.unhandled .foreign)) "" []
  | exhausted {c : Complaint} (hq : E.query goal = .error (.engine c))
    (hr : isResourceMessage c.message = true) :
    AnswerEnd E goal m (.ok ⟨.unknown, [], c.message⟩) c.message []
  | failed {c : Complaint} (hq : E.query goal = .error (.engine c))
    (hr : isResourceMessage c.message = false) :
    AnswerEnd E goal m (.ok ⟨.error, [], c.message⟩) "" []
  | reached {r : Except SessionError (List String)} {ks : List EngineCall}
    (hq : E.query goal = .ok .sat) (hw : WitnessEnd E goal m r ks) :
    AnswerEnd E goal m (r.map fun vs => ⟨.satisfiable, vs, ""⟩) "" ks
  | unreached (hq : E.query goal = .ok .unsat) (ha : E.answer goal ≠ .error .foreign) :
    AnswerEnd E goal m (.ok ⟨.unsatisfiable, [], ""⟩) "" [.answer]
  | unreachedBroke (hq : E.query goal = .ok .unsat) (ha : E.answer goal = .error .foreign) :
    AnswerEnd E goal m (.error (.unhandled .foreign)) "" [.answer]
  | unknown {r : String} (hq : E.query goal = .ok .unknown) (hr : E.reason goal = .ok r) :
    AnswerEnd E goal m (.ok ⟨.unknown, [], givenReason r⟩) (givenReason r) [.reason]
  | noReason {f : Failure} (hq : E.query goal = .ok .unknown) (hr : E.reason goal = .error f) :
    AnswerEnd E goal m (.error (.unhandled f)) "" [.reason]

lemma giveUp_apply (reason : String) (E : Engine) (s : Session) :
    giveUp reason E s = ⟨.ok ⟨.unknown, [], reason⟩, { s with reason := reason }, [],
      [.unknown reason]⟩ := rfl

lemma askReason_error {goal : Term} {E : Engine} {f : Failure} (h : E.reason goal = .error f)
    (s : Session) :
    askReason goal E s = ⟨.error (.unhandled f), s, [(s.phase, .reason)], []⟩ := by
  unfold askReason
  rw [Action.ask_bind, h]
  rfl

lemma askReason_ok {goal : Term} {E : Engine} {r : String} (h : E.reason goal = .ok r)
    (s : Session) : askReason goal E s = ⟨.ok (givenReason r), s, [(s.phase, .reason)], []⟩ := by
  unfold askReason givenReason
  rw [Action.ask_bind, h]
  dsimp only
  split <;> rfl

lemma classify_ends (goal : Term) (E : Engine) (s : Session) (hs : s.reason = "") :
    ∃ r reason ks lg, classify goal E s = ⟨r, { s with reason := reason },
        (s.phase, .query goal) :: ks.map (Prod.mk s.phase), lg⟩ ∧
      AnswerEnd E goal s.config.marker r reason ks := by
  have hsame : s = { s with reason := "" } := by rw [← hs]
  unfold classify
  rw [Action.ask_bind]
  rcases hq : E.query goal with (c | _) | (_ | _ | _)
  · dsimp only
    unfold ofComplaint
    rcases hr : isResourceMessage c.message with _ | _
    · rw [if_neg Bool.false_ne_true, Action.log_bind, Action.pure_apply]
      exact ⟨_, "", [], _, by rw [← hsame]; rfl, .failed hq hr⟩
    · rw [if_pos rfl, giveUp_apply]
      exact ⟨_, c.message, [], _, rfl, .exhausted hq hr⟩
  · exact ⟨_, "", [], [], by rw [← hsame]; rfl, .broke hq⟩
  · dsimp only
    obtain ⟨r, ks, lg, hw, hend⟩ := witness_ends goal E s
    rw [Action.bind_pure, hw]
    exact ⟨_, "", ks, lg, by rw [← hsame], .reached hq hend⟩
  · dsimp only
    obtain ⟨r, lg, hl, ⟨rfl, ha⟩ | ⟨rfl, ha⟩⟩ := logAnswer_ends "UNSAT" goal E s
    · rw [Action.bind_pure, hl]
      exact ⟨_, "", [.answer], lg, by rw [← hsame]; rfl, .unreached hq ha⟩
    · rw [Action.bind_pure, hl]
      exact ⟨_, "", [.answer], lg, by rw [← hsame]; rfl, .unreachedBroke hq ha⟩
  · dsimp only
    rcases hr : E.reason goal with f | r
    · rw [Action.bind_error (askReason_error hr s)]
      exact ⟨_, "", [.reason], _, by rw [← hsame]; rfl, .noReason hq hr⟩
    · rw [Action.bind_ok (askReason_ok hr s), giveUp_apply]
      exact ⟨_, _, [.reason], _, rfl, .unknown hq hr⟩

section

variable {E : Engine} {goal : Term} {m : Value} {r : Except SessionError QueryResult}
  {reason : String} {ks : List EngineCall}

lemma AnswerEnd.followUps (h : AnswerEnd E goal m r reason ks) :
    ∀ k ∈ ks, k.isFollowUp = true := by
  cases h with
  | reached hq hw => cases hw <;> simp [EngineCall.isFollowUp]
  | _ => simp [EngineCall.isFollowUp]

/-- A query that was put to the engine meets no unknown relation. -/
lemma AnswerEnd.result_ne (h : AnswerEnd E goal m r reason ks) (n : String) :
    r ≠ .error (.unknownRelation n) := by
  cases h with
  | reached hq hw => cases hw <;> simp [Except.map]
  | _ => simp

end

inductive QueryEnd (e : Expr) (E : Engine) (s : Session) : Outcome QueryResult → Prop where
  | unknown {n : String} (hn : Expr.searchName s.isUnregistered [e] = some n) :
    QueryEnd e E s ⟨.error (.unknownRelation n), s, [], []⟩
  | noTerm {x : TermError} (hn : Expr.searchName s.isUnregistered [e] = none)
    (ht : e.toFormula s.symbols = .error x) : QueryEnd e E s ⟨.error (.term x), s, [], []⟩
  | asked {t : Term} {r : Except SessionError QueryResult} {reason : String} {ks : List EngineCall}
    {lg : List Event} (hn : Expr.searchName s.isUnregistered [e] = none)
    (ht : e.toFormula s.symbols = .ok t)
    (ha : AnswerEnd E (t.close .any s.symbols.free) s.config.marker r reason ks) :
    QueryEnd e E s ⟨r, { s with phase := .idle, reason := reason },
      (.querying, .query (t.close .any s.symbols.free)) :: ks.map (Prod.mk .querying), lg⟩

/-- **Every way in which a query can end.** -/
theorem query_ends (e : Expr) (E : Engine) (s : Session) : QueryEnd e E s (query e E s) := by
  unfold query
  rw [checkRelations_bind]
  rcases hn : Expr.searchName s.isUnregistered [e] with _ | n
  · change QueryEnd e E s ((Action.session >>= _) E s)
    rw [Action.session_bind]
    rcases ht : e.toFormula s.symbols with x | t
    · rw [Action.ofExcept_error_bind]
      exact .noTerm hn ht
    · rw [Action.ofExcept_ok_bind]
      obtain ⟨r, reason, ks, lg, ho, ha⟩ := classify_ends (t.close .any s.symbols.free) E
        { s with phase := .querying, reason := "" } rfl
      have hq : Action.querying (classify (t.close .any s.symbols.free)) E s =
          ⟨r, { s with phase := .idle, reason := reason },
            (.querying, .query (t.close .any s.symbols.free)) :: ks.map (Prod.mk .querying), lg⟩ := by
        unfold Action.querying
        rw [ho]
      rcases r with x | r
      · rw [Action.bind_error hq]
        exact .asked hn ht ha
      · rw [Action.bind_ok hq, Action.log_bind, Action.pure_apply, List.append_nil]
        exact .asked hn ht ha
  · exact .unknown hn

end Session

end Horn

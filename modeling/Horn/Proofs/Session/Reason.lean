import Horn.Proofs.Budget
import Horn.Proofs.Session.Frame

/-!
The result of a query and the reason that a session keeps. Main statement: a result says what the engine
said, and the reason is the message of the last query that was put to an engine, if that ended unknown,
and empty otherwise.
-/

namespace Horn

def EngineCall.isQuery : EngineCall → Bool
  | .query _ => true
  | _ => false

def Outcome.asks {α : Type} (o : Outcome α) : Bool := o.calls.any fun k => k.2.isQuery

namespace Session

/-- **What a result says of the engine's answer.** -/
structure Classifies (E : Engine) (goal : Term) (r : QueryResult) : Prop where
  satisfiable : r.result = .satisfiable ↔ E.query goal = .ok .sat
  unsatisfiable : r.result = .unsatisfiable ↔ E.query goal = .ok .unsat
  unknown : r.result = .unknown ↔ E.query goal = .ok .unknown ∨
    ∃ c, E.query goal = .error (.engine c) ∧ SpeaksOfBudget c.message
  error : r.result = .error ↔ ∃ c, E.query goal = .error (.engine c) ∧ ¬ SpeaksOfBudget c.message
  witness : r.witness ≠ [] → r.result = .satisfiable
  definitive : r.result = .satisfiable ∨ r.result = .unsatisfiable → r.message = ""
  message : r.result = .unknown → r.message ≠ ""

/-- The reason that a query leaves: its message if it ended unknown. -/
def reasonOf : Except SessionError QueryResult → String
  | .ok r => if r.result = .unknown then r.message else ""
  | .error _ => ""

lemma givenReason_ne (r : String) : givenReason r ≠ "" := by
  unfold givenReason
  split
  · decide
  · rename_i h
    rintro rfl
    exact h rfl

section

variable {E : Engine} {goal : Term} {m : Value} {reason : String} {ks : List EngineCall}

lemma AnswerEnd.classifies {r : QueryResult} (h : AnswerEnd E goal m (.ok r) reason ks) :
    Classifies E goal r := by
  generalize hr : Except.ok r = r' at h
  cases h with
  | broke hq => cases hr
  | exhausted hq hb =>
    cases hr
    have hb' := isResourceMessage_iff.mp hb
    constructor <;> simp [hq, hb', hb'.ne_empty]
  | failed hq hb =>
    cases hr
    have hb' := mt isResourceMessage_iff.mpr (by rw [hb]; exact Bool.false_ne_true)
    constructor <;> simp [hq, hb']
  | @reached r' ks hq hw =>
    rcases r' with x | vs
    · cases hr
    · cases hr
      constructor <;> simp [hq]
  | unreached hq ha => cases hr; constructor <;> simp [hq]
  | unreachedBroke hq ha => cases hr
  | unknown hq hb => cases hr; constructor <;> simp [hq, givenReason_ne]
  | noReason hq hb => cases hr

lemma AnswerEnd.reason_eq {r : Except SessionError QueryResult} (h : AnswerEnd E goal m r reason ks) :
    reason = reasonOf r := by
  cases h with
  | @reached r ks hq hw => cases r <;> rfl
  | _ => rfl

end

/-! ### Runs -/

/-- What the query came to that a command puts to the engine, if it does. -/
def asked? (E : Engine) (s : Session) : Command → Option (Except SessionError QueryResult)
  | .query e => if (query e E s).asks then some (query e E s).result else none
  | _ => none

/-- What the last query came to that a run put to an engine; `last` is that of what was done before. -/
def lastAsked (s : Session) (last : Option (Except SessionError QueryResult)) :
    List (Engine × Command) → Option (Except SessionError QueryResult)
  | [] => last
  | (E, x) :: cs => lastAsked (perform x E s).session ((asked? E s x).or last) cs

/-- A query leaves the session as it was, or puts its goal to the engine and leaves the reason that
belongs to its result. -/
lemma QueryEnd.reason {e : Expr} {E : Engine} {s : Session} {o : Outcome QueryResult}
    (h : QueryEnd e E s o) :
    (o.asks = false ∧ o.session = s) ∨ (o.asks = true ∧ o.session.reason = reasonOf o.result) := by
  cases h with
  | unknown hn => exact .inl ⟨rfl, rfl⟩
  | noTerm hn ht => exact .inl ⟨rfl, rfl⟩
  | asked hn ht ha => exact .inr ⟨rfl, ha.reason_eq⟩

/-- **The reason of a session after one more command.** -/
lemma perform_reason (x : Command) (E : Engine) (s : Session) :
    (perform x E s).session.reason = ((asked? E s x).map reasonOf).getD s.reason := by
  cases x with
  | query e =>
    rw [perform_query]
    simp only [asked?]
    rcases (query_ends e E s).reason with ⟨ha, hs⟩ | ⟨ha, hs⟩
    · rw [ha, hs, if_neg Bool.false_ne_true]
      rfl
    · rw [ha, hs, if_pos rfl]
      rfl
  | _ =>
    refine ((perform_ends _ E s).reason ?_).trans rfl
    exact nofun

/-- **The reason of a session is that of the last query** that was put to an engine. -/
theorem run_reason (cs : List (Engine × Command)) {s : Session}
    {last : Option (Except SessionError QueryResult)} (hs : s.reason = (last.map reasonOf).getD "") :
    (run s cs).reason = ((lastAsked s last cs).map reasonOf).getD "" := by
  induction cs generalizing s last with
  | nil => exact hs
  | cons x cs ih =>
    obtain ⟨E, x⟩ := x
    refine ih ?_
    change (perform x E s).session.reason = _
    rw [perform_reason, hs]
    cases asked? E s x <;> rfl

/-- **The state machine of queries**, over any run and whatever the engines answer. A session is idle
before and after every command. Its reason is the message of the last query that was put to an engine, if
that query ended unknown, and empty otherwise; a query that is not put to the engine leaves the session
as it was. A result says what the engine said of the closure of the goal. -/
theorem query_state_machine (c : Config) (cs : List (Engine × Command)) :
    let s := run (new c) cs
    s.phase = .idle ∧ (∀ x E, (perform x E s).session.phase = .idle) ∧
    s.reason = ((lastAsked (new c) none cs).map reasonOf).getD "" ∧
    ∀ e E, ((query e E s).asks = false → (query e E s).session = s) ∧
      ∀ r, (query e E s).result = .ok r → ∃ t, e.toFormula s.symbols = .ok t ∧
        (.querying, .query (t.close .any s.symbols.free)) ∈ (query e E s).calls ∧
        Classifies E (t.close .any s.symbols.free) r := by
  intro s
  have hidle : s.phase = .idle := run_idle c cs
  refine ⟨hidle, fun x E => ((perform_moves x E s).frame hidle).2, run_reason cs rfl, ?_⟩
  intro e E
  have hend := query_ends e E s
  generalize query e E s = o at hend
  refine ⟨fun h => ?_, fun r hr => ?_⟩
  · rcases hend.reason with ⟨-, hs⟩ | ⟨ha, -⟩
    · exact hs
    · rw [h] at ha
      cases ha
  · cases hend with
    | unknown hn => cases hr
    | noTerm hn ht => cases hr
    | asked hn ht ha =>
      cases hr
      exact ⟨_, ht, .head _, ha.classifies⟩

def outOfTime : Engine := { obliging with query := fun _ => .error (.engine (.text "Timeout")) }

/-- A query that is not put to the engine leaves the reason of the one before it. -/
theorem query_state_machine_timeout :
    let s := run (new .default)
      [(outOfTime, .query (.ofBool true)), (outOfTime, .query (.symbol "w" .bool))]
    let r : QueryResult := ⟨.unknown, [], "Timeout"⟩
    s.phase = .idle ∧ s.reason = "Timeout" ∧ (query (.ofBool true) outOfTime s).result = .ok r ∧
      ∃ t, Classifies outOfTime t r := by
  intro s r
  obtain ⟨hidle, -, hreason, hquery⟩ := query_state_machine .default
    [(outOfTime, .query (.ofBool true)), (outOfTime, .query (.symbol "w" .bool))]
  have hr : (query (.ofBool true) outOfTime s).result = .ok r := by with_unfolding_all rfl
  obtain ⟨t, -, -, hc⟩ := (hquery (.ofBool true) outOfTime).2 r hr
  exact ⟨hidle, hreason.trans (by with_unfolding_all rfl), hr, _, hc⟩

end Session

end Horn

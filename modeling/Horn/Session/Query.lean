import Horn.Session.Rule

/-!
Queries. A goal is closed over all declared constants and put to the engine. The engine's complaints
never leave a query, bar one about the reason of an unknown answer: those that speak of a spent budget
make the result unknown, all others an error.
-/

namespace Horn.Session

/-- The values that are found with the marker of the settings, if that is a text where it matters. -/
def decode (values? : Value → Option (List String)) : Action (List String) := do
  match values? (← Action.session).config.marker with
  | some values => return values
  | none => Action.fail .markerNotText

def logAnswer (verdict : String) (goal : Term) : Action Unit := do
  match ← Action.ask .answer fun E => E.answer goal with
  | .ok t => Action.log (.answer verdict t)
  | .error (.engine c) => Action.log (.noAnswer verdict c.message)
  | .error .foreign => Action.fail (.unhandled .foreign)

def noWitness (c : Complaint) : Action (List String) := do
  Action.log (.noWitness c.message)
  return []

/-- The values that witness a reachable goal: those of the trace, or if it has none those of the
answer. -/
def witness (goal : Term) : Action (List String) := do
  match ← Action.ask .trace fun E => E.trace goal with
  | .error .foreign => Action.fail (.unhandled .foreign)
  | .error (.engine c) => noWitness c
  | .ok ts => do
    Action.log (.trace ts)
    let values ← decode fun m => Witness.ofTrace? m ts
    if values.isEmpty then
      match ← Action.ask .answer fun E => E.answer goal with
      | .error .foreign => Action.fail (.unhandled .foreign)
      | .error (.engine c) => noWitness c
      | .ok t => do
        Action.log (.answer "SAT" t)
        decode fun m => Witness.ofTerm? m t
    else do
      logAnswer "SAT" goal
      return values

def giveUp (reason : String) : Action QueryResult := do
  Action.change fun s => { s with reason := reason }
  Action.log (.unknown reason)
  return ⟨.unknown, [], reason⟩

def ofComplaint (c : Complaint) : Action QueryResult :=
  if isResourceMessage c.message then giveUp c.message
  else do
    Action.log (.engineFailed c.message)
    return ⟨.error, [], c.message⟩

/-- The reason for an unknown answer; a failure to give one ends the query. -/
def askReason (goal : Term) : Action String := do
  match ← Action.ask .reason fun E => E.reason goal with
  | .ok r => return if r.isEmpty then "unknown" else r
  | .error f => Action.fail (.unhandled f)

/-- Puts a closed goal to the engine and classifies what it says. -/
def classify (goal : Term) : Action QueryResult := do
  match ← Action.ask (.query goal) fun E => E.query goal with
  | .error .foreign => Action.fail (.unhandled .foreign)
  | .error (.engine c) => ofComplaint c
  | .ok .sat => return ⟨.satisfiable, ← witness goal, ""⟩
  | .ok .unsat => do
    logAnswer "UNSAT" goal
    return ⟨.unsatisfiable, [], ""⟩
  | .ok .unknown => do giveUp (← askReason goal)

def query (e : Expr) : Action QueryResult := do
  checkRelations e
  let s ← Action.session
  let t ← Action.ofExcept .term (e.toFormula s.symbols)
  let goal := t.close .any s.symbols.free
  let r ← Action.querying (classify goal)
  Action.log (.queried goal r.result)
  return r

end Horn.Session

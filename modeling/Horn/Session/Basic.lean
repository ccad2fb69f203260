import Horn.Config.Basic
import Horn.Engine.Basic
import Horn.Expr.Term
import Horn.Witness

/-!
The state of a session, what its steps leave behind, and the monad they are written in. A step sees
an engine and a state; it gives a result or an error, the next state, the calls it made of the engine,
and what it logged.
-/

namespace Horn

inductive Phase where
  | idle
  | querying
  deriving DecidableEq, Repr

/-- The state of a session. -/
structure Session where
  config : Config
  symbols : Symbols
  /-- The registered relations, in the order of their registration. -/
  relations : List Declaration
  /-- The labels and clauses of the rules, in the order they were added. -/
  rules : List (String × Term)
  phase : Phase
  /-- Why the last query has no answer; empty if it has one. -/
  reason : String

namespace Session

def new (c : Config) : Session := ⟨c, .empty, [], [], .idle, ""⟩

def isRegistered (s : Session) (name : String) : Bool := s.relations.any fun d => d.name == name

end Session

inductive CheckResult where
  | satisfiable
  | unsatisfiable
  | unknown
  | error
  deriving DecidableEq, Repr

namespace CheckResult

def name : CheckResult → String
  | .satisfiable => "SATISFIABLE"
  | .unsatisfiable => "UNSATISFIABLE"
  | .unknown => "UNKNOWN"
  | .error => "ERROR"

def ofName? : String → Option CheckResult
  | "SATISFIABLE" => some .satisfiable
  | "UNSATISFIABLE" => some .unsatisfiable
  | "UNKNOWN" => some .unknown
  | "ERROR" => some .error
  | _ => none

/-- The goal is known to be reachable or known not to be. -/
def isDefinitive : CheckResult → Bool
  | .satisfiable | .unsatisfiable => true
  | .unknown | .error => false

end CheckResult

/-- What a query brings: a result, the witnessing values of a reachable goal, and the reason or error
text otherwise. -/
structure QueryResult where
  result : CheckResult
  witness : List String
  message : String
  deriving DecidableEq, Repr

inductive SessionError where
  | declare (e : DeclareError)
  | sort (e : SortError)
  /-- No function is declared, or no relation registered, under the name. -/
  | unknownRelation (name : String)
  | term (e : TermError)
  /-- The engine complained. -/
  | engine (message : String) (exhausted : Bool)
  /-- A failure that nothing here answers for. -/
  | unhandled (f : Failure)
  /-- A name was to be compared with a marker that is no text. -/
  | markerNotText

def SessionError.message? : SessionError → Option String
  | .declare e => e.message?
  | .sort e => e.message?
  | .unknownRelation n => some ("no function symbol declared for relation '" ++ n ++ "'")
  | .term e => e.message?
  | .engine m _ => some m
  | .unhandled _ | .markerNotText => none

inductive Event where
  | globalParam (key : String) (v : Value)
  | engineParam (key : String) (v : Value)
  | declared (name : String) (sort : SortSpec)
  | alreadyRegistered (name : String)
  | registered (f : Symbol)
  | ruleAdded (label : String) (rule : Term)
  | queried (goal : Term) (result : CheckResult)
  | unknown (reason : String)
  | engineFailed (message : String)
  | trace (ts : List (Option Term))
  | answer (verdict : String) (t : Option Term)
  | noAnswer (verdict message : String)
  | noWitness (message : String)

namespace Event

def level : Event → String
  | .queried _ _ => "INFO"
  | .unknown _ | .noWitness _ => "WARNING"
  | .engineFailed _ => "ERROR"
  | _ => "DEBUG"

def text : Event → String
  | .globalParam k v => "Global z3 param " ++ k ++ "=" ++ v.display
  | .engineParam k v => "Fixedpoint param " ++ k ++ "=" ++ v.display
  | .declared n s => "Declared " ++ n ++ " : " ++ s.text
  | .alreadyRegistered n => "Relation " ++ n ++ " already registered"
  | .registered f => "Registered relation " ++ f.text
  | .ruleAdded l _ => "Rule " ++ l ++ ":"
  | .queried _ r => "Query: " ++ r.name
  | .unknown m => "CHC query unknown: " ++ m
  | .engineFailed m => "CHC engine error: " ++ m
  | .trace _ => "Rules along trace:"
  | .answer v _ => v
  | .noAnswer v m => v ++ " (no answer: " ++ m ++ ")"
  | .noWitness m => "Could not extract counterexample: " ++ m

end Event

/-- What a step leaves behind. -/
structure Outcome (α : Type) where
  result : Except SessionError α
  session : Session
  /-- The calls made of the engine, with the phase each was made in. -/
  calls : List (Phase × EngineCall)
  log : List Event

/-- A step, or a part of one. -/
def Action (α : Type) := Engine → Session → Outcome α

namespace Action

def pure (a : α) : Action α := fun _ s => ⟨.ok a, s, [], []⟩

def bind (x : Action α) (f : α → Action β) : Action β := fun E s =>
  let o := x E s
  match o.result with
  | .error e => ⟨.error e, o.session, o.calls, o.log⟩
  | .ok a =>
    let p := f a E o.session
    ⟨p.result, p.session, o.calls ++ p.calls, o.log ++ p.log⟩

instance : Monad Action where
  pure := pure
  bind := bind

def fail (e : SessionError) : Action α := fun _ s => ⟨.error e, s, [], []⟩

def session : Action Session := fun _ s => ⟨.ok s, s, [], []⟩

def change (f : Session → Session) : Action Unit := fun _ s => ⟨.ok (), f s, [], []⟩

def log (e : Event) : Action Unit := fun _ s => ⟨.ok (), s, [], [e]⟩

def ask (call : EngineCall) (reply : Engine → Reply α) : Action (Reply α) := fun E s =>
  ⟨.ok (reply E), s, [(s.phase, call)], []⟩

/-- Gives a value or fails with an error of the given kind. -/
def ofExcept (f : ε → SessionError) : Except ε α → Action α
  | .ok a => pure a
  | .error e => fail (f e)

/-- Calls the engine; its complaint is an error of the step. -/
def demand (call : EngineCall) (reply : Engine → Reply α) : Action α := do
  match ← ask call reply with
  | .ok a => return a
  | .error (.engine c) => fail (.engine c.message false)
  | .error .foreign => fail (.unhandled .foreign)

/-- Runs an action with the session querying and without a reason, and idle again afterwards, however
the action ends. -/
def querying (x : Action α) : Action α := fun E s =>
  let o := x E { s with phase := .querying, reason := "" }
  { o with session := { o.session with phase := .idle } }

end Action

end Horn

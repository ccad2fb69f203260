import Horn.Derivation.Decision
import Horn.Session.Run

/-!
A session with an engine of its own, which derives facts from the rules that it was given. A command
may be carried out with another engine in its place; the resident one then learns nothing of it.
-/

namespace Horn

/-- A session, the rules that its own engine holds, and how they are reasoned about, which the first
goal decides. -/
structure Resident where
  session : Session
  rules : List Term
  reasoning : Option Reasoning

namespace Resident

def new (c : Config) : Resident := ⟨.new c, [], none⟩

def leastBudget : Nat := 200

def greatestBudget : Nat := 100000

/-- The budget of a derivation. A limit that is no integer limits nothing. -/
def budget (c : Config) : Nat :=
  match c.resourceLimit with
  | .int n => min n.toNat greatestBudget
  | _ => greatestBudget

/-- Why the resident engine leaves a goal undecided. -/
def undecidedReason : String := "neither derived nor refuted"

/-- How the rules are reasoned about when a goal is put to them. -/
def reasoningFor (r : Resident) (goal : Term) : Reasoning :=
  r.reasoning.getD (.ofGoal r.rules goal)

def decide (r : Resident) (goal : Term) : Decision :=
  let n := budget r.session.config
  if n < leastBudget then .undecided else .ofGoal (r.reasoningFor goal) r.rules goal n

def answer (r : Resident) (goal : Term) : Reply Verdict :=
  match (r.reasoningFor goal).refuse? r.rules goal with
  | some f => .error (.engine (.text f.message))
  | none => .ok (r.decide goal).verdict

/-- The resident engine. It takes every relation and every rule, witnesses a goal by the facts that
lead to it, and gives no other answer. -/
def engine (r : Resident) : Engine where
  register _ := .ok ()
  addRule _ _ := .ok ()
  query := r.answer
  reason _ := .ok undecidedReason
  trace goal := .ok ((r.decide goal).trace.map some)
  answer _ := .ok none

def rulesOf (calls : List (Phase × EngineCall)) : List Term :=
  calls.filterMap fun c => match c.2 with
    | .addRule t _ => some t
    | _ => none

def goalOf? (calls : List (Phase × EngineCall)) : Option Term :=
  calls.findSome? fun c => match c.2 with
    | .query t => some t
    | _ => none

/-- What the resident engine is after it has answered calls. -/
def learn (r : Resident) (s : Session) (calls : List (Phase × EngineCall)) : Resident where
  session := s
  rules := r.rules ++ rulesOf calls
  reasoning := ((goalOf? calls).map r.reasoningFor).or r.reasoning

/-- Carries out a command, with the resident engine unless another one is given. -/
def perform (r : Resident) (other : Option Engine) (c : Command) : Outcome Response × Resident :=
  let o := Session.perform c (other.getD r.engine) r.session
  (o, if other.isSome then { r with session := o.session } else r.learn o.session o.calls)

end Resident

end Horn

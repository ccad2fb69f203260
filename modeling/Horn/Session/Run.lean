import Horn.Session.Query

/-!
Runs of a session: commands carried out one after another, each with the engine it meets.
-/

namespace Horn

inductive Command where
  | declare (name : String) (sort : SortSpec)
  | newVariable (name : String) (sort : SortSpec)
  | register (e : Expr)
  | errorRelation
  | addRule (e : Expr) (label : String)
  | query (e : Expr)
  | rules
  | term (e : Expr)
  | formula (e : Expr)
  | relationSymbol (name : String)
  | constants
  | free
  | functions
  | termSort (s : SortSpec)

inductive Response where
  | done
  | expr (e : Expr)
  | rule (label : String) (rule : Term)
  | query (r : QueryResult)
  | rules (rs : List (String × Term))
  | term (t : Term)
  | symbol (f : Symbol)
  | constants (ds : List Declaration)
  | free (fs : List Symbol)
  | functions (ds : List Declaration)
  | sort (s : TermSort)

namespace Session

/-- The symbol that a relation of the given name would have. -/
def relationSymbol (name : String) : Action Symbol := do
  match (← Action.session).symbols.function? name with
  | some f => return f
  | none => Action.fail (.unknownRelation name)

def perform : Command → Action Response
  | .declare n s => do declare n s; return .done
  | .newVariable n s => do return .expr (← newVariable n s)
  | .register e => do register e; return .done
  | .errorRelation => do return .expr (← errorRelation)
  | .addRule e l => do
    addRule e l
    return match (← Action.session).rules.getLast? with
      | some (l, t) => .rule l t
      | none => .done
  | .query e => do return .query (← query e)
  | .rules => do return .rules (← Action.session).rules
  | .term e => do return .term (← Action.ofExcept .term (e.toTerm (← Action.session).symbols))
  | .formula e => do return .term (← Action.ofExcept .term (e.toFormula (← Action.session).symbols))
  | .relationSymbol n => do return .symbol (← relationSymbol n)
  | .constants => do return .constants (← Action.session).symbols.constants
  | .free => do return .free (← Action.session).symbols.free
  | .functions => do return .functions (← Action.session).symbols.functions
  | .termSort s => do return .sort (← Action.ofExcept .sort s.toTermSort)

/-- What remains of a command that failed or not: the next state. -/
def step (s : Session) (c : Engine × Command) : Session := (perform c.2 c.1 s).session

/-- The state after commands, each with the engine it meets. -/
def run (s : Session) (cs : List (Engine × Command)) : Session := cs.foldl step s

end Session

/-- What opening a session does, in order. -/
inductive Opening where
  | global (key : String) (v : Value)
  | context
  | engine (key : String) (v : Value)

def Config.openings (c : Config) : List Opening :=
  c.globalParams.map (fun p => .global p.1 p.2) ++ .context ::
    c.engineParams.map fun p => .engine p.1 p.2

def Opening.event? : Opening → Option Event
  | .global k v => some (.globalParam k v)
  | .context => none
  | .engine k v => some (.engineParam k v)

end Horn

import Horn.Value.Text

/-!
The settings of a session: a resource limit, a timeout and the marker of the facts that witness a
reachable goal. A configuration that exists has a positive limit and no timeout below one.
-/

namespace Horn

inductive ConfigError where
  /-- A setting of that name does not exist. -/
  | unknownField (name : String)
  /-- A limit is not a number. -/
  | notComparable
  | limitNotPositive
  | timeoutNotPositive
  /-- A limit does not stand for an integer. -/
  | notInteger (e : Value.IntError)
  /-- A text would hold an integer with too many digits. -/
  | tooManyDigits
  deriving DecidableEq, Repr

def ConfigError.message? : ConfigError → Option String
  | .limitNotPositive => some "resource_limit must be positive"
  | .timeoutNotPositive => some "timeout_ms must be positive when set"
  | _ => none

structure Config where
  resourceLimit : Value
  timeout : Option Value
  marker : Value

namespace Config

def default : Config := ⟨.int 1000000, none, .text "summary"⟩

/-- The settings as they are, if the limits are positive. -/
def checked (c : Config) : Except ConfigError Config :=
  match c.resourceLimit.nonpositive? with
  | none => .error .notComparable
  | some true => .error .limitNotPositive
  | some false => match c.timeout with
    | none => .ok c
    | some t => match t.nonpositive? with
      | none => .error .notComparable
      | some true => .error .timeoutNotPositive
      | some false => .ok c

/-- A timeout given as a value, of which null is none. -/
def timeoutOf : Value → Option Value
  | .null => none
  | v => some v

def withField (c : Config) (name : String) (v : Value) : Except ConfigError Config :=
  match name with
  | "resource_limit" => .ok { c with resourceLimit := v }
  | "timeout_ms" => .ok { c with timeout := timeoutOf v }
  | "counterexample_marker" => .ok { c with marker := v }
  | _ => .error (.unknownField name)

def ofFields (fields : List (String × Value)) : Except ConfigError Config := do
  (← fields.foldlM (fun c (n, v) => c.withField n v) default).checked

def same (c d : Config) : Bool :=
  c.resourceLimit.same d.resourceLimit && (c.timeout.getD .null).same (d.timeout.getD .null) &&
    c.marker.same d.marker

/-- The parameters for everything, to be set before an engine exists. -/
def globalParams (c : Config) : List (String × Value) :=
  [("rewriter.pull_cheap_ite", .bool true), ("rlimit", c.resourceLimit)]

/-- The parameters of the engine that no setting changes. -/
def fixedParams : List (String × Value) :=
  [("fp.spacer.q3.use_qgen", .bool true), ("fp.spacer.mbqi", .bool false),
    ("fp.spacer.ground_pobs", .bool false), ("fp.xform.slice", .bool false),
    ("fp.xform.inline_linear", .bool false), ("fp.xform.inline_eager", .bool false)]

def engineParams (c : Config) : List (String × Value) :=
  fixedParams ++ (c.timeout.map fun t => ("timeout", t)).toList

/-- The engine takes an integer as its timeout and nothing else. -/
def timeoutAccepted (c : Config) : Bool :=
  match c.timeout with
  | none | some (.int _) => true
  | some _ => false

/-- The lines of a configuration file that holds the settings. -/
def fileText (c : Config) : Except ConfigError String :=
  if c.resourceLimit.fits && c.timeout.all Value.fits && c.marker.fits then
    let timeout := match c.timeout with
      | none => ""
      | some t => "timeout-ms: " ++ t.display ++ "\n"
    .ok ("# .chc.yml: CHC session configuration\n" ++
      "resource-limit: " ++ c.resourceLimit.display ++ "\n" ++ timeout ++
      "counterexample-marker: " ++ c.marker.display ++ "\n")
  else .error .tooManyDigits

end Config

/-- A setting of a configuration file. -/
inductive Setting where
  | resourceLimit
  | timeout
  | marker
  deriving DecidableEq, Repr

namespace Setting

/-- The two spellings of a setting, the one that is looked for first standing first. -/
def spellings : Setting → String × String
  | .resourceLimit => ("resource-limit", "resource_limit")
  | .timeout => ("timeout-ms", "timeout_ms")
  | .marker => ("counterexample-marker", "counterexample_marker")

end Setting

def Value.lookup (es : List (Value × Value)) (key : String) : Option Value :=
  (es.find? fun e => match e.1 with
    | .text s => s == key
    | _ => false).map (·.2)

namespace Config

/-- The value of a setting under either of its spellings. -/
def given? (es : List (Value × Value)) (s : Setting) : Option Value :=
  (Value.lookup es s.spellings.1).or (Value.lookup es s.spellings.2)

def limit (v : Value) : Except ConfigError Value :=
  match v.toInt with
  | .ok n => .ok (.int n)
  | .error e => .error (.notInteger e)

/-- The settings that the entries of a configuration file make. -/
def ofEntries (es : List (Value × Value)) : Except ConfigError Config := do
  let resourceLimit ← limit ((given? es .resourceLimit).getD default.resourceLimit)
  let timeout ← (timeoutOf ((given? es .timeout).getD .null)).mapM limit
  let marker := (given? es .marker).getD default.marker
  if marker.fits then checked ⟨resourceLimit, timeout, marker.toText⟩
  else throw .tooManyDigits

end Config

end Horn

import Horn.Config.Basic
import Horn.Yaml.Content

/-!
Reading the configuration of a directory from its file, if it has one.
-/

namespace Horn

inductive LoadError where
  /-- The file holds no document. -/
  | document (f : Yaml.Fault)
  /-- The document is no dictionary. -/
  | notDictionary
  /-- The settings make no configuration. -/
  | config (e : ConfigError)
  deriving DecidableEq, Repr

namespace Config

def fileNames : List String := [".chc.yml", ".chc.yaml"]

def keys : List String :=
  [Setting.resourceLimit, .timeout, .marker].flatMap fun s => [s.spellings.1, s.spellings.2]

def isSetting (k : Value) : Bool :=
  match k with
  | .text s => keys.contains s
  | _ => false

/-- The entries of a document that stand for settings. -/
def entriesOf (c : Yaml.Content) : Except LoadError (List (Value × Value)) :=
  match c.root with
  | .leaf v => if v.truthy then .error .notDictionary else .ok []
  | .ref id => match c.graph.lookup id with
    | some (.dict es) =>
      .ok ((es.filter fun e => isSetting e.1).map fun e => (e.1, c.graph.unroll e.2))
    | some s => if s.isEmpty then .ok [] else .error .notDictionary
    | none => .ok []

def ofFile (s : String) : Except LoadError Config := do
  match Yaml.Content.ofText s with
  | .error f => throw (.document f)
  | .ok content =>
    let es ← (content.map entriesOf).getD (.ok [])
    match ofEntries es with
    | .ok c => return c
    | .error e => throw (.config e)

/-- The configuration of a directory, given its files by name. -/
def load (files : List (String × String)) : Except LoadError Config :=
  match fileNames.findSome? (List.lookup · files) with
  | some s => ofFile s
  | none => .ok default

end Config

end Horn

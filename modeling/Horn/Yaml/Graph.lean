import Horn.Yaml.Node
import Horn.Yaml.ScalarValue

/-!
The values of a document. A list or dictionary keeps the number of its node, because it may be met in
several places and even inside itself; `Graph.unroll` writes the values out. Each node is made into a
value once. What a list or dictionary holds is made after all that was met before it, which decides the
fault that a document with several of them shows.
-/

namespace Horn.Yaml

/-- A part of a value: a leaf, or the list or dictionary of a number. -/
inductive Part where
  | leaf (v : Value)
  | ref (id : Nat)

inductive Shape where
  | list (items : List Part)
  | pairs (items : List (Part × Part))
  | set (keys : List Value)
  | dict (entries : List (Value × Part))

namespace Shape

def isEmpty : Shape → Bool
  | .list xs => xs.isEmpty
  | .pairs ps => ps.isEmpty
  | .set ks => ks.isEmpty
  | .dict es => es.isEmpty

end Shape

abbrev Graph := List (Nat × Shape)

/-- The state of making values: the nodes, the values made of them so far, the numbers of the lists and
dictionaries whose content is still to be made, and the shapes that are known. -/
structure Making where
  nodes : Array Node
  made : List (Nat × Part)
  queue : List Nat
  graph : Graph

abbrev Step (α : Type) := StateT Making (Except Fault) α

namespace Making

def node (id : Nat) : Step Node := return ((← get).nodes[id]?).getD .empty

def setBody (id : Nat) (b : Body) : Step Unit :=
  modify fun m => { m with nodes := m.nodes.modify id fun x => { x with body := b } }

/-- A key that stood for the value of a dictionary is a text from now on. -/
def asText (id : Nat) : Step Unit :=
  modify fun m => { m with
    nodes := m.nodes.modify id fun x => if x.tag == valueTag then { x with tag := textTag } else x }

def firstTagged (tag : String) : List (Nat × Nat) → Step (Option (Nat × Nat))
  | [] => return none
  | e :: es => do
    if (← node e.1).tag == tag then return some e else firstTagged tag es

/-- The text of a node that has a tag of scalars: its own, or that of the value for which a dictionary
stands. -/
def text : Nat → Nat → Step Text.Points
  | 0, _ => throw .endless
  | n + 1, id => do
    match (← node id).body with
    | .scalar s => return s
    | .list _ => throw .malformed
    | .dict es => match ← firstTagged valueTag es with
      | some (_, v) => text n v
      | none => throw .malformed

def scalar (k : ScalarKind) (id : Nat) : Step Value := do
  let s ← text ((← get).nodes.size + 1) id
  match k, (← node id).body with
  | .time, .dict _ => throw .timeInDictionary
  | _, _ => k.value id s

def collectionTags : List String := [listTag, dictTag, coreTag "set", coreTag "omap", coreTag "pairs"]

def part (id : Nat) : Step Part := do
  if let some p := (← get).made.lookup id then return p
  let x ← node id
  let p ← match ScalarKind.ofTag? x.tag with
    | some k => Part.leaf <$> scalar k id
    | none =>
      if collectionTags.contains x.tag then do
        modify fun m => { m with queue := m.queue ++ [id] }
        pure (Part.ref id)
      else throw .malformed
  modify fun m => { m with made := (id, p) :: m.made }
  return p

def entries (id : Nat) : Step (List (Nat × Nat)) := do
  match (← node id).body with
  | .dict es => return es
  | _ => throw .malformed

mutual

/-- The entries that the merge keys of a dictionary bring in; these keys are gone from it then. A list
of dictionaries brings in its last one first. -/
def merged : Nat → Nat → Step (List (Nat × Nat))
  | 0, _ => throw .malformed
  | n + 1, id => do
    let es ← entries id
    match ← firstTagged mergeTag es with
    | none => return []
    | some (k, v) => do
      setBody id (.dict (es.erase (k, v)))
      let own ← match (← node v).body with
        | .dict _ => flattened n v
        | .list xs => do
          let parts ← xs.mapM fun x => flattened n x
          pure parts.reverse.flatten
        | .scalar _ => throw .malformed
      return own ++ (← merged n id)

/-- The entries of a dictionary, after those of the dictionaries that are merged into it. It holds them
all from then on, and is merged into no further. -/
def flattened : Nat → Nat → Step (List (Nat × Nat))
  | 0, _ => throw .malformed
  | n + 1, id => do
    let new ← merged n id
    let old ← entries id
    old.forM fun e => asText e.1
    setBody id (.dict (new ++ old))
    return new ++ old

end

def entryCount (nodes : Array Node) : Nat :=
  nodes.foldl (fun n x => match x.body with
    | .dict es => n + es.length
    | _ => n) 0

/-- The entries with one more: under a key that is there already, its value takes the old one's
place. -/
def withEntry (es : List (Value × Part)) (k : Value) (p : Part) : List (Value × Part) :=
  if es.any fun e => e.1.sameKey k then es.map fun e => if e.1.sameKey k then (e.1, p) else e
  else es ++ [(k, p)]

/-- The value that a node makes as a key, which is no list or dictionary. -/
def key (id : Nat) : Step Value := do
  match ← part id with
  | .leaf v => return v
  | .ref _ => throw .malformed

def dict (id : Nat) : Step (List (Value × Part)) := do
  (← flattened (2 * entryCount (← get).nodes + 2) id).foldlM (fun es (k, v) => do
    let k ← key k
    return withEntry es k (← part v)) []

/-- The pair that a dictionary of one entry makes. -/
def pair (id : Nat) : Step (Part × Part) := do
  match (← node id).body with
  | .dict [(k, v)] => do
    let k ← part k
    return (k, ← part v)
  | _ => throw .malformed

def items (id : Nat) : Step (List Nat) := do
  match (← node id).body with
  | .list xs => return xs
  | _ => throw .malformed

def shape (id : Nat) : Step Shape := do
  let tag := (← node id).tag
  if tag == dictTag then return .dict (← dict id)
  else if tag == coreTag "set" then return .set ((← dict id).map (·.1))
  else if tag == listTag then return .list (← (← items id).mapM part)
  else return .pairs (← (← items id).mapM pair)

/-- The shapes of what is in the queue and of all within it. -/
def fill : Nat → Step Unit
  | 0 => throw .malformed
  | n + 1 => do
    match (← get).queue with
    | [] => return
    | id :: queue => do
      modify fun m => { m with queue := queue }
      let s ← shape id
      modify fun m => { m with graph := m.graph ++ [(id, s)] }
      fill n

end Making

/-- What a document says: its root and the lists and dictionaries that occur in it. -/
structure Content where
  root : Part
  graph : Graph

def Document.content (d : Document) : Except Fault Content := do
  let make : Step Part := do
    let root ← Making.part d.root
    Making.fill (d.nodes.size + 2)
    return root
  let (root, m) ← make.run ⟨d.nodes, [], [], []⟩
  return ⟨root, m.graph⟩

namespace Graph

/-- What a list or dictionary is called that is met again inside itself. -/
def again (g : Graph) (id : Nat) : Value :=
  match g.lookup id with
  | some (.list _) | some (.pairs _) => .listAgain
  | _ => .dictAgain

/-- The value of a part, inside the lists and dictionaries of the given numbers. -/
def unrollIn (g : Graph) : Nat → List Nat → Part → Value
  | _, _, .leaf v => v
  | 0, _, .ref id => g.again id
  | n + 1, path, .ref id =>
    if path.contains id then g.again id
    else
      let value := unrollIn g n (id :: path)
      match g.lookup id with
      | some (.list xs) => .list (xs.map value)
      | some (.pairs ps) => .list (ps.map fun p => .pair (value p.1) (value p.2))
      | some (.set ks) => .set ks
      | some (.dict es) => .dict (es.map fun e => (e.1, value e.2))
      | none => .null

def unroll (g : Graph) (p : Part) : Value := unrollIn g (g.length + 1) [] p

end Graph

end Horn.Yaml

import Horn.Yaml.Lexer
import Horn.Yaml.Tag

/-!
Nodes: what the tokens of a document spell. A node is known by its number, so that an alias is the
number of the node that it stands for, even within that node.
-/

namespace Horn.Yaml

/-- What a node holds; the nodes within it are given by number. -/
inductive Body where
  | scalar (text : Text.Points)
  | list (items : List Nat)
  | dict (entries : List (Nat × Nat))
  deriving DecidableEq, Repr

structure Node where
  tag : String
  body : Body
  deriving DecidableEq, Repr

def Node.empty : Node := ⟨nullTag, .scalar []⟩

/-- The state of reading nodes: the tokens to come, the number of lists and dictionaries around them,
the nodes by number, the numbers of the named ones, and the shorthands of tags. -/
structure Reader where
  lexer : Lexer
  depth : Nat
  nodes : Array Node
  anchors : List (String × Nat)
  handles : List (String × String)

abbrev Reading (α : Type) := StateT Reader (Except Fault) α

namespace Reading

def head? : Reading (Option Token) := do
  let r ← get
  let l ← r.lexer.ready
  set { r with lexer := l }
  return l.tokens.head?

def take : Reading Unit := modify fun r => { r with lexer := r.lexer.take }

def sees (ts : List Token) : Reading Bool := return (← head?).any ts.contains

def expect (t : Token) : Reading Unit := do
  if ← sees [t] then take else throw .malformed

def add (x : Node) : Reading Nat := do
  let r ← get
  set { r with nodes := r.nodes.push x }
  return r.nodes.size

/-- The shorthands that need no directive. -/
def coreHandles : List (String × String) := [("!", "!"), ("!!", coreTag "")]

end Reading

open Yaml.Reading

/-- What may stand before a node: a tag and an anchor, in either order. -/
structure Properties where
  tag : Option String
  anchor : Option String

namespace Properties

def tagOf (h : Option String) (s : String) : Reading String := do
  match h with
  | none => return s
  | some h => match (← get).handles.lookup h with
    | some e => return e ++ s
    | none => throw .malformed

/-- The properties that come next. -/
def read : Reading Properties := do
  match ← head? with
  | some (.anchor a) => do
    take
    match ← head? with
    | some (.tag h s) => do
      take
      return ⟨some (← tagOf h s), some a⟩
    | _ => return ⟨none, some a⟩
  | some (.tag h s) => do
    take
    match ← head? with
    | some (.anchor a) => do
      take
      return ⟨some (← tagOf h s), some a⟩
    | _ => return ⟨some (← tagOf h s), none⟩
  | _ => return ⟨none, none⟩

/-- The tag given, unless it only says that there is none. -/
def given? (p : Properties) : Option String := p.tag.filter (· != "!")

def list (p : Properties) : Node := ⟨p.given?.getD listTag, .list []⟩

def dict (p : Properties) : Node := ⟨p.given?.getD dictTag, .dict []⟩

/-- The scalar of a text. Its tag follows from the text if it is plain, or if an exclamation mark asks
for that. -/
def scalar (p : Properties) (text : Text.Points) (plain : Bool) : Node :=
  let tag := p.given?.getD (if plain || p.tag.isSome then implicitTag text else textTag)
  ⟨tag, .scalar text⟩

/-- The number of a new node, under the name that the properties give it; no two nodes have one
name. -/
def define (p : Properties) (x : Node) : Reading Nat := do
  match p.anchor with
  | none => add x
  | some a => do
    if ((← get).anchors.lookup a).isSome then throw .malformed
    let id ← add x
    modify fun r => { r with anchors := (a, id) :: r.anchors }
    return id

end Properties

namespace Node

/-- The most lists and dictionaries that may stand within each other. -/
def maxDepth : Nat := 488

/-- A collection whose parts may refer to it. -/
def collect (p : Properties) (x : Node) (parts : Reading Body) : Reading Nat := do
  let id ← p.define x
  let r ← get
  if maxDepth ≤ r.depth then throw .tooDeep
  set { r with depth := r.depth + 1 }
  let b ← parts
  modify fun r => { r with
    depth := r.depth - 1
    nodes := r.nodes.modify id fun x => { x with body := b } }
  return id

/-- A part, or the empty node before one of the given tokens. -/
def part (stop : List Token) (read : Reading Nat) : Reading Nat := do
  if ← sees stop then add .empty else read

def valueOf (stop : List Token) (read : Reading Nat) : Reading Nat := do
  if ← sees [.value] then
    take
    part stop read
  else add .empty

def bare (p : Properties) : Reading Nat :=
  if p.tag.isSome || p.anchor.isSome then p.define (p.scalar [] p.tag.isNone) else throw .malformed

mutual

/-- A node; in a block it may be a block, and as a part of a dictionary a list without
indentation. -/
def read (inBlock inDict : Bool) : Nat → Reading Nat
  | 0 => throw .malformed
  | n + 1 => do
    if let some (.alias a) ← head? then
      take
      match (← get).anchors.lookup a with
      | some x => return x
      | none => throw .malformed
    let p ← Properties.read
    match ← head? with
    | some .blockEntry =>
      if inDict then collect p p.list (.list <$> bareItems n) else bare p
    | some (.scalar s plain) => do
      take
      p.define (p.scalar s plain)
    | some .flowSequence => collect p p.list (take *> .list <$> flowItems n true)
    | some .flowMapping => collect p p.dict (take *> .dict <$> flowEntries n true)
    | some .blockSequence =>
      if inBlock then collect p p.list (take *> .list <$> items n) else bare p
    | some .blockMapping =>
      if inBlock then collect p p.dict (take *> .dict <$> entries n) else bare p
    | _ => bare p

def bareItems : Nat → Reading (List Nat)
  | 0 => throw .malformed
  | n + 1 => do
    if ← sees [.blockEntry] then
      take
      let x ← part [.blockEntry, .key, .value, .blockEnd] (read true false n)
      return x :: (← bareItems n)
    else return []

def items : Nat → Reading (List Nat)
  | 0 => throw .malformed
  | n + 1 => do
    if ← sees [.blockEntry] then
      take
      let x ← part [.blockEntry, .blockEnd] (read true false n)
      return x :: (← items n)
    else
      expect .blockEnd
      return []

def entries : Nat → Reading (List (Nat × Nat))
  | 0 => throw .malformed
  | n + 1 => do
    if ← sees [.key] then
      take
      let stop := [.key, .value, .blockEnd]
      let k ← part stop (read true true n)
      let v ← valueOf stop (read true true n)
      return (k, v) :: (← entries n)
    else
      expect .blockEnd
      return []

/-- The items between square brackets, and the closing one; a comma stands before all but the
first. -/
def flowItems : Nat → Bool → Reading (List Nat)
  | 0, _ => throw .malformed
  | n + 1, first => do
    if ← sees [.flowSequenceEnd] then
      take
      return []
    if !first then expect .flowEntry
    if ← sees [.key] then
      let x ← collect ⟨none, none⟩ ⟨dictTag, .dict []⟩ do
        take
        let stop := [.flowEntry, .flowSequenceEnd]
        let k ← part (.value :: stop) (read false false n)
        let v ← valueOf stop (read false false n)
        return .dict [(k, v)]
      return x :: (← flowItems n false)
    else if ← sees [.flowSequenceEnd] then
      take
      return []
    else
      let x ← read false false n
      return x :: (← flowItems n false)

def flowEntries : Nat → Bool → Reading (List (Nat × Nat))
  | 0, _ => throw .malformed
  | n + 1, first => do
    if ← sees [.flowMappingEnd] then
      take
      return []
    if !first then expect .flowEntry
    if ← sees [.key] then
      take
      let stop := [.flowEntry, .flowMappingEnd]
      let k ← part (.value :: stop) (read false false n)
      let v ← valueOf stop (read false false n)
      return (k, v) :: (← flowEntries n false)
    else if ← sees [.flowMappingEnd] then
      take
      return []
    else
      let k ← read false false n
      let v ← add .empty
      return (k, v) :: (← flowEntries n false)

end

end Node

namespace Reading

def seesDirective : Reading Bool := do
  match ← head? with
  | some (.version _) | some (.handle _ _) | some .directive => return true
  | _ => return false

/-- The directives that come next, each at most once. -/
def directivesFrom : Nat → Bool → Reading Unit
  | 0, _ => throw .malformed
  | n + 1, versioned => do
    match ← head? with
    | some (.version major) => do
      take
      if versioned || major != 1 then throw .malformed
      directivesFrom n true
    | some (.handle h e) => do
      take
      if ((← get).handles.lookup h).isSome then throw .malformed
      modify fun r => { r with handles := r.handles ++ [(h, e)] }
      directivesFrom n versioned
    | some .directive => do
      take
      directivesFrom n versioned
    | _ => modify fun r => { r with handles := r.handles ++ coreHandles }

def directives (n : Nat) : Reading Unit := do
  modify fun r => { r with handles := [] }
  directivesFrom n false

def content (n : Nat) : Reading Nat := do
  if (← head?).isNone || (← seesDirective) || (← sees [.documentStart, .documentEnd]) then
    add .empty
  else Node.read true false n

/-- The marks at the end of a document, after which nothing may follow. -/
def finish : Nat → Nat → Reading Unit
  | 0, _ => throw .malformed
  | m + 1, n => do
    match ← head? with
    | none => return
    | some .documentEnd => do
      take
      finish m n
    | some _ => do
      directives n
      throw .malformed

/-- The root of a document, if there is any; more than one document are refused. -/
def document (n : Nat) : Reading (Option Nat) := do
  if (← head?).isNone then return none
  let x ←
    if (← seesDirective) || (← sees [.documentStart]) then do
      directives n
      expect .documentStart
      content n
    else do
      modify fun r => { r with handles := coreHandles }
      Node.read true false n
  finish n n
  return some x

end Reading

structure Document where
  nodes : Array Node
  root : Nat

def Document.ofChars (s : List Char) : Except Fault (Option Document) := do
  let n := 16 * s.length + 64
  let (root, r) ← (Reading.document n).run ⟨.start s, 0, #[], [], []⟩
  return root.map (⟨r.nodes, ·⟩)

end Horn.Yaml

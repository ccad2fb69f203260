import Horn.Yaml.Scalar
import Horn.Yaml.Token
import Horn.Text.Utf8

/-!
From a text to its tokens. Indentation opens and closes blocks, and a text that a colon follows turns
out to be a key after it has been read: the place where it began is remembered, and the marks of a key
and of a block are put in there. No more of the text is read than the next token needs, so of two
faults the one counts that is met first by whoever takes the tokens.
-/

namespace Horn.Yaml

/-- A place where a key may have begun. -/
structure PendingKey where
  /-- The number of tokens before it. -/
  tokens : Nat
  /-- Nothing but a key can stand there. -/
  required : Bool
  index : Nat
  line : Nat
  column : Nat

structure Lexer where
  cursor : Cursor
  /-- The tokens read and not taken yet. -/
  tokens : List Token
  /-- The number of tokens taken. -/
  taken : Nat
  /-- The text has been read to its end. -/
  done : Bool
  /-- Where a key may have begun, by the number of open brackets. -/
  pending : List (Nat × PendingKey)
  /-- The indentation of the innermost open block, and those of the blocks around it. -/
  indent : Int
  outer : List Int
  /-- The number of open brackets. -/
  flow : Nat
  /-- A key may begin here. -/
  keyAllowed : Bool

namespace Lexer

/-- The longest distance between the start of a key and its colon. -/
def maxKeyLength : Nat := 1024

def start (s : List Char) : Lexer := ⟨.start s, [], 0, false, [], -1, [], 0, true⟩

def emit (l : Lexer) (t : Token) : Lexer := { l with tokens := l.tokens ++ [t] }

def goTo (l : Lexer) (k : Cursor) : Lexer := { l with cursor := k }

def column (l : Lexer) : Int := l.cursor.column

/-- Past blanks, comments and line breaks; whether there was a line break. -/
def pastBlanks : Nat → Cursor → Cursor × Bool
  | 0, k => (k, false)
  | n + 1, k =>
    let k := (k.after (· == ' ')).pastComment
    if k.atBreak then ((pastBlanks n (k.skip 1)).1, true) else (k, false)

/-- To where the next token begins. A key may begin on a new line outside brackets. -/
def toToken (l : Lexer) : Lexer :=
  let k := if l.cursor.index == 0 && l.cursor.at? byteOrderMark then l.cursor.skip 1 else l.cursor
  let (k, broken) := pastBlanks (k.rest.length + 1) k
  { l with cursor := k, keyAllowed := l.keyAllowed || (broken && l.flow == 0) }

/-- A place where a key began that can no longer be one. -/
def isStale (l : Lexer) (p : PendingKey) : Bool :=
  p.line != l.cursor.line || decide (maxKeyLength < l.cursor.index - p.index)

/-- Without the places where no key can have begun any more. -/
def dropStale (l : Lexer) : Except Fault Lexer :=
  if l.pending.any fun p => l.isStale p.2 && p.2.required then .error .malformed
  else .ok { l with pending := l.pending.filter fun p => !l.isStale p.2 }

/-- The place where a key may have begun between the present brackets. -/
def pendingKey? (l : Lexer) : Option PendingKey := l.pending.lookup l.flow

def forget (l : Lexer) : Lexer := { l with pending := l.pending.filter fun p => p.1 != l.flow }

/-- With that place forgotten, unless a key has to be there. -/
def removeKey (l : Lexer) : Except Fault Lexer :=
  if l.pendingKey?.any (·.required) then .error .malformed else .ok l.forget

def saveKey (l : Lexer) : Except Fault Lexer :=
  if l.keyAllowed then do
    let l ← l.removeKey
    let k := l.cursor
    let p : PendingKey :=
      ⟨l.taken + l.tokens.length, l.flow == 0 && l.indent == l.column, k.index, k.line, k.column⟩
    return { l with pending := (l.flow, p) :: l.pending }
  else .ok l

/-- The blocks that stay open at a column: how many are closed, the innermost indentation and those
around it. -/
def openBlocks (column : Int) : Int → List Int → Nat × Int × List Int
  | indent, [] => (0, indent, [])
  | indent, i :: is =>
    if column < indent then
      let (n, indent, is) := openBlocks column i is
      (n + 1, indent, is)
    else (0, indent, i :: is)

/-- With the blocks closed that are indented deeper than a column; between brackets none is. -/
def unwind (l : Lexer) (column : Int) : Lexer :=
  if l.flow == 0 then
    let (n, indent, outer) := openBlocks column l.indent l.outer
    { l with tokens := l.tokens ++ List.replicate n .blockEnd, indent := indent, outer := outer }
  else l

/-- With a block opened at a column if that is deeper than the innermost one; whether it was. -/
def indentTo (l : Lexer) (column : Int) : Bool × Lexer :=
  if l.indent < column then (true, { l with indent := column, outer := l.indent :: l.outer })
  else (false, l)

/-- With a block opened here, outside brackets, if that is deeper than the innermost one. -/
def openBlock (l : Lexer) (t : Token) : Lexer :=
  match l.indentTo l.column with
  | (true, l) => l.emit t
  | (false, l) => l

def mark (l : Lexer) (n : Nat) (t : Token) : Lexer := (l.goTo (l.cursor.skip n)).emit t

def separator (l : Lexer) (t : Token) : Except Fault Lexer := do
  let l ← (l.unwind (-1)).removeKey
  return { l with keyAllowed := false }.mark 3 t

def openFlow (l : Lexer) (t : Token) : Except Fault Lexer := do
  let l ← l.saveKey
  return { l with flow := l.flow + 1, keyAllowed := true }.mark 1 t

def closeFlow (l : Lexer) (t : Token) : Except Fault Lexer := do
  let l ← l.removeKey
  return { l with flow := l.flow - 1, keyAllowed := false }.mark 1 t

def flowEntry (l : Lexer) : Except Fault Lexer := do
  let l ← l.removeKey
  return { l with keyAllowed := true }.mark 1 .flowEntry

def blockEntry (l : Lexer) : Except Fault Lexer := do
  let l ← if l.flow == 0 then
      if l.keyAllowed then pure (l.openBlock .blockSequence) else throw .malformed
    else pure l
  let l ← l.removeKey
  return { l with keyAllowed := true }.mark 1 .blockEntry

def explicitKey (l : Lexer) : Except Fault Lexer := do
  let l ← if l.flow == 0 then
      if l.keyAllowed then pure (l.openBlock .blockMapping) else throw .malformed
    else pure l
  let l ← l.removeKey
  return { l with keyAllowed := l.flow == 0 }.mark 1 .key

/-- With a token put in after the given number of tokens. -/
def insert (l : Lexer) (n : Nat) (t : Token) : Lexer :=
  { l with tokens := l.tokens.insertIdx (n - l.taken) t }

/-- With the marks of a key put in where it began. -/
def insertKey (l : Lexer) (p : PendingKey) : Lexer :=
  let l := { l.forget.insert p.tokens .key with keyAllowed := false }
  if l.flow == 0 then
    match l.indentTo p.column with
    | (true, l) => l.insert p.tokens .blockMapping
    | (false, l) => l
  else l

/-- With the colon before a value read. -/
def valueMark (l : Lexer) : Except Fault Lexer := do
  match l.pendingKey? with
  | some p => return (l.insertKey p).mark 1 .value
  | none => do
    let l ← if l.flow == 0 then
        if l.keyAllowed then pure (l.openBlock .blockMapping) else throw .malformed
      else pure l
    let l ← { l with keyAllowed := l.flow == 0 }.removeKey
    return l.mark 1 .value

def isNameChar (c : Char) : Bool := c.isAlphanum || c == '-' || c == '_'

/-- What may follow a name. -/
def isAfterName (c : Char) : Bool := isSpace c || "?:,]\x7d%@".contains c || c == Char.ofNat 0x60

/-- The name after a mark of one character. -/
def name (k : Cursor) : Except Fault (String × Cursor) :=
  let (s, k) := (k.skip 1).span isNameChar
  if s.isEmpty || !k.rest.head?.all isAfterName then .error .malformed
  else .ok (String.ofList s, k)

/-- With a token read by a scan that may begin a key and after which none may begin. -/
def inKey (l : Lexer) (scan : Cursor → Except Fault (Token × Cursor)) : Except Fault Lexer := do
  let l ← l.saveKey
  let (t, k) ← scan l.cursor
  return ({ l with keyAllowed := false }.goTo k).emit t

def isTagChar (c : Char) : Bool :=
  c.isAlphanum || "-;/?:@&=+$,_.!~*'()[]".contains c

def percentBytes : List Char → List UInt8 × List Char
  | '%' :: a :: b :: r => match hexDigit? a, hexDigit? b with
    | some h, some l => let (bs, rest) := percentBytes r; ((16 * h + l).toUInt8 :: bs, rest)
    | _, _ => ([], '%' :: a :: b :: r)
  | r => ([], r)

/-- The text of a tag, in which bytes may be written as numbers. -/
def tagText : Nat → Cursor → Except Fault Scanned
  | 0, k => .ok ([], k)
  | n + 1, k => do
    let (own, k) := k.span isTagChar
    if k.at? '%' then
      let (bs, rest) := percentBytes k.rest
      let text := Text.decodeUtf8 bs
      if bs.isEmpty || rest.head? == some '%' || text.toUTF8.toList != bs then throw .malformed
      let (more, k) ← tagText n (k.skip (k.rest.length - rest.length))
      return (own ++ text.toList ++ more, k)
    else return (own, k)

def tagUri (k : Cursor) : Except Fault (String × Cursor) := do
  let (s, k) ← tagText (k.rest.length + 1) k
  if s.isEmpty then throw .malformed else return (String.ofList s, k)

/-- A shorthand of tags: an exclamation mark, or a name between two of them. -/
def tagHandle (k : Cursor) : Except Fault (String × Cursor) :=
  match k.rest with
  | '!' :: ' ' :: _ => .ok ("!", k.skip 1)
  | '!' :: r =>
    let s := r.takeWhile isNameChar
    if (r.drop s.length).head? == some '!' then
      .ok (String.ofList ('!' :: s ++ ['!']), k.skip (s.length + 2))
    else .error .malformed
  | _ => .error .malformed

def atBlankEnd (k : Cursor) : Bool := k.at? ' ' || k.atLineEnd

def tag (k : Cursor) : Except Fault (Token × Cursor) := do
  let (t, k) ← match (k.rest.drop 1).head? with
    | some '<' => do
      let (s, k) ← tagUri (k.skip 2)
      if k.at? '>' then pure (Token.tag none s, k.skip 1) else throw .malformed
    | c =>
      if c.all isSpace then pure (Token.tag none "!", k.skip 1)
      else if ((k.rest.drop 1).takeWhile fun c => c != ' ' && !isBreak c).contains '!' then do
        let (h, k) ← tagHandle k
        let (s, k) ← tagUri k
        pure (Token.tag (some h) s, k)
      else do
        let (s, k) ← tagUri (k.skip 1)
        pure (Token.tag (some "!") s, k)
  if atBlankEnd k then return (t, k) else throw .malformed

def versionNumber (k : Cursor) : Except Fault (Nat × Cursor) :=
  let (s, k) := k.span (·.isDigit)
  if s.isEmpty then .error .malformed
  else if Decimal.maxDigits < s.length then .error .tooManyDigits
  else .ok (Decimal.ofDigits (s.map fun c => c.toNat - '0'.toNat), k)

/-- The directive that stands here, up to and past the end of its line. -/
def directive (k : Cursor) : Except Fault (Token × Cursor) := do
  let (s, k) := (k.skip 1).span isNameChar
  if s.isEmpty || !atBlankEnd k then throw .malformed
  let (t, k) ← match String.ofList s with
    | "YAML" => do
      let (major, k) ← versionNumber (k.after (· == ' '))
      if !k.at? '.' then throw .malformed
      let (_, k) ← versionNumber (k.skip 1)
      if !atBlankEnd k then throw .malformed
      pure (Token.version major, k)
    | "TAG" => do
      let (h, k) ← tagHandle (k.after (· == ' '))
      if !k.at? ' ' then throw .malformed
      let (s, k) ← tagUri (k.after (· == ' '))
      if !atBlankEnd k then throw .malformed
      pure (Token.handle h s, k)
    | _ => pure (Token.directive, k.after fun c => !isBreak c)
  return (t, ← k.pastLine)

def readDirective (l : Lexer) : Except Fault Lexer := do
  let l ← (l.unwind (-1)).removeKey
  let (t, k) ← directive l.cursor
  return ({ l with keyAllowed := false }.goTo k).emit t

def readBlock (l : Lexer) (folded : Bool) : Except Fault Lexer := do
  let l ← { l with keyAllowed := true }.removeKey
  let (s, k) ← block folded l.indent l.cursor
  return (l.goTo k).emit (.scalar (.ofChars s) false)

def readPlain (l : Lexer) : Except Fault Lexer := do
  let l ← l.saveKey
  let p := plain (l.flow != 0) (l.indent + 1) l.cursor
  return ({ l with keyAllowed := p.broken }.goTo p.cursor).emit (.scalar (.ofChars p.text) true)

/-- The characters that no plain scalar begins with, unless more of it follows at once. -/
def isIndicator (c : Char) : Bool := "-?:,[]\x7b\x7d#&*!|>'\"%@".contains c || c == Char.ofNat 0x60

def beginsPlain (flow : Bool) (c : Char) (r : List Char) : Bool :=
  !(isSpace c || isIndicator c) ||
    (!r.head?.all isSpace && (c == '-' || (!flow && (c == '?' || c == ':'))))

/-- With the next token read, of which the first character and the rest are given. -/
def read (l : Lexer) (c : Char) (r : List Char) : Except Fault Lexer :=
  let k := l.cursor
  let flow := l.flow != 0
  let before := r.head?.all isSpace
  if c == '%' && k.column == 0 then l.readDirective
  else if k.column == 0 && k.atMark '-' then l.separator .documentStart
  else if k.column == 0 && k.atMark '.' then l.separator .documentEnd
  else if c == '[' then l.openFlow .flowSequence
  else if c == '{' then l.openFlow .flowMapping
  else if c == ']' then l.closeFlow .flowSequenceEnd
  else if c == '}' then l.closeFlow .flowMappingEnd
  else if c == ',' then l.flowEntry
  else if c == '-' && before then l.blockEntry
  else if c == '?' && (flow || before) then l.explicitKey
  else if c == ':' && (flow || before) then l.valueMark
  else if c == '*' then l.inKey fun k => do
    let (n, k) ← name k
    return (.alias n, k)
  else if c == '&' then l.inKey fun k => do
    let (n, k) ← name k
    return (.anchor n, k)
  else if c == '!' then l.inKey tag
  else if c == '|' && !flow then l.readBlock false
  else if c == '>' && !flow then l.readBlock true
  else if c == '\'' || c == '"' then l.inKey fun k => do
    let (s, k) ← quoted (c == '"') k
    return (.scalar s false, k)
  else if beginsPlain flow c r then l.readPlain
  else .error .malformed

/-- With more of the text read: the next token, the ends of blocks before it, or the end. -/
def more (l : Lexer) : Except Fault Lexer := do
  let l ← l.toToken.dropStale
  let l := l.unwind l.column
  match l.cursor.rest with
  | [] => do
    let l ← (l.unwind (-1)).removeKey
    return { l with pending := [], keyAllowed := false, done := true }
  | c :: r => l.read c r

def mayBeKey (l : Lexer) : Bool := l.pending.any fun p => p.2.tokens == l.taken

def readyFrom : Nat → Lexer → Except Fault Lexer
  | 0, _ => .error .malformed
  | n + 1, l =>
    if l.done then .ok l
    else if l.tokens.isEmpty then do readyFrom n (← l.more)
    else do
      let l ← l.dropStale
      if l.mayBeKey then readyFrom n (← l.more) else return l

/-- With as much of the text read as the next token needs. -/
def ready (l : Lexer) : Except Fault Lexer :=
  if l.done || (l.pending.isEmpty && !l.tokens.isEmpty) then .ok l
  else readyFrom (l.cursor.rest.length + 2) l

def take (l : Lexer) : Lexer := { l with tokens := l.tokens.tail, taken := l.taken + 1 }

end Lexer

end Horn.Yaml

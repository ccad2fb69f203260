import Horn.Decimal.Integer
import Horn.Text.Points
import Horn.Yaml.Cursor

/-!
Scanning scalars. Within a scalar a single line break counts as a blank, and of several in a row the
first does not count; a block scalar keeps its breaks, unless it is folded.
-/

namespace Horn.Yaml

abbrev Scanned := List Char × Cursor

/-- The breaks of a run of line breaks as they count after the first. -/
def foldBreaks (first : Char) (more : List Char) : List Char :=
  if breakChar first != '\n' then breakChar first :: more
  else if more.isEmpty then [' '] else more

/-! ### Plain scalars -/

def isFlowMark (c : Char) : Bool := c == ',' || c == '[' || c == ']' || c == '{' || c == '}'

/-- A word of a plain scalar ends before these characters. -/
def wordEnds (flow : Bool) : List Char → Bool
  | [] => true
  | c :: r =>
    isSpace c || (c == ':' && (r.head?.all isSpace || (flow && r.head?.any isFlowMark))) ||
      (flow && (c == '?' || isFlowMark c))

def word (flow : Bool) : List Char → List Char
  | [] => []
  | c :: r => if wordEnds flow (c :: r) then [] else c :: word flow r

/-- The line breaks among blanks and breaks, and the place after these; none if a mark between
documents follows a break. -/
def plainBreaks : Nat → Cursor → Option (List Char) × Cursor
  | 0, k => (some [], k)
  | n + 1, k =>
    let k := k.after (· == ' ')
    match k.rest with
    | c :: _ =>
      if isBreak c then
        let k := k.skip 1
        if k.atSeparator then (none, k)
        else
          let (more, k) := plainBreaks n k
          (more.map (breakChar c :: ·), k)
      else (some [], k)
    | [] => (some [], k)

structure Gap where
  /-- What the gap counts as; empty if the scalar ends. -/
  text : List Char
  cursor : Cursor
  /-- The gap holds a line break. -/
  broken : Bool

def gap (k : Cursor) : Gap :=
  let (blanks, k) := k.span (· == ' ')
  match k.rest with
  | c :: r =>
    if isBreak c then
      let k := k.skip 1
      if k.atSeparator then ⟨[], k, true⟩
      else match plainBreaks (r.length + 1) k with
        | (none, k) => ⟨[], k, true⟩
        | (some more, k) => ⟨foldBreaks c more, k, true⟩
    else ⟨blanks, k, false⟩
  | [] => ⟨blanks, k, false⟩

structure Plain where
  text : List Char
  cursor : Cursor
  /-- The scalar is followed by a line break. -/
  broken : Bool

/-- The words of a plain scalar that stand at the given indentation or deeper, with what came before
them. -/
def plainFrom (flow : Bool) (indent : Int) : Nat → Plain → List Char → Plain
  | 0, p, _ => p
  | n + 1, p, before =>
    if p.cursor.at? '#' then p
    else
      let w := word flow p.cursor.rest
      if w.isEmpty then p
      else
        let g := gap (p.cursor.skip w.length)
        let q : Plain := ⟨p.text ++ before ++ w, g.cursor, g.broken⟩
        if g.text.isEmpty || g.cursor.at? '#' || (!flow && decide ((g.cursor.column : Int) < indent))
        then q
        else plainFrom flow indent n q g.text

def plain (flow : Bool) (indent : Int) (k : Cursor) : Plain :=
  plainFrom flow indent (k.rest.length + 1) ⟨[], k, false⟩ []

/-! ### Quoted scalars -/

def escaped? : Char → Option Char
  | '0' => some '\x00'
  | 'a' => some '\x07'
  | 'b' => some '\x08'
  | 't' => some '\t'
  | '\t' => some '\t'
  | 'n' => some '\n'
  | 'v' => some '\x0b'
  | 'f' => some '\x0c'
  | 'r' => some '\r'
  | 'e' => some '\x1b'
  | ' ' => some ' '
  | '"' => some '"'
  | '\\' => some '\\'
  | '/' => some '/'
  | 'N' => some '\x85'
  | '_' => some '\xa0'
  | 'L' => some '\u2028'
  | 'P' => some '\u2029'
  | _ => none

def escapeWidth? : Char → Option Nat
  | 'x' => some 2
  | 'u' => some 4
  | 'U' => some 8
  | _ => none

def hexDigit? (c : Char) : Option Nat := (Decimal.radixDigit? c).filter (· < 16)

def hexNumber? (width : Nat) (s : List Char) : Option Nat :=
  if s.length < width then none
  else ((s.take width).mapM hexDigit?).map fun ds => ds.foldl (fun n d => 16 * n + d) 0

def quotedBreaks : Nat → Cursor → Except Fault Scanned
  | 0, k => .ok ([], k)
  | n + 1, k =>
    if k.atSeparator then .error .malformed
    else
      let k := k.after fun c => c == ' ' || c == '\t'
      match k.rest with
      | c :: _ =>
        if isBreak c then do
          let (more, k) ← quotedBreaks n (k.skip 1)
          return (breakChar c :: more, k)
        else .ok ([], k)
      | [] => .ok ([], k)

def isQuotedChar (c : Char) : Bool := c != '\'' && c != '"' && c != '\\' && !isSpace c

/-- A scanned text by its code points, since an escape may name one that is no character, and the
place after it. -/
abbrev ScannedPoints := Text.Points × Cursor

def quotedRun (double : Bool) : Nat → Cursor → Except Fault ScannedPoints
  | 0, k => .ok ([], k)
  | n + 1, k => do
    let (own, k) := k.span isQuotedChar
    let own := Text.Points.ofChars own
    let go (s : Text.Points) (k : Cursor) : Except Fault ScannedPoints := do
      let (more, k) ← quotedRun double n k
      return (own ++ s ++ more, k)
    match double, k.rest with
    | false, '\'' :: '\'' :: _ => go ['\''.toNat] (k.skip 2)
    | true, '\'' :: _ => go ['\''.toNat] (k.skip 1)
    | false, '"' :: _ => go ['"'.toNat] (k.skip 1)
    | false, '\\' :: _ => go ['\\'.toNat] (k.skip 1)
    | true, '\\' :: c :: r => match escaped? c, escapeWidth? c with
      | some e, _ => go [e.toNat] (k.skip 2)
      | none, some w => match hexNumber? w r with
        | some code => if code < 0x110000 then go [code] (k.skip (2 + w)) else throw (.noCharacter code)
        | none => throw .malformed
      | none, none =>
        if isBreak c then do
          let (breaks, k) ← quotedBreaks (r.length + 1) (k.skip 2)
          go (.ofChars breaks) k
        else throw .malformed
    | true, ['\\'] => throw .malformed
    | _, _ => return (own, k)

def quotedGap (k : Cursor) : Except Fault Scanned := do
  let (blanks, k) := k.span fun c => c == ' ' || c == '\t'
  match k.rest with
  | [] => throw .malformed
  | c :: r =>
    if isBreak c then do
      let (more, k) ← quotedBreaks (r.length + 1) (k.skip 1)
      return (foldBreaks c more, k)
    else return (blanks, k)

/-- The rest of a quoted scalar, up to and past its closing quote. -/
def quotedFrom (double : Bool) : Nat → Cursor → Except Fault ScannedPoints
  | 0, _ => .error .malformed
  | n + 1, k => do
    let (own, k) ← quotedRun double (k.rest.length + 1) k
    if k.at? (if double then '"' else '\'') then return (own, k.skip 1)
    else do
      let (between, k) ← quotedGap k
      let (more, k) ← quotedFrom double n k
      return (own ++ .ofChars between ++ more, k)

def quoted (double : Bool) (k : Cursor) : Except Fault ScannedPoints :=
  quotedFrom double (k.rest.length + 1) (k.skip 1)

/-! ### Block scalars -/

inductive Chomping where
  /-- All are dropped. -/
  | strip
  /-- One is kept. -/
  | clip
  /-- All are kept. -/
  | keep
  deriving DecidableEq, Repr

/-- The header of a block scalar: its chomping and the indentation it states. -/
structure Header where
  chomping : Chomping
  indent : Option Nat
  cursor : Cursor

def chomping? (k : Cursor) : Option (Chomping × Cursor) :=
  match k.rest with
  | '+' :: _ => some (.keep, k.skip 1)
  | '-' :: _ => some (.strip, k.skip 1)
  | _ => none

/-- The indentation that stands here, which must not be zero, and the place after it. -/
def indent? (k : Cursor) : Except Fault (Option Nat × Cursor) :=
  match k.rest with
  | c :: _ =>
    if c == '0' then .error .malformed
    else if c.isDigit then .ok (some (c.toNat - '0'.toNat), k.skip 1)
    else .ok (none, k)
  | [] => .ok (none, k)

/-- The header of a block scalar, in either order. -/
def header (k : Cursor) : Except Fault Header := do
  let h ← match chomping? k with
    | some (c, k) => do
      let (i, k) ← indent? k
      pure (⟨c, i, k⟩ : Header)
    | none => do
      let (i, k) ← indent? k
      match i, chomping? k with
      | some _, some (c, k) => pure ⟨c, i, k⟩
      | _, _ => pure ⟨.clip, i, k⟩
  if h.cursor.at? ' ' || h.cursor.atLineEnd then return { h with cursor := ← h.cursor.pastLine }
  else throw .malformed

/-- The breaks before the first line of a block scalar, and the deepest column reached by blanks. -/
def firstBreaks : Nat → Cursor → Nat → List Char × Nat × Cursor
  | 0, k, deepest => ([], deepest, k)
  | n + 1, k, deepest =>
    match k.rest with
    | c :: _ =>
      if c == ' ' then
        let k := k.skip 1
        firstBreaks n k (max deepest k.column)
      else if isBreak c then
        let (more, d, k) := firstBreaks n (k.skip 1) deepest
        (breakChar c :: more, d, k)
      else ([], deepest, k)
    | [] => ([], deepest, k)

def toColumn (indent : Nat) (k : Cursor) : Cursor :=
  k.skip ((k.rest.take (indent - k.column)).takeWhile (· == ' ')).length

/-- The breaks between two lines of a block scalar, and the place at its indentation. -/
def blockBreaks (indent : Nat) : Nat → Cursor → Scanned
  | 0, k => ([], k)
  | n + 1, k =>
    let k := toColumn indent k
    match k.rest with
    | c :: _ =>
      if isBreak c then
        let (more, k) := blockBreaks indent n (k.skip 1)
        (breakChar c :: more, k)
      else ([], k)
    | [] => ([], k)

def atBlockLine (indent : Nat) (k : Cursor) : Bool := k.column == indent && !k.rest.isEmpty

def atBlank (k : Cursor) : Bool := k.at? ' ' || k.at? '\t'

def lineBreak (k : Cursor) : Scanned :=
  match k.rest with
  | c :: _ => if isBreak c then ([breakChar c], k.skip 1) else ([], k)
  | [] => ([], k)

/-- The lines of a block scalar: their text, the last break and the breaks after that one. -/
def blockLines (folded : Bool) (indent : Nat) :
    Nat → Cursor → List Char × List Char × List Char × Cursor
  | 0, k => ([], [], [], k)
  | n + 1, k =>
    let flush := !atBlank k
    let (own, k) := k.span fun c => !isBreak c
    let (ending, k) := lineBreak k
    let (breaks, k) := blockBreaks indent (k.rest.length + 1) k
    if atBlockLine indent k then
      let joint :=
        if folded && ending == ['\n'] && flush && !atBlank k then
          if breaks.isEmpty then [' '] else []
        else ending
      let (more, last, trailing, k) := blockLines folded indent n k
      (own ++ joint ++ breaks ++ more, last, trailing, k)
    else (own, ending, breaks, k)

/-- The block scalar whose mark stands here, in a block of the given indentation. -/
def block (folded : Bool) (outer : Int) (k : Cursor) : Except Fault Scanned := do
  let h ← header (k.skip 1)
  let least := (max (outer + 1) 1).toNat
  let (indent, breaks, k) := match h.indent with
    | some i =>
      let (breaks, k) := blockBreaks (least + i - 1) (h.cursor.rest.length + 1) h.cursor
      (least + i - 1, breaks, k)
    | none =>
      let (breaks, deepest, k) := firstBreaks (h.cursor.rest.length + 1) h.cursor 0
      (max least deepest, breaks, k)
  let (text, last, trailing, k) :=
    if atBlockLine indent k then
      let (text, last, trailing, k) := blockLines folded indent (k.rest.length + 1) k
      (breaks ++ text, last, trailing, k)
    else ([], [], breaks, k)
  return match h.chomping with
    | .strip => (text, k)
    | .clip => (text ++ last, k)
    | .keep => (text ++ last ++ trailing, k)

end Horn.Yaml

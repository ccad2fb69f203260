/-!
A place in a text: what is left of it, and the line and column where that begins.
-/

namespace Horn.Yaml

/-- Why a text is no document, or a document has no value. -/
inductive Fault where
  /-- The text breaks a rule of the language, or a node does not fit its tag. -/
  | malformed
  /-- An escape stands for no character. -/
  | noCharacter (code : Nat)
  /-- Lists and dictionaries stand within each other too deeply. -/
  | tooDeep
  /-- The number of a version has too many digits. -/
  | tooManyDigits
  /-- The text of a number is none. -/
  | notNumber
  /-- A part to base 60 counts more than a floating-point number can. -/
  | tooLarge
  /-- Nothing stands where a number is wanted, or no more than a sign where an integer is. -/
  | noDigits
  /-- The text of a Boolean is none. -/
  | notBoolean
  /-- The text of a time is none. -/
  | notTime
  /-- A dictionary stands for a time. -/
  | timeInDictionary
  /-- A time does not exist. -/
  | noSuchTime
  /-- A dictionary stands for a text and, by way of others, for itself. -/
  | endless
  deriving DecidableEq, Repr

def isBreak (c : Char) : Bool :=
  c == '\n' || c == '\x85' || c == '\u2028' || c == '\u2029'

def isSpace (c : Char) : Bool := c == ' ' || c == '\t' || isBreak c

def breakChar (c : Char) : Char := if c == '\x85' then '\n' else c

/-- The mark that may stand at the start of a text; it takes no column. -/
def byteOrderMark : Char := '\ufeff'

structure Cursor where
  rest : List Char
  index : Nat
  line : Nat
  column : Nat
  deriving DecidableEq, Repr

namespace Cursor

def start (s : List Char) : Cursor := ⟨s, 0, 0, 0⟩

def past (k : Cursor) (c : Char) : Cursor :=
  if isBreak c then ⟨k.rest.tail, k.index + 1, k.line + 1, 0⟩
  else ⟨k.rest.tail, k.index + 1, k.line, if c == byteOrderMark then k.column else k.column + 1⟩

def skip (k : Cursor) (n : Nat) : Cursor := (k.rest.take n).foldl past k

def span (k : Cursor) (p : Char → Bool) : List Char × Cursor :=
  let s := k.rest.takeWhile p
  (s, s.foldl past k)

def after (k : Cursor) (p : Char → Bool) : Cursor := (k.span p).2

def at? (k : Cursor) (c : Char) : Bool := k.rest.head? == some c

def atBreak (k : Cursor) : Bool := k.rest.head?.any isBreak

def atLineEnd (k : Cursor) : Bool := k.rest.head?.all isBreak

def pastComment (k : Cursor) : Cursor :=
  if k.at? '#' then k.after fun c => !isBreak c else k

/-- Past blanks and a comment to the end of the line, and past its break. -/
def pastLine (k : Cursor) : Except Fault Cursor :=
  let k := (k.after (· == ' ')).pastComment
  if k.atLineEnd then .ok (if k.atBreak then k.skip 1 else k) else .error .malformed

/-- One of the two marks between documents stands here, whatever the column. -/
def atMark (k : Cursor) (m : Char) : Bool :=
  match k.rest with
  | a :: b :: c :: r => a == m && b == m && c == m && r.head?.all isSpace
  | _ => false

def atSeparator (k : Cursor) : Bool := k.atMark '-' || k.atMark '.'

end Cursor

end Horn.Yaml

import Horn.Yaml.Graph

/-!
What a text says: a document is read from it, and values are made of its nodes. A fault in reading
wins over one in making values.
-/

namespace Horn.Yaml

/-- The text with a line feed for every carriage return, and for one and a line feed after it. -/
def unifyBreaks : List Char → List Char
  | '\r' :: '\n' :: r => '\n' :: unifyBreaks r
  | '\r' :: r => '\n' :: unifyBreaks r
  | c :: r => c :: unifyBreaks r
  | [] => []

def isAllowed (c : Char) : Bool :=
  let n := c.toNat
  n == 9 || n == 10 || n == 13 || (0x20 ≤ n && n ≤ 0x7e) || n == 0x85 || (0xa0 ≤ n && n ≤ 0xd7ff) ||
    (0xe000 ≤ n && n ≤ 0xfffd) || 0x10000 ≤ n

/-- The number of characters that are taken in at a time; the first time it is twice as many. -/
def chunk : Nat := 4096

/-- The characters that can be read before one is met that may not stand in a document: all of a chunk
are looked at when it is taken in. -/
def readable (s : List Char) : List Char :=
  let n := (s.takeWhile isAllowed).length
  if n == s.length then s
  else if n < 2 * chunk then []
  else s.take (n / chunk * chunk)

/-- The document that a text spells. A fault in what can be read wins over a character that may not
stand there. -/
def Document.ofText (s : List Char) : Except Fault (Option Document) :=
  let r := readable s
  if r.length == s.length then Document.ofChars s
  else match Document.ofChars r with
    | .error f => .error f
    | .ok _ => .error .malformed

def Content.ofText (s : String) : Except Fault (Option Content) := do
  match ← Document.ofText (unifyBreaks s.toList) with
  | some d => return some (← d.content)
  | none => return none

end Horn.Yaml

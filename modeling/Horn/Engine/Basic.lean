import Horn.Term.Basic
import Horn.Text.Utf8

/-!
The solving engine as a session sees it: what it answers to each call, or how the call fails.
-/

namespace Horn

inductive Verdict where
  | sat
  | unsat
  | unknown
  deriving DecidableEq, Repr

inductive Complaint where
  | text (s : String)
  | bytes (bs : List UInt8)
  deriving DecidableEq, Repr

def Complaint.message : Complaint → String
  | .text s => s
  | .bytes bs => Text.decodeUtf8 bs

inductive Failure where
  /-- The engine complains. -/
  | engine (c : Complaint)
  /-- Something other than the engine breaks down. -/
  | foreign
  deriving DecidableEq, Repr

/-- The answer to a call. -/
abbrev Reply (α : Type) := Except Failure α

/-- What an engine answers to each call. The calls that follow a query are told its goal. -/
structure Engine where
  register : Symbol → Reply Unit
  addRule : Term → String → Reply Unit
  query : Term → Reply Verdict
  reason : Term → Reply String
  trace : Term → Reply (List (Option Term))
  answer : Term → Reply (Option Term)

inductive EngineCall where
  | register (f : Symbol)
  | addRule (rule : Term) (label : String)
  | query (goal : Term)
  | reason
  | trace
  | answer

/-- The words that an engine uses when it runs out of its budget. -/
def resourceWords : List (List Char) :=
  ["canceled".toList, "resource".toList, "timeout".toList, "rlimit".toList]

/-- The lower-case form of a character, as far as ASCII letters occur in it. No other character than
these two has a lower-case form with an ASCII letter, bar the ASCII letters themselves. -/
def lowerCase (c : Char) : List Char :=
  if c = Char.ofNat 0x212a then ['k']
  else if c = Char.ofNat 0x130 then ['i', Char.ofNat 0x307]
  else [c.toLower]

/-- Whether the first text occurs in the second. -/
def occursIn (w : List Char) : List Char → Bool
  | [] => w.isEmpty
  | c :: cs => w.isPrefixOf (c :: cs) || occursIn w cs

/-- The message says, in letters of either case, that the engine ran out of its budget. -/
def isResourceMessage (message : String) : Bool :=
  let s := message.toList.flatMap lowerCase
  resourceWords.any fun w => occursIn w s

end Horn

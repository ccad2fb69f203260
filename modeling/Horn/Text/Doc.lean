/-!
Texts laid out in lines. A group stands on one line if what is left of the line holds it, and is broken
at its line breaks if not; the groups within it are then tried on their own.
-/

namespace Horn.Text

/-- A text that can be laid out in more than one way. -/
inductive Doc where
  | text (s : String)
  /-- A line break, or the given text where all stands on one line. -/
  | line (flat : String)
  | seq (ds : List Doc)
  /-- What follows a line break within is indented so much more. -/
  | indent (n : Nat) (d : Doc)
  | group (d : Doc)

namespace Doc

def separated (sep flat : String) : List Doc → List Doc
  | [] => []
  | [d] => [d]
  | d :: ds => d :: .text sep :: .line flat :: separated sep flat ds

def call (head : String) (ds : List Doc) : Doc :=
  .group (.seq [.text head, .text "(", .indent (head.length + 1) (.seq (separated "," " " ds)),
    .text ")"])

mutual

def flat : Doc → String
  | .text s => s
  | .line s => s
  | .seq ds => flatAll ds
  | .indent _ d => d.flat
  | .group d => d.flat

def flatAll : List Doc → String
  | [] => ""
  | d :: ds => d.flat ++ flatAll ds

end

/-- The place where writing goes on: what is written, the column and the number of line breaks, and
whether there were too many of these. -/
structure Pen where
  written : String
  column : Nat
  breaks : Nat
  stopped : Bool

def width : Nat := 60

def maxIndent : Nat := 40

def maxLines : Nat := 200

namespace Pen

def start : Pen := ⟨"", 0, 0, false⟩

def put (p : Pen) (s : String) : Pen :=
  if p.stopped then p else { p with written := p.written ++ s, column := p.column + s.length }

/-- A line is broken; dots stand for all that would come after the last line. -/
def newLine (p : Pen) (indent : Nat) : Pen :=
  if p.stopped then p
  else if p.breaks + 1 < maxLines then
    ⟨p.written ++ "\n" ++ String.ofList (List.replicate indent ' '), indent, p.breaks + 1, false⟩
  else { p with written := p.written ++ "\n...", stopped := true }

end Pen

mutual

def write (indent : Nat) : Doc → Pen → Pen
  | .text s, p => p.put s
  | .line _, p => p.newLine indent
  | .seq ds, p => writeAll indent ds p
  | .indent n d, p => write (min (indent + n) maxIndent) d p
  | .group d, p =>
    let s := d.flat
    if p.column < width ∧ p.column + s.length ≤ width then p.put s else write indent d p

def writeAll (indent : Nat) : List Doc → Pen → Pen
  | [], p => p
  | d :: ds, p => writeAll indent ds (write indent d p)

end

def render (d : Doc) : String := (write 0 d .start).written

end Doc

end Horn.Text

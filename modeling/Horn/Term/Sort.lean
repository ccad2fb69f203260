import Horn.Text.Doc

/-!
The sorts of terms, and the symbols that terms apply.
-/

namespace Horn

inductive TermSort where
  | int
  | bool
  | array (domain range : TermSort)
  deriving DecidableEq, Repr

namespace TermSort

def text : TermSort → String
  | .int => "Int"
  | .bool => "Bool"
  | .array d r => "Array(" ++ d.text ++ ", " ++ r.text ++ ")"

def doc : TermSort → Text.Doc
  | .array d r => .call "Array" [d.doc, r.doc]
  | s => .text s.text

def lines (s : TermSort) : String := s.doc.render

end TermSort

/-- A function symbol; one with an empty domain is a constant. -/
structure Symbol where
  name : String
  domain : List TermSort
  range : TermSort
  deriving DecidableEq, Repr

namespace Symbol

/-- The name under which a symbol is known to the engine: a name ends before its first NUL. -/
def nameOf (declared : String) : String :=
  String.ofList (declared.toList.takeWhile fun c => c != '\x00')

def shownName (name : String) : String := if name = "" then "<null>" else name

def text (f : Symbol) : String := shownName f.name

end Symbol

end Horn

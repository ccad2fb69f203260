import Horn.Value.Code
import Horn.Value.Text

/-!
Sorts as a caller writes them down: the annotation of an expression, or what a symbol is declared
with. Parts may be missing or not be sorts at all, and a bare kind is not a composed sort.
-/

namespace Horn

/-- A sort as written by a caller. -/
inductive SortSpec where
  /-- No sort was given. -/
  | absent
  /-- A value that is no sort was given. -/
  | junk (v : Value)
  | int
  | bool
  /-- The kind of arrays, without domain and range. -/
  | bareArray
  /-- The kind of functions, without domain and codomain. -/
  | bareFunction
  | array (domain range : SortSpec)
  | function (domain : List SortSpec) (codomain : SortSpec)

namespace SortSpec

mutual

def text : SortSpec → String
  | .absent => "None"
  | .junk v => v.display
  | .int => "Int"
  | .bool => "Bool"
  | .bareArray => "Array"
  | .bareFunction => "Function"
  | .array d r => "Array(" ++ d.text ++ ", " ++ r.text ++ ")"
  | .function ds c => "(" ++ String.intercalate ", " (texts ds) ++ ") -> " ++ c.text

def texts : List SortSpec → List String
  | [] => []
  | s :: ss => s.text :: texts ss

end

mutual

/-- No integer in the sort has too many digits to be written out. -/
def fits : SortSpec → Bool
  | .junk v => v.fits
  | .array d r => d.fits && r.fits
  | .function ds c => allFit ds && c.fits
  | _ => true

def allFit : List SortSpec → Bool
  | [] => true
  | s :: ss => s.fits && allFit ss

end

def kind? : SortSpec → Option String
  | .absent | .junk _ => none
  | .int => some "INT"
  | .bool => some "BOOL"
  | .bareArray | .array _ _ => some "ARRAY"
  | .bareFunction | .function _ _ => some "FUNCTION"

def isFunction : SortSpec → Bool
  | .function _ _ => true
  | _ => false

mutual

/-- Equality of sorts, part by part; parts that are no sorts are compared as values. -/
def same : SortSpec → SortSpec → Bool
  | .absent, .absent | .int, .int | .bool, .bool => true
  | .bareArray, .bareArray | .bareFunction, .bareFunction => true
  | .junk v, .junk w => v.same w
  | .array d r, .array d' r' => d.same d' && r.same r'
  | .function ds c, .function ds' c' => sameAll ds ds' && c.same c'
  | _, _ => false

def sameAll : List SortSpec → List SortSpec → Bool
  | [], [] => true
  | s :: ss, t :: ts => s.same t && sameAll ss ts
  | _, _ => false

end

mutual

/-- Two sorts have one code: they are equal but for parts that are no sorts, which have one code. -/
def sameCode : SortSpec → SortSpec → Bool
  | .absent, .absent | .int, .int | .bool, .bool => true
  | .bareArray, .bareArray | .bareFunction, .bareFunction => true
  | .junk v, .junk w => v.sameCode w
  | .array d r, .array d' r' => d.sameCode d' && r.sameCode r'
  | .function ds c, .function ds' c' => sameCodes ds ds' && c.sameCode c'
  | _, _ => false

def sameCodes : List SortSpec → List SortSpec → Bool
  | [], [] => true
  | s :: ss, t :: ts => s.sameCode t && sameCodes ss ts
  | _, _ => false

end

mutual

/-- No part of the sort is a value that cannot be a key. -/
def isKey : SortSpec → Bool
  | .junk v => v.isKey
  | .array d r => d.isKey && r.isKey
  | .function ds c => areKeys ds && c.isKey
  | _ => true

def areKeys : List SortSpec → Bool
  | [] => true
  | s :: ss => s.isKey && areKeys ss

end

end SortSpec

end Horn

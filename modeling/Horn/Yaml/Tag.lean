import Horn.Text.Points

/-!
The tags that plain scalars have by their text. A text is compared with a few forms: words for
Booleans and nothing, numbers in several bases, days and times.
-/

namespace Horn.Yaml

def coreTag (name : String) : String := "tag:yaml.org,2002:" ++ name

def textTag : String := coreTag "str"

def listTag : String := coreTag "seq"

def dictTag : String := coreTag "map"

def nullTag : String := coreTag "null"

/-- The tag of a key whose value is merged into the dictionary. -/
def mergeTag : String := coreTag "merge"

/-- The tag of a key whose value stands for the dictionary. -/
def valueTag : String := coreTag "value"

namespace Form

def isDigitOrBar (c : Char) : Bool := c.isDigit || c == '_'

def unsigned : List Char → List Char
  | '-' :: r | '+' :: r => r
  | r => r

def isBool (s : String) : Bool :=
  ["yes", "Yes", "YES", "no", "No", "NO", "true", "True", "TRUE", "false", "False", "FALSE", "on",
    "On", "ON", "off", "Off", "OFF"].contains s

def isNull (s : String) : Bool := ["~", "null", "Null", "NULL"].contains s

def isRun (p : Char → Bool) (s : List Char) : Bool := !s.isEmpty && s.all p

/-- Parts to base 60, each after a colon, and what follows them. -/
def sixtieths : List Char → List Char
  | ':' :: a :: b :: r =>
    if '0' ≤ a && a ≤ '5' && b.isDigit then sixtieths r
    else if a.isDigit then sixtieths (b :: r)
    else ':' :: a :: b :: r
  | [':', a] => if a.isDigit then [] else [':', a]
  | r => r

def beginsSixtieth : List Char → Bool
  | ':' :: a :: _ => a.isDigit
  | _ => false

/-- The text is parts to base 60, up to one of which the rest passes the test. -/
def endsSixtieths (p : List Char → Bool) (s : List Char) : Bool :=
  beginsSixtieth s && p (sixtieths s)

/-- A digit other than zero, then digits and underscores; what follows them. -/
def afterPositive : List Char → Option (List Char)
  | c :: r => if c.isDigit && c != '0' then some (r.dropWhile isDigitOrBar) else none
  | [] => none

def isUnsignedInt : List Char → Bool
  | ['0'] => true
  | '0' :: 'b' :: r => isRun (fun c => c == '0' || c == '1' || c == '_') r
  | '0' :: 'x' :: r =>
    isRun (fun c => c.isDigit || ('a' ≤ c && c ≤ 'f') || ('A' ≤ c && c ≤ 'F') || c == '_') r
  | '0' :: r => isRun (fun c => ('0' ≤ c && c ≤ '7') || c == '_') r
  | s => match afterPositive s with
    | some [] => true
    | some r => endsSixtieths List.isEmpty r
    | none => false

def isExponent : List Char → Bool
  | [] => true
  | e :: s :: r => (e == 'e' || e == 'E') && (s == '-' || s == '+') && isRun Char.isDigit r
  | _ => false

def isPointed (s : List Char) : Bool :=
  match s with
  | c :: r =>
    c.isDigit && match r.dropWhile isDigitOrBar with
      | '.' :: part => isExponent (part.dropWhile isDigitOrBar)
      | rest => endsSixtieths (fun t => match t with
          | '.' :: part => part.all isDigitOrBar
          | _ => false) rest
  | [] => false

def isFraction : List Char → Bool
  | '.' :: c :: r => c.isDigit && isExponent (r.dropWhile isDigitOrBar)
  | _ => false

def isInfinity (s : List Char) : Bool :=
  [".inf", ".Inf", ".INF"].contains (String.ofList s)

def isFloat (s : List Char) : Bool :=
  isPointed (unsigned s) || isFraction s || isInfinity (unsigned s) ||
    [".nan", ".NaN", ".NAN"].contains (String.ofList s)

end Form

structure WrittenTime where
  year : List Char
  month : List Char
  day : List Char
  /-- Hour, minute, second, the digits of the fraction, and the zone. -/
  time : Option (List Char × List Char × List Char × List Char × Option (List Char))

namespace WrittenTime

/-- A given number of digits, or one of them fewer, and what follows. -/
def digits? (least greatest : Nat) (s : List Char) : Option (List Char × List Char) :=
  let ds := (s.take greatest).takeWhile Char.isDigit
  if least ≤ ds.length then some (ds, s.drop ds.length) else none

def after? (c : Char) : List Char → Option (List Char)
  | d :: r => if d == c then some r else none
  | [] => none

/-- A zone at the end of a time: `Z`, or a sign, an hour and maybe minutes. -/
def isZone (s : List Char) : Bool :=
  match s with
  | ['Z'] => true
  | c :: r =>
    (c == '-' || c == '+') && match digits? 1 2 r with
      | some (_, []) => true
      | some (_, ':' :: r) => r.length == 2 && r.all Char.isDigit
      | _ => false
  | [] => false

/-- The zone at the end of a time, if there is one; blanks may stand before it. -/
def zone? (s : List Char) : Option (Option (List Char)) :=
  if s.isEmpty then some none
  else
    let r := s.dropWhile fun c => c == ' ' || c == '\t'
    if isZone r then some (some r) else none

def separated? : List Char → Option (List Char)
  | c :: r =>
    if c == 'T' || c == 't' then some r
    else if c == ' ' || c == '\t' then some (r.dropWhile fun c => c == ' ' || c == '\t')
    else none
  | [] => none

/-- The parts of a day, or of a day and a time of day. -/
def read? (s : List Char) : Option WrittenTime := do
  let (year, r) ← digits? 4 4 s
  let (month, r) ← digits? 1 2 (← after? '-' r)
  let (day, r) ← digits? 1 2 (← after? '-' r)
  if r.isEmpty then return ⟨year, month, day, none⟩
  else
    let (hour, r) ← digits? 1 2 (← separated? r)
    let (minute, r) ← digits? 2 2 (← after? ':' r)
    let (second, r) ← digits? 2 2 (← after? ':' r)
    let (fraction, r) := match r with
      | '.' :: r => (r.takeWhile Char.isDigit, r.dropWhile Char.isDigit)
      | r => ([], r)
    return ⟨year, month, day, some (hour, minute, second, fraction, ← zone? r)⟩

/-- A plain scalar of this form is a time: a day alone has two digits for month and day. -/
def isPlain (t : WrittenTime) : Bool :=
  t.time.isSome || (t.month.length == 2 && t.day.length == 2)

end WrittenTime

/-- The text without a line feed at its end; a text is of a form also if it ends with one. -/
def withoutFinalBreak (s : List Char) : List Char := if s.getLast? == some '\n' then s.dropLast else s

def tagOfForm (s : List Char) : String :=
  let text := String.ofList s
  if Form.isBool text then coreTag "bool"
  else if Form.isFloat s then coreTag "float"
  else if Form.isUnsignedInt (Form.unsigned s) then coreTag "int"
  else if text == "<<" then mergeTag
  else if Form.isNull text then nullTag
  else if (WrittenTime.read? s).any WrittenTime.isPlain then coreTag "timestamp"
  else if text == "=" then valueTag
  else if text == "!" || text == "&" || text == "*" then coreTag "yaml"
  else textTag

/-- The tag that a scalar has by its text; the empty one stands for nothing. -/
def implicitTag (text : Text.Points) : String :=
  if text.isEmpty then nullTag else tagOfForm (withoutFinalBreak text.chars)

end Horn.Yaml

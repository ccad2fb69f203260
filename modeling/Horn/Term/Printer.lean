import Horn.Decimal.Integer
import Horn.Term.Basic

/-!
The text of a term. Comparisons and arithmetic stand between their operands, with parentheses where
the operands bind no tighter; all other applications are names before arguments in parentheses. A
text goes only so deep and so wide, and dots stand for what is left out; they also stand for all terms
looked at after a certain number of others.
-/

namespace Horn.Term

open Text (Doc)

inductive Writing where
  /-- Before its arguments. -/
  | before (name : String)
  /-- Between its operands, with or without blanks, binding at the given level. -/
  | between (sign : String) (blanks : Bool) (level : Nat)
  /-- The element of an array. -/
  | index

/-- The writing of an operator. Products and quotients bind tighter than sums and differences, and
these tighter than comparisons. -/
def writing : Operator → Writing
  | .ite => .before "If"
  | .not => .before "Not"
  | .and => .before "And"
  | .or => .before "Or"
  | .implies => .before "Implies"
  | .eq => .between "==" true 8
  | .lt => .between "<" true 8
  | .le => .between "<=" true 8
  | .gt => .between ">" true 8
  | .ge => .between ">=" true 8
  | .add => .between "+" true 3
  | .sub => .between "-" true 3
  | .mul => .between "*" false 2
  | .div => .between "/" false 2
  | .select => .index
  | .store => .before "Store"

/-- The level at which a term binds, if an operator stands between its operands. -/
def level? : Term → Option Nat
  | .op o (_ :: _) => match writing o with
    | .between _ _ l => some l
    | _ => none
  | _ => none

def isOp (o : Operator) : Term → Bool
  | .op o' (_ :: _) => o == o'
  | _ => false

/-- An operand of the given operator stands without parentheses. -/
def stands (o : Operator) (l : Nat) (first : Bool) (t : Term) : Bool :=
  match t with
  | .quant _ _ _ => false
  | _ => match t.level? with
    | none => true
    | some m => decide (m < l) || (o == .add && isOp .sub t) || (o == .sub && first && isOp .add t)

/-- The operands of an operand of the same operator join those around it. -/
def joins (o : Operator) (first : Bool) (t : Term) : Bool :=
  isOp o t && (o == .add || o == .mul || (o == .sub && first))

def maxDepth : Nat := 20

def maxArgs : Nat := 128

/-- How many terms are looked at. An operand that joins those around it counts twice, once as a whole
and once by its operands. -/
def maxVisits : Nat := 10000

def dots : Doc := .text "..."

/-- Operands with the sign of their operator between them, which stands before a line break. -/
def infixDoc (sign : String) (blanks : Bool) (ds : List Doc) : Doc :=
  .group (.seq (if blanks then Doc.separated (" " ++ sign) " " ds else Doc.separated sign "" ds))

def parenthesized (d : Doc) : Doc := .seq [.text "(", .indent 1 d, .text ")"]

def elementDoc (a i : Doc) : Doc := .seq [a, .indent 2 (.seq [.text "[", i, .text "]"])]

/-- The text of a bound variable among the names of the binders around it, the innermost last. -/
def varText (names : List String) (i : Nat) : String :=
  match names.reverse[i]? with
  | some n => n
  | none => "Var(" ++ Decimal.text i ++ ")"

def quantDoc (q : Quantifier) (names : List String) (body : Doc) : Doc :=
  let bound := match names.map Doc.text with
    | [n] => n
    | ns => .group (.indent 1 (.seq [.text "[", .seq (Doc.separated "," " " ns), .text "]"]))
  .call (match q with | .all => "ForAll" | .any => "Exists") [bound, body]

/-- Laying out terms, with the number of terms looked at so far. -/
abbrev Laying (α : Type) := StateM Nat α

/-- Looks at one more term at a depth, unless that is too deep or there were too many. -/
def visit (depth : Nat) (lay : Laying Doc) : Laying Doc := do
  let n ← get
  set (n + 1)
  if maxDepth < depth ∨ maxVisits < n + 1 then return dots else lay

mutual

/-- The text of a term at a depth, among the names of the binders around it. -/
def docAt (d : Nat) (names : List String) : Term → Laying Doc
  | .bool b => visit d (return .text (if b then "True" else "False"))
  | .int n => visit d (return .text (Decimal.text n))
  | .app f as => visit d do
    if as.isEmpty then return .text f.text
    return .call f.text (← docsAt (d + 1) names 0 as)
  | .op o as => visit d do
    match writing o with
    | .before n =>
      if as.isEmpty then return .text n
      return .call n (← docsAt (d + 1) names 0 as)
    | .between sign blanks l => return infixDoc sign blanks (← operandDocs (d + 1) names o l true [] as)
    | .index => do
      match ← docsAt (d + 1) names 0 as with
      | [a, i] => return elementDoc a i
      | ds => return .call "Select" ds
  | .var i _ => visit d (return .text (varText names i))
  | .quant q bs t => visit d do
    let own := bs.map fun b => Symbol.shownName b.1
    return quantDoc q own (← docAt (d + 1) (names ++ own) t)

def docsAt (d : Nat) (names : List String) (before : Nat) : List Term → Laying (List Doc)
  | [] => return []
  | t :: ts => do
    let a ← docAt d names t
    if maxArgs ≤ before then return [a, dots]
    return a :: (← docsAt d names (before + 1) ts)

/-- The texts of the operands of an operator after those given, those that join it taken apart. -/
def operandDocs (d : Nat) (names : List String) (o : Operator) (l : Nat) (first : Bool)
    (before : List Doc) : List Term → Laying (List Doc)
  | [] => return before
  | t :: ts => do
    let a ← docAt d names t
    if joins o first t then
      let all ← joined d names o l before t
      if maxArgs < all.length then return all
      operandDocs d names o l false all ts
    else
      let all := before ++ [if stands o l first t then a else parenthesized a]
      if maxArgs < all.length then return all ++ [dots]
      operandDocs d names o l false all ts

/-- The texts of the operands of an operand after those given. -/
def joined (d : Nat) (names : List String) (o : Operator) (l : Nat) (before : List Doc) :
    Term → Laying (List Doc)
  | .op _ as => operandDocs d names o l true before as
  | _ => return before

end

def text (t : Term) : String := ((docAt 0 [] t).run 0).1.render

end Horn.Term

import Horn.Derivation.Admission
import Horn.Derivation.Saturation

/-!
Rules without variables as propositions. Relations are worked out from below: those that a rule denies
are known in full before it is used, so a denied relation holds exactly if it does not follow.
-/

namespace Horn

namespace Term

/-- The truth of a formula without variables where exactly the given facts hold. -/
def truthIn? (φs : List Fact) : Term → Option Bool
  | .app f as => (data? [] as).map fun ds => φs.contains ⟨f, ds⟩
  | .op .not [a] => (truthIn? φs a).map (!·)
  | .op .and [a, b] => do return (← truthIn? φs a) && (← truthIn? φs b)
  | .op .or [a, b] => do return (← truthIn? φs a) || (← truthIn? φs b)
  | .op .implies [a, b] => do return !(← truthIn? φs a) || (← truthIn? φs b)
  | t => match t.datum? [] with
    | some (.bool b) => some b
    | _ => none

end Term

namespace Strata

/-- The facts with that of a rule, if its body holds. -/
def fire (φs : List Fact) (rule : Term) : Option (List Fact) := do
  let (f, as, b) ← rule.headAndBody?
  let ds ← Term.data? [] as
  let φ : Fact := ⟨f, ds⟩
  if (← b.truthIn? φs) && !φs.contains φ then some (φs ++ [φ]) else some φs

/-- The facts that follow from rules that deny nothing that they conclude. Each round but the last one
adds a fact, and there are no more of them than rules. -/
def close (rules : List Term) : Nat → List Fact → Option (List Fact)
  | 0, φs => some φs
  | n + 1, φs => (rules.foldlM fire φs).bind (close rules n)

def rulesAt (S : Strata) (rules : List Term) (n : Nat) : List Term :=
  rules.filter fun r => r.headAndBody?.any fun (f, _, _) => S.place f == n

def facts? (S : Strata) (rules : List Term) : Option (List Fact) :=
  let top := S.foldl (fun n e => max n e.2) 0
  (List.range (top + 1)).foldlM (fun φs n =>
    let rs := S.rulesAt rules n
    close rs rs.length φs) []

end Strata

def Term.followsFrom? (goal : Term) (rules : List Term) : Option Bool := do
  let S ← Strata.ofRules? rules
  goal.matrix.truthIn? (← S.facts? rules)

end Horn

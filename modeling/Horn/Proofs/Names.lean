import Mathlib.Tactic.Lemma
import Horn.Session.Rule

/-!
The names of an expression, in the order in which they are searched. Main statement: the search through
pending expressions finds the first of their names that passes the test.
-/

namespace Horn.Expr

mutual

/-- The names of an expression: that of the root, then those of the arguments, the last argument
first. -/
def names : Expr → List String
  | .node n as _ => n :: namesOfAll as

def namesOfAll : List Expr → List String
  | [] => []
  | e :: es => namesOfAll es ++ e.names

end

lemma namesOfAll_eq (es : List Expr) : namesOfAll es = es.reverse.flatMap names := by
  induction es with
  | nil => rfl
  | cons e es ih => simp [namesOfAll, ih]

/-- **The search finds the first name that passes the test**, root first and last argument first. -/
theorem searchName_eq_find? (p : String → Bool) (es : List Expr) :
    searchName p es = (es.flatMap names).find? p := by
  fun_induction searchName p es with
  | case1 => rfl
  | case2 n as s es hp => simp [names, hp]
  | case3 n as s es hp ih =>
    rw [List.unattach_reverse, List.unattach_attach, List.flatMap_append] at ih
    rw [ih, List.flatMap_cons, names, namesOfAll_eq, List.cons_append, List.find?_cons_of_neg hp]

lemma searchName_eq_none_iff {p : String → Bool} {e : Expr} :
    searchName p [e] = none ↔ ∀ n ∈ e.names, p n = false := by
  rw [searchName_eq_find?, List.find?_eq_none]
  simp

end Horn.Expr

import Mathlib.Data.List.Infix
import Horn.Proofs.Sorting.Translation

/-!
Where translation fails. The parts of an expression stand in the order in which their terms are made, the
arguments from left to right before the whole. Main statement: an expression fails exactly as the first of
its parts does that has no term, and the failure is one of that part's own root.
-/

namespace Horn

def failure? {ε α : Type} : Except ε α → Option ε
  | .ok _ => none
  | .error x => some x

section

variable {ε α : Type} {y : Except ε α}

lemma failure?_eq_some_iff {x : ε} : failure? y = some x ↔ y = .error x := by
  cases y <;> simp [failure?]

lemma failure?_eq_none_iff : failure? y = none ↔ ∃ a, y = .ok a := by
  cases y <;> simp [failure?]

end

/-- **The error is one of the root of the expression**: all that it reports are the name and the number of
arguments of that root, or the expression itself. -/
def TermError.IsOf (e : Expr) : TermError → Prop
  | .arity n _ m => n = e.name ∧ m = e.args.length
  | .applied n | .unknown n => n = e.name
  | .undeclared n => n = e.name ∧ e.args = []
  | .operatorArity o m => o.name = e.name ∧ m = e.args.length
  | .refused u => u = e
  | .arrayAsInt => True
  | .notFormula _ _ | .notHead _ => False

namespace Expr

/-! ### Parts in the order of their terms -/

mutual

/-- The parts of an expression: those of its arguments, from left to right, and then the whole. -/
def parts : Expr → List Expr
  | .node n as s => partsOfAll as ++ [.node n as s]

def partsOfAll : List Expr → List Expr
  | [] => []
  | e :: es => e.parts ++ partsOfAll es

end

mutual

/-- **The proper parts of a part stand right before it.** -/
theorem partsOfAll_args_suffix {e s : Expr} {pre post : List Expr} (h : e.parts = pre ++ s :: post) :
    partsOfAll s.args <:+ pre := by
  match e with
  | .node n as a =>
    rw [parts] at h
    rcases List.append_eq_append_iff.mp h with ⟨mid, rfl, hmid⟩ | ⟨mid, hmid, hpost⟩
    · -- the root is the only part that comes after those of the arguments
      rcases List.singleton_eq_append_iff.mp hmid with ⟨rfl, hroot⟩ | ⟨-, hnil⟩
      · cases hroot
        exact ⟨[], by simp [args]⟩
      · cases hnil
    · rcases mid with _ | ⟨u, mid⟩
      · cases hpost
        exact ⟨[], by simpa [args] using hmid⟩
      · cases hpost
        exact partsOfAll_suffix hmid

theorem partsOfAll_suffix {es : List Expr} {s : Expr} {pre post : List Expr}
    (h : partsOfAll es = pre ++ s :: post) : partsOfAll s.args <:+ pre := by
  match es with
  | [] => simp [partsOfAll] at h
  | e :: es =>
    rw [partsOfAll] at h
    rcases List.append_eq_append_iff.mp h with ⟨mid, rfl, hmid⟩ | ⟨mid, hmid, hpost⟩
    · exact (partsOfAll_suffix hmid).trans (List.suffix_append _ _)
    · rcases mid with _ | ⟨u, mid⟩
      · have hes : partsOfAll es = [] ++ s :: post := hpost.symm
        exact (partsOfAll_suffix hes).trans List.nil_suffix
      · cases hpost
        exact partsOfAll_args_suffix hmid

end

/-! ### Failures of roots -/

variable {Γ : Symbols}

lemma blame_eq_error {e : Expr} {y : Except CastError Term} {x : TermError}
    (h : blame e y = .error x) : x.IsOf e := by
  rcases y with (_ | _) | t
  · cases h; rfl
  · cases h; trivial
  · cases h

/-- **What goes wrong at a root is blamed on it.** -/
lemma rootTerm_eq_error {e : Expr} {ts : List Term} {x : TermError} (hl : e.args.length = ts.length)
    (h : rootTerm Γ e ts = .error x) : x.IsOf e := by
  unfold rootTerm at h
  split at h
  · split at h
    · exact blame_eq_error h
    · cases h
      exact ⟨rfl, hl.symm⟩
  · split at h
    · cases h
      rfl
    · unfold undeclaredTerm at h
      split at h
      · have hnil : e.args = [] := List.eq_nil_of_length_eq_zero hl
        unfold literalTerm at h
        split at h
        · cases h
        · split at h
          · cases h
          · split at h
            · cases h
            · cases h
              exact ⟨rfl, hnil⟩
      · split at h
        · cases h
          rfl
        · rename_i o ho
          split at h
          · exact blame_eq_error h
          · cases h
            exact ⟨Operator.ofName?_eq_some_iff.mp ho, hl.symm⟩

lemma length_toTerms {es : List Expr} {ts : List Term} (h : toTerms Γ es = .ok ts) :
    es.length = ts.length := by
  induction es generalizing ts with
  | nil => rw [toTerms] at h; cases h; rfl
  | cons e es ih =>
    obtain ⟨t, us, -, hus, rfl⟩ := toTerms_cons_eq_ok h
    rw [List.length_cons, List.length_cons, ih hus]

/-- Where the arguments have terms, the error is one of the root. -/
lemma isOf_of_toTerm {e : Expr} {x : TermError} (h : e.toTerm Γ = .error x) {ts : List Term}
    (hts : toTerms Γ e.args = .ok ts) : x.IsOf e := by
  obtain ⟨n, as, a⟩ := e
  unfold toTerm at h
  split at h
  · cases h
  · rcases bind_eq_error.mp h with h | ⟨us, hus, h⟩
    · cases hts.symm.trans h
    · exact rootTerm_eq_error (length_toTerms hus) h

/-- A failing argument makes the whole fail in the same way. -/
lemma toTerm_of_toTerms {n : String} {as : List Expr} {a : SortSpec} {x : TermError}
    (h : toTerms Γ as = .error x) : toTerm Γ (.node n as a) = .error x := by
  have hne : as ≠ [] := by
    rintro rfl
    rw [toTerms] at h
    cases h
  rw [toTerm_node fun hnil => absurd hnil hne, h]
  rfl

/-! ### The first failure -/

lemma failure?_toTerms_cons (e : Expr) (es : List Expr) : failure? (toTerms Γ (e :: es)) =
    (failure? (e.toTerm Γ)).or (failure? (toTerms Γ es)) := by
  rw [toTerms]
  rcases e.toTerm Γ with x | t
  · rfl
  · rcases toTerms Γ es with x | ts <;> rfl

mutual

/-- **The first failure among the parts of an expression is its own.** -/
theorem findSome?_parts (e : Expr) :
    (e.parts.findSome? fun u => failure? (u.toTerm Γ)) = failure? (e.toTerm Γ) := by
  match e with
  | .node n as a =>
    rw [parts, List.findSome?_append, findSome?_partsOfAll as, List.findSome?_singleton]
    rcases hts : toTerms Γ as with x | ts
    · rw [toTerm_of_toTerms hts]
      rfl
    · rfl

theorem findSome?_partsOfAll (es : List Expr) :
    ((partsOfAll es).findSome? fun u => failure? (u.toTerm Γ)) = failure? (toTerms Γ es) := by
  match es with
  | [] => rw [partsOfAll, toTerms]; rfl
  | e :: es =>
    rw [partsOfAll, List.findSome?_append, findSome?_parts e, findSome?_partsOfAll es,
      failure?_toTerms_cons]

end

/-- Expressions whose parts have terms have terms. -/
lemma exists_toTerms_of_parts {es : List Expr} (h : ∀ u ∈ partsOfAll es, ∃ t, u.toTerm Γ = .ok t) :
    ∃ ts, toTerms Γ es = .ok ts := by
  rw [← failure?_eq_none_iff, ← findSome?_partsOfAll, List.findSome?_eq_none_iff]
  exact fun u hu => failure?_eq_none_iff.mpr (h u hu)

/-- **Translation blames the first part that has no term.** Whatever is declared, an expression fails with
an error exactly if some part of it fails with this very error, while all parts before it, its own proper
parts among them, have terms; and the error is one of the root of that part. -/
theorem toTerm_fails_first (Γ : Symbols) (e : Expr) (x : TermError) :
    e.toTerm Γ = .error x ↔ ∃ pre s post, e.parts = pre ++ s :: post ∧
      (∀ u ∈ pre, ∃ t, u.toTerm Γ = .ok t) ∧ partsOfAll s.args <:+ pre ∧
      s.toTerm Γ = .error x ∧ x.IsOf s := by
  rw [← failure?_eq_some_iff, ← findSome?_parts, List.findSome?_eq_some_iff]
  simp only [failure?_eq_some_iff, failure?_eq_none_iff]
  constructor
  · rintro ⟨pre, s, post, hparts, hs, hpre⟩
    have hsuffix := partsOfAll_args_suffix hparts
    obtain ⟨ts, hts⟩ := exists_toTerms_of_parts fun u hu => hpre u (hsuffix.subset hu)
    exact ⟨pre, s, post, hparts, hpre, hsuffix, hs, isOf_of_toTerm hs hts⟩
  · rintro ⟨pre, s, post, hparts, hpre, -, hs, -⟩
    exact ⟨pre, s, post, hparts, hs, hpre⟩

/-- Of two faulty arguments the left one is blamed, by its own fault. -/
example : (Expr.node "and" [.node "not" [.symbol "w" .bool] .bool, .node "+" [.ofInt 1] .int] .bool).toTerm
    .empty = .error (.undeclared "w") := by
  with_unfolding_all rfl

end Expr

end Horn

import Horn.Proofs.Declarable

/-!
Equality of expressions and what is looked at of them. Main statement: on expressions whose annotations
are sorts, equality holds between no expressions but the same; and no translation depends on annotations,
which show at most in the expression that an error tells of, and not in the words for it.
-/

namespace Horn

namespace Expr

/-! ### Equality -/

/-- **An expression whose annotations are sorts**, or missing. -/
inductive IsPlain : Expr → Prop where
  | node {n : String} {as : List Expr} {s : SortSpec} (has : ∀ a ∈ as, IsPlain a) (hs : s.IsPlain) :
    IsPlain (.node n as s)

lemma sameAll_iff {as bs : List Expr} (h : ∀ a ∈ as, ∀ {b}, a.same b = true ↔ a = b) :
    sameAll as bs = true ↔ as = bs := by
  induction as generalizing bs with
  | nil => cases bs <;> simp [sameAll]
  | cons a as ih =>
    rw [List.forall_mem_cons] at h
    cases bs <;> simp [sameAll, h.1, ih h.2]

/-- **Plain expressions are equal to none but themselves.** -/
lemma IsPlain.same_iff {a b : Expr} (h : a.IsPlain) : a.same b = true ↔ a = b := by
  induction h generalizing b with
  | node _ hs ih =>
    cases b
    simp only [same, Bool.and_eq_true, beq_iff_eq, hs.same_iff, sameAll_iff ih, node.injEq]
    tauto

/-- Equality of plain expressions is an equivalence. -/
lemma same_equivalence : Equivalence fun a b : {e : Expr // e.IsPlain} => a.1.same b.1 = true where
  refl a := a.2.same_iff.mpr rfl
  symm {a _} h := by
    rw [← a.2.same_iff.mp h]
    exact a.2.same_iff.mpr rfl
  trans {a b _} hab hbc := by
    rw [← b.2.same_iff.mp hbc]
    exact hab

/-! ### Expressions without annotations -/

mutual

def bare : Expr → Expr
  | .node n as _ => .node n (bareAll as) .absent

def bareAll : List Expr → List Expr
  | [] => []
  | e :: es => e.bare :: bareAll es

end

mutual

/-- **Equal expressions differ in annotations at most.** -/
theorem bare_eq_of_same {a b : Expr} (h : a.same b = true) : a.bare = b.bare := by
  match a, b with
  | .node n as s, .node m bs t =>
    simp only [same, Bool.and_eq_true, beq_iff_eq] at h
    obtain ⟨⟨rfl, -⟩, hall⟩ := h
    rw [bare, bare, bareAll_eq_of_sameAll hall]

theorem bareAll_eq_of_sameAll {as bs : List Expr} (h : sameAll as bs = true) :
    bareAll as = bareAll bs := by
  match as, bs with
  | [], [] => rfl
  | [], _ :: _ => cases h
  | _ :: _, [] => cases h
  | a :: as, b :: bs =>
    simp only [sameAll, Bool.and_eq_true] at h
    rw [bareAll, bareAll, bare_eq_of_same h.1, bareAll_eq_of_sameAll h.2]

end

@[simp] lemma name_bare (e : Expr) : e.bare.name = e.name := by
  cases e
  rfl

@[simp] lemma isEmpty_args_bare (e : Expr) : e.bare.args.isEmpty = e.args.isEmpty := by
  obtain ⟨n, as, s⟩ := e
  cases as <;> rfl

mutual

theorem names_bare (e : Expr) : e.bare.names = e.names := by
  match e with
  | .node n as s => rw [bare, names, names, namesOfAll_bareAll]

theorem namesOfAll_bareAll (es : List Expr) : namesOfAll (bareAll es) = namesOfAll es := by
  match es with
  | [] => rfl
  | e :: es => rw [bareAll, namesOfAll, namesOfAll, namesOfAll_bareAll, names_bare]

end

mutual

/-- No annotation shows in the text of an expression. -/
theorem text_bare (e : Expr) : e.bare.text = e.text := by
  match e with
  | .node n [] s => rfl
  | .node n (a :: as) s => rw [bare, bareAll, text, text, text_bare, texts_bareAll]

theorem texts_bareAll (es : List Expr) : texts (bareAll es) = texts es := by
  match es with
  | [] => rfl
  | e :: es => rw [bareAll, texts, texts, text_bare, texts_bareAll]

end

end Expr

/-! ### Translation -/

def TermError.bare : TermError → TermError
  | .refused e => .refused e.bare
  | .notFormula e s => .notFormula e.bare s
  | .notHead e => .notHead e.bare
  | x => x

/-- No annotation shows in the words for an error. -/
lemma TermError.message?_bare (x : TermError) : x.bare.message? = x.message? := by
  cases x <;> simp only [bare, message?, Expr.text_bare]

lemma mapError_bind {α β ε ε' : Type} (g : ε → ε') (x : Except ε α) (f : α → Except ε β) :
    (x >>= f).mapError g = x.mapError g >>= fun a => (f a).mapError g := by
  cases x <;> rfl

namespace Expr

variable (Γ : Symbols)

lemma blame_bare (e : Expr) (r : Except CastError Term) :
    blame e.bare r = (blame e r).mapError TermError.bare := by
  rcases r with (_ | _) | t <;> rfl

lemma literalTerm_bare (n : String) : (literalTerm n).mapError TermError.bare = literalTerm n := by
  unfold literalTerm
  split
  · rfl
  · split
    · rfl
    · split <;> rfl

lemma undeclaredTerm_bare (e : Expr) (ts : List Term) :
    undeclaredTerm e.bare ts = (undeclaredTerm e ts).mapError TermError.bare := by
  unfold undeclaredTerm
  rw [name_bare]
  split
  · exact (literalTerm_bare _).symm
  · split
    · rfl
    · split
      · exact blame_bare e _
      · rfl

lemma rootTerm_bare (e : Expr) (ts : List Term) :
    rootTerm Γ e.bare ts = (rootTerm Γ e ts).mapError TermError.bare := by
  unfold rootTerm
  rw [name_bare]
  split
  · split
    · exact blame_bare e _
    · rfl
  · split
    · rfl
    · exact undeclaredTerm_bare e ts

mutual

/-- **No translation depends on annotations**, but for the expression that an error tells of. -/
theorem toTerm_bare (e : Expr) : e.bare.toTerm Γ = (e.toTerm Γ).mapError TermError.bare := by
  match e with
  | .node n [] s =>
    have hroot := rootTerm_bare Γ (.node n [] s) []
    rw [bare, bareAll] at hroot ⊢
    unfold toTerm
    split
    · rfl
    · rw [toTerms]
      exact hroot
  | .node n (a :: as) s =>
    have hargs := toTerms_bareAll (a :: as)
    have hroot := rootTerm_bare Γ (.node n (a :: as) s)
    rw [bare, bareAll] at hroot
    rw [bareAll] at hargs
    rw [bare, bareAll, toTerm, toTerm, mapError_bind, hargs]
    · simp only [hroot]
    · simp
    · simp

theorem toTerms_bareAll (es : List Expr) :
    toTerms Γ (bareAll es) = (toTerms Γ es).mapError TermError.bare := by
  match es with
  | [] => rfl
  | e :: es =>
    rw [bareAll, toTerms, toTerms, mapError_bind, toTerm_bare e]
    simp only [mapError_bind, toTerms_bareAll es]
    rfl

end

lemma toFormula_bare (e : Expr) : e.bare.toFormula Γ = (e.toFormula Γ).mapError TermError.bare := by
  unfold toFormula
  rw [mapError_bind, toTerm_bare]
  refine congrArg _ (funext fun t => ?_)
  split <;> rfl

section

variable {Γ} {a b : Expr} (h : a.bare = b.bare)
include h

lemma name_eq_of_bare_eq : a.name = b.name := by
  rw [← a.name_bare, h, b.name_bare]

lemma toTerm_eq_of_bare_eq :
    (a.toTerm Γ).mapError TermError.bare = (b.toTerm Γ).mapError TermError.bare := by
  rw [← toTerm_bare, h, toTerm_bare]

lemma toFormula_eq_of_bare_eq :
    (a.toFormula Γ).mapError TermError.bare = (b.toFormula Γ).mapError TermError.bare := by
  rw [← toFormula_bare, h, toFormula_bare]

end

end Expr

end Horn

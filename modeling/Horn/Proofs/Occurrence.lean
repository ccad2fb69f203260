import Mathlib.Data.List.Perm.Basic
import Horn.Proofs.Closure

/-!
The occurrences of symbols in translated terms. Casts, swapped sides and products neither drop a symbol nor
repeat one. Main statement: the symbols of a translated term are those of the declared names of its
expression, each as often as it is named there.
-/

namespace Horn

namespace Term

/-! ### Applied symbols and operators -/

@[simp] lemma symbols_op (o : Operator) (ts : List Term) : (op o ts).symbols = symbolsOfAll ts := rfl

@[simp] lemma symbols_int (n : Int) : (int n).symbols = [] := rfl

@[simp] lemma symbolsOfAll_nil : symbolsOfAll [] = [] := rfl

@[simp] lemma symbolsOfAll_cons (t : Term) (ts : List Term) :
    symbolsOfAll (t :: ts) = t.symbols ++ symbolsOfAll ts := rfl

@[simp] lemma symbols_boolToInt (t : Term) : t.boolToInt.symbols = t.symbols := by
  simp [boolToInt]

variable {a b c t u v i a' b' : Term} {o : Operator} {ts us : List Term}

lemma symbols_castTo {s : TermSort} (h : castTo s t = .ok u) : u.symbols = t.symbols := by
  unfold castTo at h
  split at h
  · cases h; rfl
  · split at h <;> cases h
    exact symbols_boolToInt t

lemma symbols_castAll {ss : List TermSort} (hl : ss.length = ts.length)
    (h : castAll ss ts = .ok us) : symbolsOfAll us = symbolsOfAll ts := by
  induction ss generalizing ts us with
  | nil =>
    rw [List.eq_nil_of_length_eq_zero hl.symm] at h ⊢
    cases h
    rfl
  | cons s ss ih =>
    rcases ts with _ | ⟨t, ts⟩
    · cases hl
    · obtain ⟨u, vs, hu, hvs, rfl⟩ := castAll_cons_eq_ok h
      simp [symbols_castTo hu, ih (Nat.succ.inj hl) hvs]

lemma symbols_meet (h : meet a b = .ok (a', b')) :
    a'.symbols = a.symbols ∧ b'.symbols = b.symbols := by
  unfold meet at h
  split at h
  · cases h; simp
  · cases h; simp
  · split at h <;> cases h
    exact ⟨rfl, rfl⟩

lemma symbols_meetInt (h : meetInt a b = .ok (a', b')) :
    a'.symbols = a.symbols ∧ b'.symbols = b.symbols := by
  unfold meetInt at h
  split at h <;> cases h <;> simp

lemma symbols_sum (h : sum a b = .ok u) : u.symbols = symbolsOfAll [a, b] := by
  unfold sum at h
  split at h
  · cases h; simp
  · obtain ⟨⟨a', b'⟩, hm, h⟩ := bind_eq_ok h
    cases h
    simp [symbols_meetInt hm]

/-- A product with a Boolean factor tests that factor first, whichever side it stood on. -/
lemma symbols_product (h : product a b = .ok u) : u.symbols.Perm (symbolsOfAll [a, b]) := by
  unfold product at h
  split at h <;> cases h
  · simp
  · simpa using List.perm_append_comm
  · simp
  · simp

lemma symbols_arith (h : arith o a b = .ok u) : u.symbols = symbolsOfAll [a, b] := by
  unfold arith at h
  obtain ⟨⟨a', b'⟩, hm, h⟩ := bind_eq_ok h
  cases h
  simp [symbols_meetInt hm]

lemma symbols_compare (h : compare o a b = .ok u) : u.symbols.Perm (symbolsOfAll [a, b]) := by
  unfold compare at h
  obtain ⟨⟨a', b'⟩, hm, h⟩ := bind_eq_ok h
  cases h
  obtain ⟨ha, hb⟩ := symbols_meetInt hm
  split
  · simpa [ha, hb] using List.perm_append_comm
  · simp [ha, hb]

lemma symbols_equation (h : equation a b = .ok u) : u.symbols.Perm (symbolsOfAll [a, b]) := by
  unfold equation at h
  obtain ⟨⟨a', b'⟩, hm, h⟩ := bind_eq_ok h
  cases h
  obtain ⟨ha, hb⟩ := symbols_meet hm
  split
  · simpa [ha, hb] using List.perm_append_comm
  · simp [ha, hb]

lemma symbols_choice (h : choice c a b = .ok u) : u.symbols = symbolsOfAll [c, a, b] := by
  unfold choice at h
  split at h
  · obtain ⟨⟨a', b'⟩, hm, h⟩ := bind_eq_ok h
    cases h
    simp [symbols_meet hm]
  · cases h

lemma symbols_element (h : element a i = .ok u) : u.symbols = symbolsOfAll [a, i] := by
  unfold element at h
  split at h
  · obtain ⟨j, hj, h⟩ := bind_eq_ok h
    cases h
    simp [symbols_castTo hj]
  · cases h

lemma symbols_update (h : update a i v = .ok u) : u.symbols = symbolsOfAll [a, i, v] := by
  unfold update at h
  split at h
  · obtain ⟨j, hj, h⟩ := bind_eq_ok h
    obtain ⟨w, hw, h⟩ := bind_eq_ok h
    cases h
    simp [symbols_castTo hj, symbols_castTo hw]
  · cases h

lemma symbols_connect (h : connect o ts = .ok u) : u.symbols = symbolsOfAll ts := by
  unfold connect at h
  split at h <;> cases h
  rfl

/-- **An operator neither drops a symbol of its arguments nor repeats one.** -/
lemma symbols_ofOperator (h : ofOperator o ts = .ok u) : u.symbols.Perm (symbolsOfAll ts) := by
  unfold ofOperator at h
  split at h
  all_goals first
    | exact .of_eq (symbols_connect h)
    | exact .of_eq (symbols_choice h)
    | exact symbols_equation h
    | exact symbols_compare h
    | exact .of_eq (symbols_sum h)
    | exact .of_eq (symbols_arith h)
    | exact symbols_product h
    | exact .of_eq (symbols_element h)
    | exact .of_eq (symbols_update h)
    | cases h

end Term

namespace Symbols

def symbol? (Γ : Symbols) (n : String) : Option Symbol := (Γ.find? n).map (·.symbol)

section

variable {Γ : Symbols} (h : Γ.WellFormed) {n : String} {f : Symbol}
include h

lemma WellFormed.symbol?_of_function? (hf : Γ.function? n = some f) : Γ.symbol? n = some f := by
  obtain ⟨d, hd, -, rfl⟩ := h.function?_eq_some_iff.mp hf
  simp [symbol?, hd]

lemma WellFormed.symbol?_of_constant? (hc : Γ.constant? n = some f) : Γ.symbol? n = some f := by
  obtain ⟨d, hd, -, rfl⟩ := h.constant?_eq_some_iff.mp hc
  simp [symbol?, hd]

end

end Symbols

/-! ### Translated terms -/

namespace Expr

variable {Γ : Symbols}

mutual

/-- **The symbols of a translated term are those of the declared names of its expression**, each as
often as it is named. -/
theorem toTerm_symbols (hΓ : Γ.WellFormed) : ∀ {e : Expr} {t : Term}, toTerm Γ e = .ok t →
    t.symbols.Perm (e.names.filterMap Γ.symbol?)
  | .node n as s, t, h => by
    rw [names]
    rcases toTerm_eq_ok h with ⟨c, rfl, hc, rfl⟩ | ⟨-, ts, hts, hr⟩
    · rw [List.filterMap_cons_some (hΓ.symbol?_of_constant? hc)]
      exact .refl _
    · have ih := toTerms_symbols hΓ hts
      rcases rootTerm_eq_ok hr with ⟨f, us, hf, hl, hus, rfl⟩ | ⟨hf, hc, hu⟩
      · rw [List.filterMap_cons_some (hΓ.symbol?_of_function? (n := n) hf), Term.symbols,
          Term.symbols_castAll hl hus]
        exact ih.cons f
      · have hn : Γ.symbol? n = none := by
          rw [Symbols.symbol?, Symbols.find?_eq_none_iff_kinds (n := n) |>.mpr ⟨hf, hc⟩, Option.map_none]
        rw [List.filterMap_cons_none hn]
        rcases hu with ⟨rfl, hlit⟩ | ⟨-, o, -, ho⟩
        · rcases literalTerm_eq_ok hlit with ⟨-, rfl⟩ | ⟨-, rfl⟩ | ⟨-, -, k, -, rfl⟩
          all_goals exact ih
        · exact (Term.symbols_ofOperator ho).trans ih

theorem toTerms_symbols (hΓ : Γ.WellFormed) : ∀ {es : List Expr} {ts : List Term},
    toTerms Γ es = .ok ts →
      (Term.symbolsOfAll ts).Perm ((namesOfAll es).filterMap Γ.symbol?)
  | [], ts, h => by
    unfold toTerms at h
    cases h
    exact .refl _
  | e :: es, ts, h => by
    obtain ⟨t, us, ht, hus, rfl⟩ := toTerms_cons_eq_ok h
    rw [namesOfAll, List.filterMap_append, Term.symbolsOfAll_cons]
    exact ((toTerm_symbols hΓ ht).append (toTerms_symbols hΓ hus)).trans List.perm_append_comm

end

end Expr

end Horn

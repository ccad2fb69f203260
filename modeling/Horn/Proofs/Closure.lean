import Horn.Proofs.Shape

/-!
Terms closed over constants. Main statements: putting the constants back undoes closing, whatever the
term; a closed term is well scoped, each index with the sort of its variable; and closing a translated
term over the constants of its table leaves none of them in it.
-/

namespace Horn.Term

mutual

/-- The term with the given constants put back for the indices that a binder for them would bind, `k`
binders up; an index that points farther moves back past them all. -/
def openAt (cs : List Symbol) (k : Nat) : Term → Term
  | .bool b => .bool b
  | .int n => .int n
  | .app f as => .app f (openAllAt cs k as)
  | .op o as => .op o (openAllAt cs k as)
  | .var i s => if i < k then .var i s else match cs.reverse[i - k]? with
    | some c => .const c
    | none => .var (i - cs.length) s
  | .quant q bs t => .quant q bs (openAt cs (k + bs.length) t)

def openAllAt (cs : List Symbol) (k : Nat) : List Term → List Term
  | [] => []
  | t :: ts => openAt cs k t :: openAllAt cs k ts

end

mutual

def symbols : Term → List Symbol
  | .app f as => f :: symbolsOfAll as
  | .op _ as => symbolsOfAll as
  | .quant _ _ t => symbols t
  | _ => []

def symbolsOfAll : List Term → List Symbol
  | [] => []
  | t :: ts => symbols t ++ symbolsOfAll ts

end

mutual

/-- Every index points to a variable in sight and carries its sort; `Δ` holds the sorts of the variables
in sight, that of the index 0 first. -/
def isScoped (Δ : List TermSort) : Term → Bool
  | .bool _ | .int _ => true
  | .var i s => Δ[i]? == some s
  | .app _ as | .op _ as => areScoped Δ as
  | .quant _ bs t => t.isScoped ((bs.map (·.2)).reverse ++ Δ)

def areScoped (Δ : List TermSort) : List Term → Bool
  | [] => true
  | t :: ts => t.isScoped Δ && areScoped Δ ts

end

lemma mem_symbolsOfAll {f : Symbol} {ts : List Term} :
    f ∈ symbolsOfAll ts ↔ ∃ t ∈ ts, f ∈ t.symbols := by
  induction ts with
  | nil => simp [symbolsOfAll]
  | cons t ts ih => simp [symbolsOfAll, ih]

lemma areScoped_iff {Δ : List TermSort} {ts : List Term} :
    areScoped Δ ts = true ↔ ∀ t ∈ ts, t.isScoped Δ = true := by
  induction ts with
  | nil => simp [areScoped]
  | cons t ts ih => simp [areScoped, ih]

lemma closeAllAt_eq (cs : List Symbol) (k : Nat) (ts : List Term) :
    closeAllAt cs k ts = ts.map (closeAt cs k) := by
  induction ts with
  | nil => rfl
  | cons t ts ih => rw [closeAllAt, ih, List.map_cons]

/-! ### Closing the application of a symbol -/

section

variable {cs : List Symbol} {k : Nat} {f : Symbol}

/-- A constant among those that are bound becomes the index of the last place at which it stands. -/
lemma closeAt_const {i : Nat} (h : cs.reverse.idxOf? f = some i) :
    closeAt cs k (.app f []) = .var (k + i) f.range := by
  unfold closeAt
  rw [h]

lemma closeAt_app {as : List Term} (h : as = [] → cs.reverse.idxOf? f = none) :
    closeAt cs k (.app f as) = .app f (closeAllAt cs k as) := by
  unfold closeAt
  split
  · rename_i i hi
    rw [h rfl] at hi
    cases hi
  · rfl

/-- The place of a bound constant among the variables, the last constant first. -/
lemma getElem?_of_idxOf? {i : Nat} (h : cs.reverse.idxOf? f = some i) :
    cs.reverse[i]? = some f ∧ i < cs.length := by
  obtain ⟨hi, hf, -⟩ := List.idxOf?_eq_some_iff.mp h
  have hf' : cs.reverse[i] = f := by simpa using hf
  rw [List.length_reverse] at hi
  exact ⟨by rw [List.getElem?_eq_getElem (by simpa using hi), hf'], hi⟩

end

/-! ### Putting constants back -/

mutual

/-- **Putting the constants back undoes closing.** -/
theorem openAt_closeAt (cs : List Symbol) (k : Nat) (t : Term) :
    openAt cs k (closeAt cs k t) = t := by
  match t with
  | .bool b => rfl
  | .int n => rfl
  | .app f as =>
    rcases hi : cs.reverse.idxOf? f with _ | i
    · rw [closeAt_app fun _ => hi, openAt, openAllAt_closeAllAt cs k as]
    · rcases as with _ | ⟨a, as⟩
      · rw [closeAt_const hi, openAt, if_neg (by omega), Nat.add_sub_cancel_left,
          (getElem?_of_idxOf? hi).1]
        rfl
      · rw [closeAt_app (by simp), openAt, openAllAt_closeAllAt cs k (a :: as)]
  | .op o as => rw [closeAt, openAt, openAllAt_closeAllAt cs k as]
  | .var i s =>
    rw [closeAt, openAt]
    by_cases hk : k ≤ i
    · have hout : cs.reverse[i + cs.length - k]? = none := by
        rw [List.getElem?_eq_none_iff, List.length_reverse]
        omega
      rw [if_pos hk, if_neg (by omega), hout, Nat.add_sub_cancel]
    · rw [if_neg hk, if_pos (by omega)]
  | .quant q bs t => rw [closeAt, openAt, openAt_closeAt cs (k + bs.length) t]

theorem openAllAt_closeAllAt (cs : List Symbol) (k : Nat) (ts : List Term) :
    openAllAt cs k (closeAllAt cs k ts) = ts := by
  match ts with
  | [] => rfl
  | t :: ts =>
    rw [closeAllAt, openAllAt, openAt_closeAt cs k t, openAllAt_closeAllAt cs k ts]

end

/-! ### Scopes -/

mutual

/-- **Closing keeps a term well scoped**, with the new variables in sight between those bound inside and
those bound farther out. -/
theorem isScoped_closeAt (cs : List Symbol) (Δ₁ Δ₂ : List TermSort) (t : Term)
    (h : t.isScoped (Δ₁ ++ Δ₂) = true) :
    (t.closeAt cs Δ₁.length).isScoped (Δ₁ ++ ((cs.map (·.range)).reverse ++ Δ₂)) = true := by
  match t with
  | .bool b => rfl
  | .int n => rfl
  | .app f as =>
    rw [isScoped] at h
    have ih := areScoped_closeAllAt cs Δ₁ Δ₂ as h
    rcases hi : cs.reverse.idxOf? f with _ | i
    · rw [closeAt_app fun _ => hi, isScoped, ih]
    · rcases as with _ | ⟨a, as⟩
      · obtain ⟨hf, hlt⟩ := getElem?_of_idxOf? hi
        have hin : ((cs.map (·.range)).reverse ++ Δ₂)[i]? = some f.range := by
          rw [List.getElem?_append_left (by simpa using hlt), ← List.map_reverse,
            List.getElem?_map, hf, Option.map_some]
        rw [closeAt_const hi, isScoped, List.getElem?_append_right (by omega),
          Nat.add_sub_cancel_left, hin, beq_self_eq_true]
      · rw [closeAt_app (by simp), isScoped, ih]
  | .op o as =>
    rw [isScoped] at h
    rw [closeAt, isScoped, areScoped_closeAllAt cs Δ₁ Δ₂ as h]
  | .var i s =>
    rw [isScoped, beq_iff_eq] at h
    rw [closeAt, isScoped, beq_iff_eq]
    by_cases hk : Δ₁.length ≤ i
    · rw [List.getElem?_append_right hk] at h
      rw [if_pos hk, List.getElem?_append_right (by omega), List.getElem?_append_right
        (by rw [List.length_reverse, List.length_map]; omega), List.length_reverse, List.length_map,
        ← h]
      congr 1
      omega
    · rw [List.getElem?_append_left (by omega)] at h
      rw [if_neg hk, List.getElem?_append_left (by omega), h]
  | .quant q bs t =>
    rw [isScoped, ← List.append_assoc] at h
    have ih := isScoped_closeAt cs ((bs.map (·.2)).reverse ++ Δ₁) Δ₂ t h
    rw [List.length_append, List.length_reverse, List.length_map, Nat.add_comm] at ih
    rw [closeAt, isScoped, ← List.append_assoc, ih]

theorem areScoped_closeAllAt (cs : List Symbol) (Δ₁ Δ₂ : List TermSort) (ts : List Term)
    (h : areScoped (Δ₁ ++ Δ₂) ts = true) :
    areScoped (Δ₁ ++ ((cs.map (·.range)).reverse ++ Δ₂)) (closeAllAt cs Δ₁.length ts) = true := by
  match ts with
  | [] => rfl
  | t :: ts =>
    rw [areScoped, Bool.and_eq_true] at h
    rw [closeAllAt, areScoped, isScoped_closeAt cs Δ₁ Δ₂ t h.1,
      areScoped_closeAllAt cs Δ₁ Δ₂ ts h.2, Bool.and_self]

end

/-! ### Translated terms closed over their constants -/

section

variable {Γ : Symbols} {ns : List String} {t : Term}

lemma Made.isScoped (h : Made Γ ns t) (Δ : List TermSort) : t.isScoped Δ = true := by
  induction h with
  | bool b => rfl
  | int n => rfl
  | const hd hn => rfl
  | app hd hn hl _ ih => rw [Term.isScoped, areScoped_iff.mpr ih]
  | op o _ ih => rw [Term.isScoped, areScoped_iff.mpr ih]

/-- **What is left in a closed term**: functions of the table under the names of the expression, none of
which is the symbol of a constant. -/
lemma Made.symbols_closeAt (hΓ : Γ.WellFormed) (h : Made Γ ns t) (k : Nat) :
    ∀ f ∈ (t.closeAt Γ.free k).symbols,
      f ∉ Γ.free ∧ ∃ d ∈ Γ.functions, d.name ∈ ns ∧ d.symbol = f := by
  induction h with
  | bool b => simp [closeAt, symbols]
  | int n => simp [closeAt, symbols]
  | @const d hd hn =>
    have hm : d.symbol ∈ Γ.free := List.mem_map_of_mem hd
    rcases hi : Γ.free.reverse.idxOf? d.symbol with _ | i
    · rw [List.idxOf?_eq_none_iff, List.mem_reverse] at hi
      exact absurd hm hi
    · rw [Term.const, closeAt_const hi]
      simp [symbols]
  | @app d ts hd hn hl _ ih =>
    intro f hf
    rcases hi : Γ.free.reverse.idxOf? d.symbol with _ | i
    · rw [closeAt_app fun _ => hi, symbols, closeAllAt_eq, List.mem_cons, mem_symbolsOfAll] at hf
      rcases hf with rfl | ⟨u, hu, hf⟩
      · rw [List.idxOf?_eq_none_iff, List.mem_reverse] at hi
        exact ⟨hi, d, hd, hn, rfl⟩
      · obtain ⟨v, hv, rfl⟩ := List.mem_map.mp hu
        exact ih v hv f hf
    · -- a function that shares its symbol with a constant has no arguments and is bound with it
      have hm := List.mem_of_getElem? (getElem?_of_idxOf? hi).1
      rw [hΓ.domain_of_mem_free (List.mem_reverse.mp hm), List.length_nil,
        List.length_eq_zero_iff] at hl
      subst hl
      rw [closeAt_const hi] at hf
      simp [symbols] at hf
  | @op o ts _ ih =>
    intro f hf
    rw [closeAt, symbols, closeAllAt_eq, mem_symbolsOfAll] at hf
    obtain ⟨u, hu, hf⟩ := hf
    obtain ⟨v, hv, rfl⟩ := List.mem_map.mp hu
    exact ih v hv f hf

/-- The symbols of a translated term are those of declarations under the names of its expression. -/
lemma Made.symbols (h : Made Γ ns t) :
    ∀ f ∈ t.symbols, ∃ d ∈ Γ.declarations, d.name ∈ ns ∧ d.symbol = f := by
  induction h with
  | bool b => simp [Term.symbols]
  | int n => simp [Term.symbols]
  | @const d hd hn =>
    intro f hf
    rw [Term.const, Term.symbols, symbolsOfAll, List.mem_singleton] at hf
    exact ⟨d, (List.mem_filter.mp hd).1, hn, hf.symm⟩
  | @app d ts hd hn hl _ ih =>
    intro f hf
    rw [Term.symbols, List.mem_cons, mem_symbolsOfAll] at hf
    rcases hf with rfl | ⟨u, hu, hf⟩
    · exact ⟨d, (List.mem_filter.mp hd).1, hn, rfl⟩
    · exact ih u hu f hf
  | @op o ts _ ih =>
    intro f hf
    rw [Term.symbols, mem_symbolsOfAll] at hf
    obtain ⟨u, hu, hf⟩ := hf
    exact ih u hu f hf

/-- **What is left in the closure of a translated term**: functions of the table under the names of the
expression. -/
lemma Made.symbols_close (hΓ : Γ.WellFormed) (h : Made Γ ns t) (q : Quantifier) :
    ∀ f ∈ (t.close q Γ.free).symbols, ∃ d ∈ Γ.functions, d.name ∈ ns ∧ d.symbol = f := by
  intro f hf
  unfold close at hf
  split at hf
  · rename_i he
    obtain ⟨d, hd, hn, rfl⟩ := h.symbols f hf
    refine ⟨d, List.mem_filter.mpr ⟨hd, ?_⟩, hn, rfl⟩
    by_contra hk
    have hc : d.symbol ∈ Γ.free := by
      refine List.mem_map_of_mem (List.mem_filter.mpr ⟨hd, ?_⟩)
      rw [Bool.not_eq_true] at hk
      rw [hk, Bool.not_false]
    rw [List.isEmpty_iff.mp he] at hc
    cases hc
  · rw [Term.symbols] at hf
    exact (h.symbols_closeAt hΓ 0 f hf).2

end

/-- **What it is for `u` to be the closure of `t` over constants**: without constants, `t` itself;
otherwise a single binder for them, in their order and with their sorts, over a body in which none of
them is left, in which every index points to one of them and carries its sort, the last constant having
the index 0, and which is `t` again once the constants are put back. -/
structure IsClosure (q : Quantifier) (cs : List Symbol) (t u : Term) : Prop where
  bare : cs = [] → u = t
  bound : cs ≠ [] → ∃ b, u = .quant q (cs.map fun c => (c.name, c.range)) b ∧
    (∀ c ∈ cs, c ∉ b.symbols) ∧ b.isScoped (cs.map (·.range)).reverse = true ∧ b.openAt cs 0 = t

/-- **Closing a translated term over the constants of its table gives its closure.** -/
lemma Made.isClosure {Γ : Symbols} {ns : List String} {t : Term} (hΓ : Γ.WellFormed)
    (h : Made Γ ns t) (q : Quantifier) : IsClosure q Γ.free t (t.close q Γ.free) where
  bare := by
    intro hc
    rw [close, if_pos (List.isEmpty_iff.mpr hc)]
  bound := by
    intro hc
    refine ⟨t.closeAt Γ.free 0, ?_, ?_, ?_, openAt_closeAt Γ.free 0 t⟩
    · rw [close, if_neg (by rw [List.isEmpty_iff]; exact hc)]
    · intro c hm hs
      exact (h.symbols_closeAt hΓ 0 c hs).1 hm
    · have hs := isScoped_closeAt Γ.free [] [] t (h.isScoped _)
      rwa [List.nil_append, List.append_nil] at hs

end Horn.Term

import Mathlib.Data.List.Forall2
import Horn.Expr.Term
import Horn.Proofs.Names
import Horn.Proofs.Table

/-!
The shape of translated terms. A term made of an expression has no bound variable and no quantifier; it
applies declared symbols that the expression names, each to as many terms as its domain has sorts.
-/

namespace Horn

/-- A computation in two parts ends well only if both parts do. -/
lemma bind_eq_ok {ε α β : Type} {x : Except ε α} {f : α → Except ε β} {b : β}
    (h : x >>= f = .ok b) : ∃ a, x = .ok a ∧ f a = .ok b := by
  rcases x with e | a
  · cases h
  · exact ⟨a, rfl, h⟩

lemma bind_eq_error {ε α β : Type} {x : Except ε α} {f : α → Except ε β} {e : ε} :
    x >>= f = .error e ↔ x = .error e ∨ ∃ a, x = .ok a ∧ f a = .error e := by
  rcases x with y | a
  · constructor
    · intro h
      cases h
      exact .inl rfl
    · rintro (h | ⟨a, h, -⟩)
      · cases h; rfl
      · cases h
  · constructor
    · exact fun h => .inr ⟨a, rfl, h⟩
    · rintro (h | ⟨b, hb, h⟩)
      · cases h
      · cases hb; exact h

namespace Term

/-! ### Lists of parts -/

section

variable {α β : Type} {R : α → β → Prop} {a b c : α} {xs : List β}

lemma forall₂_single (h : List.Forall₂ R [a] xs) : ∃ x, xs = [x] ∧ R a x := by
  obtain _ | ⟨ha, _ | _⟩ := h
  exact ⟨_, rfl, ha⟩

lemma forall₂_pair (h : List.Forall₂ R [a, b] xs) : ∃ x y, xs = [x, y] ∧ R a x ∧ R b y := by
  obtain _ | ⟨ha, h⟩ := h
  obtain ⟨y, rfl, hb⟩ := forall₂_single h
  exact ⟨_, y, rfl, ha, hb⟩

lemma forall₂_triple (h : List.Forall₂ R [a, b, c] xs) :
    ∃ x y z, xs = [x, y, z] ∧ R a x ∧ R b y ∧ R c z := by
  obtain _ | ⟨ha, h⟩ := h
  obtain ⟨y, z, rfl, hb, hc⟩ := forall₂_pair h
  exact ⟨_, y, z, rfl, ha, hb, hc⟩

end

lemma castAll_cons_eq_ok {s : TermSort} {ss : List TermSort} {t : Term} {ts us : List Term}
    (h : castAll (s :: ss) (t :: ts) = .ok us) :
    ∃ u vs, castTo s t = .ok u ∧ castAll ss ts = .ok vs ∧ us = u :: vs := by
  unfold castAll at h
  obtain ⟨u, hu, h⟩ := bind_eq_ok h
  obtain ⟨vs, hvs, h⟩ := bind_eq_ok h
  cases h
  exact ⟨u, vs, hu, hvs, rfl⟩

/-! ### Parts of an applied operator -/

section

variable {P : Term → Prop} (hop : ∀ o ts, (∀ t ∈ ts, P t) → P (.op o ts))
include hop

lemma op_pair_closed {o : Operator} {a b : Term} (ha : P a) (hb : P b) : P (.op o [a, b]) :=
  hop _ _ (by simp [ha, hb])

lemma connect_closed {o : Operator} {ts : List Term} {u : Term} (ht : ∀ t ∈ ts, P t)
    (h : connect o ts = .ok u) : P u := by
  unfold connect at h
  split at h
  · cases h; exact hop _ _ ht
  · cases h

variable (hint : ∀ n, P (.int n))
include hint

lemma boolToInt_closed {t : Term} (h : P t) : P t.boolToInt :=
  hop _ _ (by simp [h, hint])

lemma castTo_closed {s : TermSort} {t u : Term} (ht : P t) (h : castTo s t = .ok u) : P u := by
  unfold castTo at h
  split at h
  · cases h; exact ht
  · split at h
    · cases h; exact boolToInt_closed hop hint ht
    · cases h
    · cases h

lemma castAll_closed {ss : List TermSort} {ts us : List Term} (ht : ∀ t ∈ ts, P t)
    (h : castAll ss ts = .ok us) : ∀ u ∈ us, P u := by
  induction ss generalizing ts us with
  | nil =>
    unfold castAll at h
    cases h
    simp
  | cons s ss ih =>
    rcases ts with _ | ⟨t, ts⟩
    · unfold castAll at h
      cases h
      simp
    · obtain ⟨u, vs, hu, hvs, rfl⟩ := castAll_cons_eq_ok h
      rw [List.forall_mem_cons] at ht ⊢
      exact ⟨castTo_closed hop hint ht.1 hu, ih ht.2 hvs⟩

lemma meet_closed {a b a' b' : Term} (ha : P a) (hb : P b) (h : meet a b = .ok (a', b')) :
    P a' ∧ P b' := by
  unfold meet at h
  split at h
  · cases h; exact ⟨ha, boolToInt_closed hop hint hb⟩
  · cases h; exact ⟨boolToInt_closed hop hint ha, hb⟩
  · split at h
    · cases h; exact ⟨ha, hb⟩
    · cases h

lemma meetInt_closed {a b a' b' : Term} (ha : P a) (hb : P b) (h : meetInt a b = .ok (a', b')) :
    P a' ∧ P b' := by
  unfold meetInt at h
  split at h
  · cases h; exact ⟨ha, hb⟩
  · cases h; exact ⟨ha, boolToInt_closed hop hint hb⟩
  · cases h; exact ⟨boolToInt_closed hop hint ha, hb⟩
  · cases h

lemma sum_closed {a b u : Term} (ha : P a) (hb : P b) (h : sum a b = .ok u) : P u := by
  unfold sum at h
  split at h
  · cases h
    exact op_pair_closed hop (boolToInt_closed hop hint ha) (boolToInt_closed hop hint hb)
  · obtain ⟨⟨a', b'⟩, hm, h⟩ := bind_eq_ok h
    cases h
    obtain ⟨ha', hb'⟩ := meetInt_closed hop hint ha hb hm
    exact op_pair_closed hop ha' hb'

lemma product_closed {a b u : Term} (ha : P a) (hb : P b) (h : product a b = .ok u) : P u := by
  have hb' := boolToInt_closed hop hint hb
  unfold product at h
  split at h
  · cases h; exact op_pair_closed hop ha hb
  · cases h; exact hop _ _ (by simp [ha, hb, hint])
  · cases h; exact hop _ _ (by simp [ha, hb, hint])
  · cases h; exact hop _ _ (by simp [ha, hb', hint])
  · cases h

lemma arith_closed {o : Operator} {a b u : Term} (ha : P a) (hb : P b) (h : arith o a b = .ok u) :
    P u := by
  unfold arith at h
  obtain ⟨⟨a', b'⟩, hm, h⟩ := bind_eq_ok h
  cases h
  obtain ⟨ha', hb'⟩ := meetInt_closed hop hint ha hb hm
  exact op_pair_closed hop ha' hb'

lemma compare_closed {o : Operator} {a b u : Term} (ha : P a) (hb : P b)
    (h : compare o a b = .ok u) : P u := by
  unfold compare at h
  obtain ⟨⟨a', b'⟩, hm, h⟩ := bind_eq_ok h
  obtain ⟨ha', hb'⟩ := meetInt_closed hop hint ha hb hm
  cases h
  split
  · exact op_pair_closed hop hb' ha'
  · exact op_pair_closed hop ha' hb'

lemma equation_closed {a b u : Term} (ha : P a) (hb : P b) (h : equation a b = .ok u) : P u := by
  unfold equation at h
  obtain ⟨⟨a', b'⟩, hm, h⟩ := bind_eq_ok h
  obtain ⟨ha', hb'⟩ := meet_closed hop hint ha hb hm
  cases h
  split
  · exact op_pair_closed hop hb' ha'
  · exact op_pair_closed hop ha' hb'

lemma choice_closed {c t f u : Term} (hc : P c) (ht : P t) (hf : P f) (h : choice c t f = .ok u) :
    P u := by
  unfold choice at h
  split at h
  · obtain ⟨⟨t', f'⟩, hm, h⟩ := bind_eq_ok h
    cases h
    obtain ⟨ht', hf'⟩ := meet_closed hop hint ht hf hm
    exact hop _ _ (by simp [hc, ht', hf'])
  · cases h

lemma element_closed {a i u : Term} (ha : P a) (hi : P i) (h : element a i = .ok u) : P u := by
  unfold element at h
  split at h
  · obtain ⟨i', hc, h⟩ := bind_eq_ok h
    cases h
    exact op_pair_closed hop ha (castTo_closed hop hint hi hc)
  · cases h

lemma update_closed {a i v u : Term} (ha : P a) (hi : P i) (hv : P v) (h : update a i v = .ok u) :
    P u := by
  unfold update at h
  split at h
  · obtain ⟨i', hc, h⟩ := bind_eq_ok h
    obtain ⟨v', hd, h⟩ := bind_eq_ok h
    cases h
    exact hop _ _ (by simp [ha, castTo_closed hop hint hi hc, castTo_closed hop hint hv hd])
  · cases h

/-- **An operator adds only operators and integers** to the terms that it is applied to. -/
lemma ofOperator_closed {o : Operator} {ts : List Term} {u : Term} (ht : ∀ t ∈ ts, P t)
    (h : ofOperator o ts = .ok u) : P u := by
  unfold ofOperator at h
  split at h
  all_goals first
    | exact connect_closed hop ht h
    | exact choice_closed hop hint (ht _ (by simp)) (ht _ (by simp)) (ht _ (by simp)) h
    | exact equation_closed hop hint (ht _ (by simp)) (ht _ (by simp)) h
    | exact compare_closed hop hint (ht _ (by simp)) (ht _ (by simp)) h
    | exact sum_closed hop hint (ht _ (by simp)) (ht _ (by simp)) h
    | exact arith_closed hop hint (ht _ (by simp)) (ht _ (by simp)) h
    | exact product_closed hop hint (ht _ (by simp)) (ht _ (by simp)) h
    | exact element_closed hop hint (ht _ (by simp)) (ht _ (by simp)) h
    | exact update_closed hop hint (ht _ (by simp)) (ht _ (by simp)) (ht _ (by simp)) h
    | cases h

end

/-! ### Translated terms -/

/-- **What a translated term is made of**: literals, operators, and symbols of the table under some of
the given names. -/
inductive Made (Γ : Symbols) (ns : List String) : Term → Prop where
  | bool (b : Bool) : Made Γ ns (.bool b)
  | int (n : Int) : Made Γ ns (.int n)
  | const {d : Declaration} (hd : d ∈ Γ.constants) (hn : d.name ∈ ns) :
    Made Γ ns (.const d.symbol)
  | app {d : Declaration} {ts : List Term} (hd : d ∈ Γ.functions) (hn : d.name ∈ ns)
    (hl : ts.length = d.symbol.domain.length) (ht : ∀ t ∈ ts, Made Γ ns t) :
    Made Γ ns (.app d.symbol ts)
  | op (o : Operator) {ts : List Term} (ht : ∀ t ∈ ts, Made Γ ns t) : Made Γ ns (.op o ts)

lemma Made.mono {Γ : Symbols} {ns ms : List String} {t : Term} (h : Made Γ ns t)
    (hs : ∀ n ∈ ns, n ∈ ms) : Made Γ ms t := by
  induction h with
  | bool b => exact .bool b
  | int n => exact .int n
  | const hd hn => exact .const hd (hs _ hn)
  | app hd hn hl _ ih => exact .app hd (hs _ hn) hl ih
  | op o _ ih => exact .op o ih

lemma castAll_length {ss : List TermSort} {ts us : List Term} (hl : ss.length = ts.length)
    (h : castAll ss ts = .ok us) : us.length = ss.length := by
  induction ss generalizing ts us with
  | nil =>
    unfold castAll at h
    cases h
    rfl
  | cons s ss ih =>
    rcases ts with _ | ⟨t, ts⟩
    · cases hl
    · obtain ⟨u, vs, -, hvs, rfl⟩ := castAll_cons_eq_ok h
      rw [List.length_cons, List.length_cons, ih (Nat.succ.inj hl) hvs]

end Term

namespace Expr

lemma blame_eq_ok {e : Expr} {x : Except CastError Term} {t : Term} (h : blame e x = .ok t) :
    x = .ok t := by
  rcases x with (_ | _) | u
  · cases h
  · cases h
  · cases h; rfl

/-- **How the root of an expression is read**: as a declared function with all its arguments, as a
literal if it has none, or else as an operator. -/
lemma rootTerm_eq_ok {Γ : Symbols} {e : Expr} {ts : List Term} {t : Term}
    (h : rootTerm Γ e ts = .ok t) :
    (∃ f us, Γ.function? e.name = some f ∧ f.domain.length = ts.length ∧
        Term.castAll f.domain ts = .ok us ∧ t = .app f us) ∨
      (Γ.function? e.name = none ∧ Γ.constant? e.name = none ∧
        ((ts = [] ∧ literalTerm e.name = .ok t) ∨
          (ts ≠ [] ∧ ∃ o, Operator.ofName? e.name = some o ∧ Term.ofOperator o ts = .ok t))) := by
  unfold rootTerm at h
  split at h
  · rename_i f hf
    split at h
    · rename_i hl
      obtain ⟨us, hus, h⟩ := bind_eq_ok (blame_eq_ok h)
      cases h
      exact .inl ⟨f, us, hf, hl, hus, rfl⟩
    · cases h
  · rename_i hf
    split at h
    · cases h
    · rename_i hc
      refine .inr ⟨hf, hc, ?_⟩
      unfold undeclaredTerm at h
      split at h
      · exact .inl ⟨rfl, h⟩
      · rename_i hts
        split at h
        · cases h
        · rename_i o ho
          split at h
          · exact .inr ⟨hts, o, ho, blame_eq_ok h⟩
          · cases h

lemma literalTerm_eq_ok {n : String} {t : Term} (h : literalTerm n = .ok t) :
    (n = "true" ∧ t = .bool true) ∨ (n = "false" ∧ t = .bool false) ∨
      (n ≠ "true" ∧ n ≠ "false" ∧ ∃ k, Decimal.toInt? n.toList = some k ∧ t = .int k) := by
  unfold literalTerm at h
  split at h
  · cases h
    exact .inl ⟨‹_›, rfl⟩
  · rename_i ht
    split at h
    · cases h
      exact .inr (.inl ⟨‹_›, rfl⟩)
    · rename_i hf
      split at h
      · rename_i k hk
        cases h
        exact .inr (.inr ⟨ht, hf, k, hk, rfl⟩)
      · cases h

/-- **How an expression is read**: as a declared constant, or by its root over the terms of its
arguments. -/
lemma toTerm_eq_ok {Γ : Symbols} {n : String} {as : List Expr} {s : SortSpec} {t : Term}
    (h : toTerm Γ (.node n as s) = .ok t) :
    (∃ c, as = [] ∧ Γ.constant? n = some c ∧ t = .const c) ∨
      ((as = [] → Γ.constant? n = none) ∧
        ∃ ts, toTerms Γ as = .ok ts ∧ rootTerm Γ (.node n as s) ts = .ok t) := by
  unfold toTerm at h
  split at h
  · cases h
    exact .inl ⟨_, rfl, ‹_›, rfl⟩
  · rename_i hc
    refine .inr ⟨?_, bind_eq_ok h⟩
    rintro rfl
    rcases hn : Γ.constant? n with _ | c
    · rfl
    · exact absurd hn (hc c rfl)

lemma toTerms_cons_eq_ok {Γ : Symbols} {e : Expr} {es : List Expr} {ts : List Term}
    (h : toTerms Γ (e :: es) = .ok ts) :
    ∃ t us, toTerm Γ e = .ok t ∧ toTerms Γ es = .ok us ∧ ts = t :: us := by
  unfold toTerms at h
  obtain ⟨t, ht, h⟩ := bind_eq_ok h
  obtain ⟨us, hus, h⟩ := bind_eq_ok h
  cases h
  exact ⟨t, us, ht, hus, rfl⟩

/-! ### Terms of declared and undeclared names -/

section

variable {Γ : Symbols}

/-- A name that is not declared is that of an operator. -/
lemma toTerm_operator {o : Operator} {as : List Expr} {s : SortSpec} {t : Term} {ts : List Term}
    {u : Term} (hf : Γ.function? o.name = none) (hc : Γ.constant? o.name = none)
    (hts : toTerms Γ as = .ok (t :: ts)) (hl : o.arity = (t :: ts).length)
    (hu : Term.ofOperator o (t :: ts) = .ok u) : toTerm Γ (apply o as s) = .ok u := by
  have hroot : rootTerm Γ (apply o as s) (t :: ts) = .ok u := by
    unfold rootTerm
    rw [show (apply o as s).name = o.name from rfl, hf, hc]
    unfold undeclaredTerm
    rw [show (apply o as s).name = o.name from rfl, Operator.ofName?_name]
    dsimp only
    rw [if_pos hl, hu]
    rfl
  unfold apply toTerm
  split
  · rename_i c hc'
    rw [hc] at hc'
    cases hc'
  · rw [hts]
    exact hroot

/-- A leaf that is not declared is a literal. -/
lemma toTerm_literal {n : String} (s : SortSpec) (hf : Γ.function? n = none)
    (hc : Γ.constant? n = none) : toTerm Γ (symbol n s) = literalTerm n := by
  have hroot : rootTerm Γ (.node n [] s) [] = literalTerm n := by
    unfold rootTerm
    rw [show (Expr.node n [] s).name = n from rfl, hf, hc]
    rfl
  unfold symbol toTerm
  rw [hc, toTerms]
  exact hroot

lemma toTerm_leaf {n : String} (s : SortSpec) (h : Γ.find? n = none) :
    toTerm Γ (symbol n s) = literalTerm n := by
  obtain ⟨hf, hc⟩ := Symbols.find?_eq_none_iff_kinds.mp h
  exact toTerm_literal s hf hc

lemma toTerm_constant {n : String} {f : Symbol} (s : SortSpec) (hc : Γ.constant? n = some f) :
    toTerm Γ (symbol n s) = .ok (.const f) := by
  unfold symbol toTerm
  rw [hc]

lemma toTerm_function {n : String} {f : Symbol} (s : SortSpec) (hf : Γ.function? n = some f)
    (hc : Γ.constant? n = none) (hd : f.domain = []) : toTerm Γ (symbol n s) = .ok (.const f) := by
  have hroot : rootTerm Γ (.node n [] s) [] = .ok (.const f) := by
    unfold rootTerm
    rw [show (Expr.node n [] s).name = n from rfl, hf]
    dsimp only
    rw [if_pos (by rw [hd]; rfl)]
    unfold Term.ofSymbol
    rw [hd]
    rfl
  unfold symbol toTerm
  rw [hc, toTerms]
  exact hroot

end

mutual

/-- **A translated term is made of the symbols that its expression names.** -/
theorem toTerm_made {Γ : Symbols} (hΓ : Γ.WellFormed) :
    ∀ {e : Expr} {t : Term}, toTerm Γ e = .ok t → Term.Made Γ e.names t
  | .node n as s, t, h => by
    have hroot : n ∈ (Expr.node n as s).names := by simp [names]
    have hargs : ∀ m ∈ namesOfAll as, m ∈ (Expr.node n as s).names := by
      intro m hm
      simp [names, hm]
    rcases toTerm_eq_ok h with ⟨c, rfl, hc, rfl⟩ | ⟨-, ts, hts, hr⟩
    · obtain ⟨d, hd, hk, rfl⟩ := hΓ.constant?_eq_some_iff.mp hc
      obtain ⟨-, rfl⟩ := hΓ.find?_eq_some_iff.mp hd
      exact .const (hΓ.mem_constants_iff.mpr ⟨hd, hk⟩) hroot
    · have hmade : ∀ u ∈ ts, Term.Made Γ (Expr.node n as s).names u := fun u hu =>
        (toTerms_made hΓ hts u hu).mono hargs
      rcases rootTerm_eq_ok hr with ⟨f, us, hf, hl, hus, rfl⟩ | ⟨-, -, ⟨-, hlit⟩ | ⟨-, o, -, ho⟩⟩
      · obtain ⟨d, hd, hk, rfl⟩ := hΓ.function?_eq_some_iff.mp hf
        obtain ⟨-, hn⟩ := hΓ.find?_eq_some_iff.mp hd
        change d.name = n at hn
        subst hn
        exact .app (hΓ.mem_functions_iff.mpr ⟨hd, hk⟩) hroot (Term.castAll_length hl hus)
          (Term.castAll_closed (fun o _ => .op o) .int hmade hus)
      · rcases literalTerm_eq_ok hlit with ⟨-, rfl⟩ | ⟨-, rfl⟩ | ⟨-, -, k, -, rfl⟩
        · exact .bool true
        · exact .bool false
        · exact .int k
      · exact Term.ofOperator_closed (fun o _ => .op o) .int hmade ho

theorem toTerms_made {Γ : Symbols} (hΓ : Γ.WellFormed) :
    ∀ {es : List Expr} {ts : List Term}, toTerms Γ es = .ok ts →
      ∀ t ∈ ts, Term.Made Γ (namesOfAll es) t
  | [], ts, h => by
    unfold toTerms at h
    cases h
    simp
  | e :: es, ts, h => by
    obtain ⟨t, us, ht, hus, rfl⟩ := toTerms_cons_eq_ok h
    rw [List.forall_mem_cons]
    refine ⟨(toTerm_made hΓ ht).mono ?_, fun u hu => (toTerms_made hΓ hus u hu).mono ?_⟩
    · intro m hm
      exact List.mem_append_right _ hm
    · intro m hm
      exact List.mem_append_left _ hm

end

lemma toFormula_eq_ok {Γ : Symbols} {e : Expr} {t : Term} :
    toFormula Γ e = .ok t ↔ toTerm Γ e = .ok t ∧ t.sort = .bool := by
  unfold toFormula
  rcases ht : toTerm Γ e with x | u
  · constructor
    · intro h; cases h
    · rintro ⟨h, -⟩; cases h
  · change (if u.sort = .bool then (.ok u : Except TermError Term) else _) = .ok t ↔ _
    split
    · rename_i hs
      constructor
      · intro h; cases h; exact ⟨rfl, hs⟩
      · rintro ⟨h, -⟩; exact h
    · rename_i hs
      constructor
      · intro h; cases h
      · rintro ⟨h, hb⟩
        cases h
        exact absurd hb hs

end Expr

end Horn

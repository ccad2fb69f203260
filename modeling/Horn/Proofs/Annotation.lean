import Mathlib.Logic.Relation
import Horn.Proofs.Declarable
import Horn.Proofs.Stability

/-!
Annotations of expressions that callers build. A builder annotates what it builds by looks alone: with the
Booleans, or as one of the operands is annotated. Main statement: the annotation tells the sort of the
term if all that it comes from stands for what it was built as.
-/

namespace Horn

namespace Infix

def isArithmetic : Infix → Bool
  | .add | .sub | .mul | .div => true
  | _ => false

end Infix

namespace Operator

def isArithmetic : Operator → Bool
  | .add | .sub | .mul | .div => true
  | _ => false

def isLogical : Operator → Bool
  | .not | .and | .or | .implies | .eq | .lt | .le | .gt | .ge => true
  | _ => false

end Operator

namespace Expr

/-! ### What callers build -/

/-- **What callers build** of declared symbols, annotated as they were declared, and of plain values.
What is called is a declared symbol. -/
inductive Composed (Γ : Symbols) : Operand → Prop where
  | value (v : Value) : Composed Γ (.value v)
  | symbol {d : Declaration} (hd : d ∈ Γ.declarations) : Composed Γ (.expr (symbol d.name d.spec))
  | literal {v : Value} {e : Expr} (he : ofValue v = .ok e) : Composed Γ (.expr e)
  | between {i : Infix} {x y : Operand} {e : Expr} (hx : Composed Γ x) (hy : Composed Γ y)
    (he : i.build x y = .ok e) : Composed Γ (.expr e)
  | neg {a : Expr} (ha : Composed Γ (.expr a)) : Composed Γ (.expr a.neg)
  | negation {a : Expr} (ha : Composed Γ (.expr a)) : Composed Γ (.expr a.negation)
  | ite {c t f : Operand} {e : Expr} (hc : Composed Γ c) (ht : Composed Γ t) (hf : Composed Γ f)
    (he : buildIte c t f = .ok e) : Composed Γ (.expr e)
  | implies {x y : Operand} {e : Expr} (hx : Composed Γ x) (hy : Composed Γ y)
    (he : buildImplies x y = .ok e) : Composed Γ (.expr e)
  | select {a : Expr} {i : Operand} {e : Expr} (ha : Composed Γ (.expr a)) (hi : Composed Γ i)
    (he : buildSelect (.expr a) i = .ok e) : Composed Γ (.expr e)
  | store {a : Expr} {i v : Operand} {e : Expr} (ha : Composed Γ (.expr a)) (hi : Composed Γ i)
    (hv : Composed Γ v) (he : buildStore (.expr a) i v = .ok e) : Composed Γ (.expr e)
  | call {d : Declaration} {xs : List Operand} {e : Expr} (hd : d ∈ Γ.declarations)
    (hxs : ∀ x ∈ xs, Composed Γ x) (he : (Expr.symbol d.name d.spec).call xs = .ok e) :
    Composed Γ (.expr e)

/-- The first expression hands its annotation on to the second, or the sort of its elements. -/
inductive HandsOn : Expr → Expr → Prop where
  | left {i : Infix} {a e : Expr} {y : Operand} (hi : i.isArithmetic = true)
    (he : i.build (.expr a) y = .ok e) : HandsOn a e
  | right {i : Infix} {v : Value} {b e : Expr} (hi : i.isArithmetic = true)
    (he : i.build (.value v) (.expr b) = .ok e) : HandsOn b e
  | neg (a : Expr) : HandsOn a a.neg
  | branch {c t f : Operand} {a e : Expr} (ha : ofOperand t = .ok a) (he : buildIte c t f = .ok e) :
    HandsOn a e
  | element {a e : Expr} {i : Operand} (he : buildSelect (.expr a) i = .ok e) : HandsOn a e
  | array {a e : Expr} {i v : Operand} (he : buildStore (.expr a) i v = .ok e) : HandsOn a e

/-- The second expression has its annotation from the first, over any number of steps. -/
abbrev Sources (a e : Expr) : Prop := Relation.ReflTransGen HandsOn a e

/-- The name at the root is no declared one, or the expression is the declared symbol or a call of it. -/
def RootMeant (Γ : Symbols) (e : Expr) : Prop :=
  ∀ d, Γ.find? e.name = some d →
    e = symbol d.name d.spec ∨ ∃ xs, (symbol d.name d.spec).call xs = .ok e

/-- All that the annotation comes from is meant as it is read: where a name is declared, the symbol is
meant, and no function stands for a value. -/
structure Meant (Γ : Symbols) (e : Expr) : Prop where
  root : ∀ a, Sources a e → a.RootMeant Γ
  value : ∀ a, Sources a e → a.sort.isFunction = false

lemma Meant.of_handsOn {Γ : Symbols} {a e : Expr} (h : e.Meant Γ) (ha : HandsOn a e) : a.Meant Γ where
  root b hb := h.root b (hb.tail ha)
  value b hb := h.value b (hb.tail ha)

/-! ### What the builders make -/

section

variable {a b e : Expr} {c t f i v x y : Operand}

lemma buildIte_eq_ok (h : buildIte c t f = .ok e) :
    ∃ a b d, ofOperand c = .ok a ∧ ofOperand t = .ok b ∧ ofOperand f = .ok d ∧
      e = apply .ite [a, b, d] b.sort := by
  obtain ⟨b, hb, h⟩ := bind_eq_ok h
  obtain ⟨a, ha, h⟩ := bind_eq_ok h
  obtain ⟨d, hd, h⟩ := bind_eq_ok h
  cases h
  exact ⟨a, b, d, ha, hb, hd, rfl⟩

lemma buildImplies_eq_ok (h : buildImplies x y = .ok e) : ∃ a b, e = apply .implies [a, b] .bool := by
  obtain ⟨a, -, h⟩ := bind_eq_ok h
  obtain ⟨b, -, h⟩ := bind_eq_ok h
  cases h
  exact ⟨a, b, rfl⟩

lemma buildSelect_eq_ok (h : buildSelect (.expr a) i = .ok e) :
    ∃ b, e = apply .select [a, b] a.elementSort := by
  obtain ⟨b, -, h⟩ := bind_eq_ok h
  cases h
  exact ⟨b, rfl⟩

lemma buildStore_eq_ok (h : buildStore (.expr a) i v = .ok e) :
    ∃ b d, e = apply .store [a, b, d] a.sort := by
  obtain ⟨b, -, h⟩ := bind_eq_ok h
  obtain ⟨d, -, h⟩ := bind_eq_ok h
  cases h
  exact ⟨b, d, rfl⟩

end

end Expr

namespace Infix

variable {i : Infix} {e : Expr} {x y : Operand}

lemma apply_arithmetic (hi : i.isArithmetic = true) (a b : Expr) (s : SortSpec) :
    ∃ o : Operator, o.isArithmetic = true ∧ i.apply a b s = Expr.apply o [a, b] s := by
  cases i <;> first | exact ⟨_, rfl, rfl⟩ | cases hi

lemma apply_logical (hi : i.isArithmetic = false) (a b : Expr) (s : SortSpec) :
    ∃ (o : Operator) (as : List Expr), o.isLogical = true ∧ i.apply a b s = Expr.apply o as .bool := by
  cases i <;> first | exact ⟨_, _, rfl, rfl⟩ | cases hi

lemma onLeft_eq_ok {a : Expr} (h : i.onLeft a y = .ok e) : ∃ b, e = i.apply a b a.sort := by
  obtain ⟨b, -, h⟩ := bind_eq_ok h
  cases h
  exact ⟨b, rfl⟩

lemma isArithmetic_of_turned? {j : Infix} (h : i.turned? = some j) :
    j.isArithmetic = i.isArithmetic := by
  cases i <;> cases h <;> rfl

/-- What stands between a plain value and an expression may be turned round, unless it is arithmetic. -/
lemma onRight_eq_ok {v : Value} {b : Expr} (h : i.onRight v b = .ok e) :
    ∃ (j : Infix) (a a' : Expr), j.isArithmetic = i.isArithmetic ∧ e = j.apply a a' b.sort ∧
      b ∈ [a, a'] := by
  obtain ⟨a, -, h⟩ := bind_eq_ok h
  cases h
  rcases hj : i.turned? with _ | j
  · exact ⟨i, a, b, rfl, rfl, by simp⟩
  · exact ⟨j, b, a, isArithmetic_of_turned? hj, rfl, by simp⟩

/-- What an infix makes of two operands is annotated with the Booleans, or as one of them is. -/
inductive Makes (x y : Operand) : Expr → Prop where
  | logical {o : Operator} {as : List Expr} (ho : o.isLogical = true) : Makes x y (Expr.apply o as .bool)
  | arithmetic {o : Operator} {a b p : Expr} (ho : o.isArithmetic = true) (hp : p ∈ [a, b])
    (hx : Expr.ofOperand x = .ok p ∨ Expr.ofOperand y = .ok p)
    (hand : Expr.HandsOn p (Expr.apply o [a, b] p.sort)) : Makes x y (Expr.apply o [a, b] p.sort)

lemma makes_of_apply {a b p : Expr} (hp : p ∈ [a, b])
    (hx : Expr.ofOperand x = .ok p ∨ Expr.ofOperand y = .ok p)
    (hand : i.isArithmetic = true → Expr.HandsOn p (i.apply a b p.sort)) :
    Makes x y (i.apply a b p.sort) := by
  rcases hi : i.isArithmetic with _ | _
  · obtain ⟨o, as, ho, he⟩ := apply_logical hi a b p.sort
    rw [he]
    exact .logical ho
  · obtain ⟨o, ho, he⟩ := apply_arithmetic hi a b p.sort
    rw [he] at hand ⊢
    exact .arithmetic ho hp hx (hand hi)

lemma makes_of_onLeft {a : Expr} (ha : Expr.ofOperand x = .ok a) (h : i.onLeft a y = .ok e) :
    Makes x y e := by
  obtain ⟨b, rfl⟩ := onLeft_eq_ok h
  exact makes_of_apply (by simp) (.inl ha) fun hi => .left hi h

lemma makes_of_build (h : i.build x y = .ok e) : Makes x y e := by
  match x, y with
  | .expr a, y => exact makes_of_onLeft rfl h
  | .value v, .value w =>
    obtain ⟨a, ha, h⟩ := bind_eq_ok h
    exact makes_of_onLeft ha h
  | .value v, .expr b =>
    obtain ⟨j, a, a', hj, rfl, hmem⟩ := onRight_eq_ok h
    exact makes_of_apply hmem (.inr rfl) fun hi => .right (hj.symm.trans hi) h

end Infix

/-- **An annotation is handed on by one of the arguments**, as it is or as that of an array. -/
lemma Expr.HandsOn.from_args {a e : Expr} (h : HandsOn a e) :
    a ∈ e.args ∧ (e.sort = a.sort ∨ e.sort = a.elementSort) := by
  cases h with
  | left hi he =>
    obtain ⟨b, rfl⟩ := Infix.onLeft_eq_ok he
    obtain ⟨o, -, ho⟩ := Infix.apply_arithmetic hi a b a.sort
    rw [ho]
    exact ⟨by simp [apply, args], .inl rfl⟩
  | right hi he =>
    obtain ⟨j, b, b', hj, rfl, hmem⟩ := Infix.onRight_eq_ok he
    obtain ⟨o, -, ho⟩ := Infix.apply_arithmetic (hj.trans hi) b b' a.sort
    rw [ho]
    exact ⟨hmem, .inl rfl⟩
  | neg => exact ⟨by simp [Expr.neg, apply, args], .inl rfl⟩
  | branch ha he =>
    obtain ⟨b, d, c, -, hd, -, rfl⟩ := buildIte_eq_ok he
    rw [ha] at hd
    cases hd
    exact ⟨by simp [apply, args], .inl rfl⟩
  | element he =>
    obtain ⟨b, rfl⟩ := buildSelect_eq_ok he
    exact ⟨by simp [apply, args], .inr rfl⟩
  | array he =>
    obtain ⟨b, c, rfl⟩ := buildStore_eq_ok he
    exact ⟨by simp [apply, args], .inl rfl⟩

/-- A leaf has its annotation from nowhere else. -/
lemma Expr.Sources.eq_leaf {a : Expr} {n : String} {s : SortSpec} (h : Sources a (symbol n s)) :
    a = symbol n s := by
  rcases h.cases_tail with h | ⟨b, -, hb⟩
  · exact h.symm
  · exact nomatch hb.from_args.1

/-! ### Sorts of operands -/

lemma TermSort.fits_of_join? {s r r' : TermSort} (h : r.join? r' = some s) :
    s.Fits r ∧ s.Fits r' := by
  unfold join? at h
  split at h
  · cases h
    exact ⟨.inl rfl, .inr ⟨rfl, rfl⟩⟩
  · cases h
    exact ⟨.inr ⟨rfl, rfl⟩, .inl rfl⟩
  · split at h
    · rename_i hr
      cases h
      exact ⟨.inl rfl, .inl hr.symm⟩
    · cases h

namespace Operator

variable {o : Operator} {ss : List TermSort} {s r r' : TermSort}

lemma looseSort?_logical (ho : o.isLogical = true) (h : o.looseSort? ss = some s) : s = .bool := by
  unfold looseSort? at h
  split at h <;> try cases ho
  all_goals first
    | exact (Option.some.inj h).symm
    | (split at h <;> cases h; rfl)
    | (obtain ⟨-, -, rfl⟩ := Option.map_eq_some_iff.mp h; rfl)
    | cases h

lemma looseSort?_arithmetic (ho : o.isArithmetic = true) (h : o.looseSort? [r, r'] = some s) :
    s.Fits r ∧ s.Fits r' := by
  cases o with
  | add | mul =>
    rw [looseSort?] at h
    split at h
    · rename_i hfits
      cases h
      exact hfits
    · cases h
  | sub | div =>
    rw [looseSort?] at h
    split at h
    · rename_i hj
      cases h
      exact TermSort.fits_of_join? hj
    · cases h
  | _ => cases ho

lemma fits_of_looseSort?_ite {q : TermSort} (h : ite.looseSort? [q, r, r'] = some s) : s.Fits r := by
  cases q with
  | bool => exact (TermSort.fits_of_join? h).1
  | _ => cases h

lemma exists_of_looseSort?_select (h : select.looseSort? [r, r'] = some s) : ∃ d, r = .array d s := by
  cases r with
  | array d x =>
    rw [looseSort?] at h
    split at h
    · cases h
      exact ⟨d, rfl⟩
    · cases h
  | _ => cases h

lemma eq_of_looseSort?_store {q : TermSort} (h : store.looseSort? [q, r, r'] = some s) : q = s := by
  cases q with
  | array d x =>
    rw [looseSort?] at h
    split at h
    · exact Option.some.inj h
    · cases h
  | _ => cases h

end Operator

namespace Expr

variable {Γ : Symbols} {e : Expr}

lemma call_eq_ok {f : Expr} {xs : List Operand} (h : f.call xs = .ok e) :
    ∃ ds c es, f.sort = .function ds c ∧ e = .node f.name es c := by
  unfold call at h
  split at h
  · rename_i ds c hs
    obtain ⟨es, -, h⟩ := bind_eq_ok h
    cases h
    exact ⟨ds, c, es, hs, rfl⟩
  · cases h

/-- The sort of an operator whose name is not declared. -/
lemma hasSort_apply {o : Operator} {as : List Expr} {a : SortSpec} {s : TermSort}
    (hn : Γ.find? o.name = none) (h : (apply o as a).HasSort Γ s) :
    ∃ ss, List.Forall₂ (HasSort Γ) as ss ∧ o.looseSort? ss = some s := by
  have hword : ∀ w : String, Operator.ofName? w = none → o.name ≠ w := by
    rintro w hw rfl
    rw [Operator.ofName?_name] at hw
    cases hw
  change HasSort Γ (.node o.name as a) s at h
  cases h with
  | constant hd _ =>
    rw [hn] at hd
    cases hd
  | call hd _ _ _ _ _ =>
    rw [hn] at hd
    cases hd
  | truth _ h => exact (h.elim (hword _ (by decide)) (hword _ (by decide))).elim
  | numeral _ hk => cases o <;> exact nomatch hk
  | operator _ ho hes hs =>
    cases Operator.name_injective ho
    exact ⟨_, hes, hs⟩

/-- The sort of an expression with a declared name at its root. -/
lemma hasSort_declared {d : Declaration} {s : TermSort} (hd : Γ.find? e.name = some d)
    (h : e.HasSort Γ s) :
    d.spec.toTermSort = .ok s ∨ ∃ ds c, d.spec = .function ds c ∧ c.toTermSort = .ok s := by
  cases h with
  | constant hd' hs =>
    obtain rfl := Option.some.inj (hd.symm.trans hd')
    exact .inl hs
  | call hd' hf _ hc _ _ =>
    obtain rfl := Option.some.inj (hd.symm.trans hd')
    exact .inr ⟨_, _, hf, hc⟩
  | truth hn _ | numeral hn _ | operator hn _ _ _ => exact nomatch hd.symm.trans hn

/-- How an annotation goes with a sort: it tells the sort, unless a Boolean has handed it on to an
integer. -/
inductive Carries (Γ : Symbols) (e : Expr) : TermSort → Prop where
  | own {s : TermSort} (h : e.sort.toTermSort = .ok s) : Carries Γ e s
  | taken {a : Expr} (h : e.sort.toTermSort = .ok .bool) (ha : Sources a e) (hb : a.HasSort Γ .bool) :
    Carries Γ e .int

/-- The annotation goes with the sort of the expression, if there is one. -/
def Agrees (Γ : Symbols) (e : Expr) : Prop := e.Meant Γ → ∀ s, e.HasSort Γ s → Carries Γ e s

/-- **An annotation that is handed on goes with the sort of the result** if the operand fits it. -/
lemma Carries.handOn {a : Expr} {s r : TermSort} (h : Carries Γ a r) (ha : HandsOn a e)
    (hs : e.sort = a.sort) (hr : a.HasSort Γ r) (hfits : s.Fits r) : Carries Γ e s := by
  rcases hfits with rfl | ⟨rfl, rfl⟩
  · cases h with
    | own h => exact .own (hs ▸ h)
    | taken h hb hbool => exact .taken (hs ▸ h) (hb.tail ha) hbool
  · cases h with
    | own h => exact .taken (hs ▸ h) (.single ha) hr

/-! ### The ways of building -/

lemma agrees_of_toTerm (hΓ : Γ.WellFormed) {t : Term} (ht : e.toTerm Γ = .ok t)
    (hs : e.sort.toTermSort = .ok t.sort) : Agrees Γ e := by
  intro _ s he
  obtain ⟨u, hu, hus⟩ := he.exists_toTerm hΓ
  rw [ht] at hu
  cases hu
  rw [← hus.sort_eq]
  exact .own hs

/-- What is meant as a declared symbol is annotated with its sort. -/
lemma agrees_declared {d : Declaration} (hd : Γ.find? e.name = some d) : Agrees Γ e := by
  intro hm s he
  have hk := hm.value e .refl
  rcases hm.root e .refl d hd with rfl | ⟨xs, hx⟩
  · rcases hasSort_declared hd he with hs | ⟨ds, c, hf, -⟩
    · exact .own hs
    · change d.spec.isFunction = false at hk
      rw [hf] at hk
      cases hk
  · obtain ⟨ds, c, es, hf, rfl⟩ := call_eq_ok hx
    change d.spec = _ at hf
    rcases hasSort_declared hd he with hs | ⟨ds', c', hf', hc⟩
    · rw [hf] at hs
      cases hs
    · rw [hf] at hf'
      cases hf'
      exact .own hc

lemma agrees_of_undeclared (h : Γ.find? e.name = none → Agrees Γ e) : Agrees Γ e := by
  rcases hd : Γ.find? e.name with _ | d
  · exact h hd
  · exact agrees_declared hd

lemma agrees_literal (hΓ : Γ.WellFormed) {v : Value} (hn : Γ.find? e.name = none)
    (he : ofValue v = .ok e) : Agrees Γ e := by
  unfold ofValue at he
  split at he
  · rename_i b
    cases he
    exact agrees_of_toTerm hΓ ((toTerm_literal_iff hΓ (literalTerm_ofBool b)).mpr hn) rfl
  · rename_i n
    split at he
    · rename_i hfits
      cases he
      exact agrees_of_toTerm hΓ ((toTerm_literal_iff hΓ (literalTerm_ofInt hfits)).mpr hn) rfl
    · cases he
  · cases he

section

variable {o : Operator} {a b c p : Expr} {as : List Expr}

lemma agrees_logical (ho : o.isLogical = true) (hn : Γ.find? o.name = none) :
    Agrees Γ (apply o as .bool) := by
  intro _ s he
  obtain ⟨ss, -, hs⟩ := hasSort_apply hn he
  rw [Operator.looseSort?_logical ho hs]
  exact .own rfl

/-- An operator annotated like one of its operands, which fits its sort. -/
lemma agrees_of_operand (hn : Γ.find? o.name = none) (hand : HandsOn p (apply o as p.sort))
    (hag : Agrees Γ p) (hfits : ∀ ss s, List.Forall₂ (HasSort Γ) as ss → o.looseSort? ss = some s →
      ∃ r, p.HasSort Γ r ∧ s.Fits r) : Agrees Γ (apply o as p.sort) := by
  intro hm s he
  obtain ⟨ss, hes, hs⟩ := hasSort_apply hn he
  obtain ⟨r, hr, hfit⟩ := hfits ss s hes hs
  exact (hag (hm.of_handsOn hand) r hr).handOn hand rfl hr hfit

lemma agrees_arithmetic (ho : o.isArithmetic = true) (hn : Γ.find? o.name = none) (hp : p ∈ [a, b])
    (hand : HandsOn p (apply o [a, b] p.sort)) (hag : Agrees Γ p) :
    Agrees Γ (apply o [a, b] p.sort) := by
  refine agrees_of_operand hn hand hag fun ss s hes hs => ?_
  obtain ⟨r, r', rfl, ha, hb⟩ := Term.forall₂_pair hes
  have hfits := Operator.looseSort?_arithmetic ho hs
  rcases List.mem_pair.mp hp with rfl | rfl
  · exact ⟨r, ha, hfits.1⟩
  · exact ⟨r', hb, hfits.2⟩

lemma agrees_ite (hn : Γ.find? Operator.ite.name = none)
    (hand : HandsOn b (apply .ite [a, b, c] b.sort)) (hag : Agrees Γ b) :
    Agrees Γ (apply .ite [a, b, c] b.sort) := by
  refine agrees_of_operand hn hand hag fun ss s hes hs => ?_
  obtain ⟨q, r, r', rfl, -, hb, -⟩ := Term.forall₂_triple hes
  exact ⟨r, hb, Operator.fits_of_looseSort?_ite hs⟩

lemma agrees_store (hn : Γ.find? Operator.store.name = none)
    (hand : HandsOn a (apply .store [a, b, c] a.sort)) (hag : Agrees Γ a) :
    Agrees Γ (apply .store [a, b, c] a.sort) := by
  refine agrees_of_operand hn hand hag fun ss s hes hs => ?_
  obtain ⟨q, r, r', rfl, ha, -, -⟩ := Term.forall₂_triple hes
  obtain rfl := Operator.eq_of_looseSort?_store hs
  exact ⟨q, ha, .inl rfl⟩

/-- An element has the sort of the elements, which is part of the sort of the array. -/
lemma agrees_select (hn : Γ.find? Operator.select.name = none)
    (hand : HandsOn a (apply .select [a, b] a.elementSort)) (hag : Agrees Γ a) :
    Agrees Γ (apply .select [a, b] a.elementSort) := by
  intro hm s he
  obtain ⟨ss, hes, hs⟩ := hasSort_apply hn he
  obtain ⟨r, r', rfl, ha, -⟩ := Term.forall₂_pair hes
  obtain ⟨d, rfl⟩ := Operator.exists_of_looseSort?_select hs
  -- an array is no Boolean, so that its annotation is its own
  cases hag (hm.of_handsOn hand) _ ha with
  | own h =>
    have hsort := SortSpec.toTermSort_eq_ok_iff.mp h
    have helem : a.elementSort = SortSpec.ofTermSort s := by
      rw [elementSort, hsort]
      rfl
    exact .own (SortSpec.toTermSort_eq_ok_iff.mpr helem)

end

/-- **Annotations go with sorts in all that callers build.** -/
lemma Composed.agrees (hΓ : Γ.WellFormed) {x : Operand} (h : Composed Γ x) :
    ∀ e, ofOperand x = .ok e → Agrees Γ e := by
  induction h with
  | value v =>
    intro e he
    exact agrees_of_undeclared fun hn => agrees_literal hΓ hn he
  | symbol hd =>
    rintro _ ⟨⟩
    exact agrees_declared (hΓ.find?_eq_some_iff.mpr ⟨hd, rfl⟩)
  | literal he =>
    rintro _ ⟨⟩
    exact agrees_of_undeclared fun hn => agrees_literal hΓ hn he
  | between _ _ he ihx ihy =>
    rintro _ ⟨⟩
    refine agrees_of_undeclared fun hn => ?_
    cases Infix.makes_of_build he with
    | logical ho => exact agrees_logical ho hn
    | arithmetic ho hp hx hand => exact agrees_arithmetic ho hn hp hand (hx.elim (ihx _) (ihy _))
  | neg _ ih =>
    rintro _ ⟨⟩
    exact agrees_of_undeclared fun hn => agrees_arithmetic rfl hn (by simp) (.neg _) (ih _ rfl)
  | negation _ _ =>
    rintro _ ⟨⟩
    exact agrees_of_undeclared fun hn => agrees_logical rfl hn
  | ite _ _ _ he _ iht _ =>
    rintro _ ⟨⟩
    obtain ⟨a, b, c, -, hb, -, rfl⟩ := buildIte_eq_ok he
    exact agrees_of_undeclared fun hn => agrees_ite hn (.branch hb he) (iht b hb)
  | implies _ _ he _ _ =>
    rintro _ ⟨⟩
    obtain ⟨a, b, rfl⟩ := buildImplies_eq_ok he
    exact agrees_of_undeclared fun hn => agrees_logical rfl hn
  | select _ _ he iha _ =>
    rintro _ ⟨⟩
    obtain ⟨b, rfl⟩ := buildSelect_eq_ok he
    exact agrees_of_undeclared fun hn => agrees_select hn (.element he) (iha _ rfl)
  | store _ _ _ he iha _ _ =>
    rintro _ ⟨⟩
    obtain ⟨b, c, rfl⟩ := buildStore_eq_ok he
    exact agrees_of_undeclared fun hn => agrees_store hn (.array he) (iha _ rfl)
  | @call d xs e hd _ he _ =>
    rintro _ ⟨⟩
    obtain ⟨ds, c, es, -, rfl⟩ := call_eq_ok he
    exact agrees_declared (hΓ.find?_eq_some_iff.mpr ⟨hd, rfl⟩)

/-- **An annotation tells the sort of the term.** After any declarations, let all that the annotation of
an expression comes from be meant as it is read. If the expression has a term, and if no Boolean has
handed the annotation on to an integer, then the annotation is the sort of the term. -/
theorem annotation_eq_sort (ds : List (String × SortSpec)) {e : Expr} {t : Term} :
    let Γ := Symbols.empty.declareAll ds
    Composed Γ (.expr e) → e.Meant Γ → e.toTerm Γ = .ok t →
    (t.sort = .int → ∀ a, Sources a e → ¬ a.HasSort Γ .bool) →
    e.sort.toTermSort = .ok t.sort := by
  intro Γ he hm ht hint
  have hΓ : Γ.WellFormed := Symbols.wellFormed_empty.declareAll ds
  obtain ⟨s, hs, hts⟩ := toTerm_hasSort hΓ ht
  rw [hts.sort_eq] at hint ⊢
  cases he.agrees hΓ e rfl hm s hs with
  | own h => exact h
  | taken _ ha hb => exact absurd hb (hint rfl _ ha)

/-- An integer and a Boolean are added, the integer first. -/
theorem annotation_eq_sort_sum :
    let Γ := Symbols.empty.declareAll [("x", .int), ("b", .bool)]
    let x : Expr := symbol "x" .int
    let e : Expr := apply .add [x, symbol "b" .bool] .int
    let t : Term := .op .add [.const ⟨"x", [], .int⟩, (Term.const ⟨"b", [], .bool⟩).boolToInt]
    Composed Γ (.expr e) ∧ e.Meant Γ ∧ e.toTerm Γ = .ok t ∧
      (t.sort = .int → ∀ a, Sources a e → ¬ a.HasSort Γ .bool) ∧ e.sort.toTermSort = .ok t.sort := by
  intro Γ x e t
  have hcomposed : Composed Γ (.expr e) := by
    have hx : Composed Γ (.expr x) := .symbol (d := ⟨"x", .int, ⟨"x", [], .int⟩⟩) (.head _)
    have hb : Composed Γ (.expr (symbol "b" .bool)) :=
      .symbol (d := ⟨"b", .bool, ⟨"b", [], .bool⟩⟩) (.tail _ (.head _))
    exact .between (i := .add) hx hb rfl
  have hsources : ∀ a, Sources a e → a = e ∨ a = x := by
    intro a ha
    rcases ha.cases_tail with rfl | ⟨p, hap, hp⟩
    · exact .inl rfl
    · -- the other argument is annotated with the Booleans
      obtain ⟨hmem, hsort⟩ := hp.from_args
      rcases List.mem_pair.mp hmem with rfl | rfl
      · exact .inr (Sources.eq_leaf hap)
      · exact hsort.elim nofun nofun
  have hmeant : e.Meant Γ := by
    constructor
    · intro a ha d hd
      rcases hsources a ha with rfl | rfl
      · cases hd
      · cases hd
        exact .inl rfl
    · intro a ha
      rcases hsources a ha with rfl | rfl <;> rfl
  have hint : t.sort = .int → ∀ a, Sources a e → ¬ a.HasSort Γ .bool := by
    intro _ a ha hb
    obtain ⟨u, hu, hs⟩ := ((hasSort_iff_toTerm _ a).1 .bool).mp hb
    rcases hsources a ha with rfl | rfl
    · cases hu
      cases hs
    · cases hu
      cases hs
  exact ⟨hcomposed, hmeant, rfl, hint, annotation_eq_sort _ hcomposed hmeant rfl hint⟩

/-- Annotations that do not tell the sort of the term: of a literal whose name is declared, of a function
that is not called, of a conditional that is called, and of a Boolean to which an integer is added. -/
theorem annotation_misleads :
    let Γ := Symbols.empty.declareAll [("0", .bool), ("f", .function [] .bool), ("b", .bool)]
    let f : Expr := symbol "f" (.function [] .bool)
    let b : Expr := symbol "b" .bool
    ((ofInt 0).sort = .int ∧ (ofInt 0).toTerm Γ = .ok (.const ⟨"0", [], .bool⟩)) ∧
    ((∀ r, f.sort.toTermSort ≠ .ok r) ∧ f.toTerm Γ = .ok (.const ⟨"f", [], .bool⟩)) ∧
    (∃ g e t, buildIte (.expr b) (.expr f) (.expr f) = .ok g ∧
      g.call [.expr b, .expr (ofInt 1), .expr (ofInt 2)] = .ok e ∧ e.sort = .bool ∧
      e.toTerm Γ = .ok t ∧ t.sort = .int) ∧
    ∃ e t, Infix.add.build (.expr b) (.expr (ofInt 1)) = .ok e ∧ e.sort = .bool ∧
      e.toTerm Γ = .ok t ∧ t.sort = .int :=
  ⟨⟨rfl, rfl⟩, ⟨nofun, rfl⟩, ⟨_, _, _, rfl, rfl, rfl, rfl, rfl⟩, ⟨_, _, rfl, rfl, rfl, rfl⟩⟩

end Expr

end Horn

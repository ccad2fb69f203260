import Horn.Proofs.Semantics.WellSorted

/-!
Values of terms, taken apart: what the parts of a term stand for whose value is known. A formula is a term
of truth values over variables of given sorts; it is true or false.
-/

namespace Horn.Term

open Element

variable {J : Interpretation} {env : List Element} {Δ : List TermSort} {a b c t : Term}
  {o : Operator} {s : TermSort} {x y : Element}

lemma Means.unique (hx : Means J env t x) (hy : Means J env t y) : x = y :=
  Option.some.inj (hx.value.symm.trans hy.value)

lemma Means.iff_eq (hx : Means J env t x) : Means J env t y ↔ x = y :=
  ⟨hx.unique, fun h => h ▸ hx⟩

lemma means_var {i : Nat} (h : env[i]? = some x) : Means J env (.var i x.sort) x :=
  ⟨by rw [value?, h]; simp, rfl⟩

/-! ### Operands -/

lemma isScoped_one : (op o [a]).isScoped Δ = true ↔ a.isScoped Δ = true := by
  simp [isScoped, areScoped]

lemma isScoped_two : (op o [a, b]).isScoped Δ = true ↔ a.isScoped Δ = true ∧ b.isScoped Δ = true := by
  simp [isScoped, areScoped]

lemma isScoped_three : (op o [a, b, c]).isScoped Δ = true ↔
    a.isScoped Δ = true ∧ b.isScoped Δ = true ∧ c.isScoped Δ = true := by
  simp [isScoped, areScoped]

lemma HasSort.of_not (h : (Term.op .not [a]).HasSort s) : a.HasSort .bool := by
  cases h with
  | op hts hs =>
    obtain ⟨r, rfl, ha⟩ := forall₂_single hts
    cases r <;> first | exact ha | cases hs

lemma HasSort.of_two (h : (Term.op o [a, b]).HasSort s) :
    ∃ r r', a.HasSort r ∧ b.HasSort r' ∧ o.strictSort? [r, r'] = some s := by
  cases h with
  | op hts hs =>
    obtain ⟨r, r', rfl, ha, hb⟩ := forall₂_pair hts
    exact ⟨r, r', ha, hb, hs⟩

lemma HasSort.of_onInts (h : (Term.op o [a, b]).HasSort s) (ho : o.onInts = true) :
    a.HasSort .int ∧ b.HasSort .int := by
  obtain ⟨r, r', ha, hb, hs⟩ := h.of_two
  cases (Operator.strictSort?_onInts ho hs).1
  exact ⟨ha, hb⟩

lemma HasSort.of_eq (h : (Term.op .eq [a, b]).HasSort s) : ∃ r, a.HasSort r ∧ b.HasSort r := by
  obtain ⟨r, r', ha, hb, hs⟩ := h.of_two
  have hs : (if r = r' then some .bool else none) = some s := hs
  split at hs
  · rename_i hrr
    exact ⟨r, ha, hrr ▸ hb⟩
  · cases hs

lemma HasSort.of_ite (h : (Term.op .ite [c, a, b]).HasSort s) :
    c.HasSort .bool ∧ a.HasSort s ∧ b.HasSort s := by
  cases h with
  | op hts hs =>
    obtain ⟨r, r', r'', rfl, hc, ha, hb⟩ := forall₂_triple hts
    cases Operator.strictSort?_ite hs
    exact ⟨hc, ha, hb⟩

/-! ### Formulas -/

/-- A formula over variables of the given sorts. -/
structure IsFormula (Δ : List TermSort) (t : Term) : Prop where
  hasSort : t.HasSort .bool
  isScoped : t.isScoped Δ = true

lemma IsFormula.exists_bool (h : t.IsFormula (sortsOf env)) : ∃ p, Means J env t (.ofBool p) := by
  obtain ⟨x, hx⟩ := h.hasSort.exists_means (J := J) h.isScoped
  obtain ⟨p, rfl⟩ := hx.exists_bool h.hasSort.sort_eq
  exact ⟨p, hx⟩

lemma IsFormula.means_iff (h : t.IsFormula Δ) {p : Bool} :
    Means J env t (.ofBool p) ↔ t.value? J env = some (.ofBool p) :=
  ⟨fun hm => hm.value, fun hv => ⟨hv, h.hasSort.sort_eq.symm⟩⟩

lemma IsFormula.operands {f : Bool → Bool → Bool} {ts : List Term}
    (h : (Term.op o ts).IsFormula Δ) (ho : o.onBools? = some f) :
    ∃ a b, ts = [a, b] ∧ a.IsFormula Δ ∧ b.IsFormula Δ := by
  obtain ⟨hsort, hscoped⟩ := h
  cases hsort with
  | op hts hs =>
    rw [(Operator.strictSort?_onBools ho hs).1] at hts
    obtain ⟨a, _, ha, has, rfl⟩ := List.forall₂_cons_right_iff.mp hts
    obtain ⟨b, _, hb, hbs, rfl⟩ := List.forall₂_cons_right_iff.mp has
    rw [List.forall₂_nil_right_iff.mp hbs] at hscoped ⊢
    obtain ⟨hsa, hsb⟩ := isScoped_two.mp hscoped
    exact ⟨a, b, rfl, ⟨ha, hsa⟩, ⟨hb, hsb⟩⟩

/-- The arguments of a relation are of the sorts of its domain. -/
lemma IsFormula.args {f : Symbol} {as : List Term} (h : (Term.app f as).IsFormula Δ) :
    f.range = .bool ∧ List.Forall₂ HasSort as f.domain ∧ areScoped Δ as = true := by
  obtain ⟨hsort, hscoped⟩ := h
  refine ⟨hsort.sort_eq, ?_, hscoped⟩
  generalize TermSort.bool = s at hsort
  cases hsort with
  | app has => exact has

lemma means_onBools {f : Bool → Bool → Bool} {p q : Bool} (ho : o.onBools? = some f)
    (ha : Means J env a (.ofBool p)) (hb : Means J env b (.ofBool q)) :
    Means J env (.op o [a, b]) (.ofBool (f p q)) := by
  refine .op (.cons ha (.cons hb .nil)) ?_ ?_
  · exact Operator.value?_onBools ho (strict_ofBool p) (strict_ofBool q)
  · cases o <;> first | rfl | cases ho

open scoped Classical in
/-- An equation is true if its sides have one value. -/
lemma means_eq_true_iff (ha : Means J env a x) (hb : Means J env b y)
    (hs : x.sort = y.sort) : Means J env (op .eq [a, b]) (.ofBool true) ↔ x = y := by
  rw [(means_eq hs ha hb).iff_eq, ofBool_inj, decide_eq_true_eq]

section

variable (ha : a.IsFormula (sortsOf env)) (hb : b.IsFormula (sortsOf env))
include ha hb

lemma means_and_iff : Means J env (.op .and [a, b]) (.ofBool true) ↔
    Means J env a (.ofBool true) ∧ Means J env b (.ofBool true) := by
  obtain ⟨p, hp⟩ := ha.exists_bool (J := J)
  obtain ⟨q, hq⟩ := hb.exists_bool (J := J)
  rw [(means_onBools (o := .and) rfl hp hq).iff_eq, hp.iff_eq, hq.iff_eq]
  simp

lemma means_or_iff : Means J env (.op .or [a, b]) (.ofBool true) ↔
    Means J env a (.ofBool true) ∨ Means J env b (.ofBool true) := by
  obtain ⟨p, hp⟩ := ha.exists_bool (J := J)
  obtain ⟨q, hq⟩ := hb.exists_bool (J := J)
  rw [(means_onBools (o := .or) rfl hp hq).iff_eq, hp.iff_eq, hq.iff_eq]
  simp

lemma means_implies_iff : Means J env (.op .implies [a, b]) (.ofBool true) ↔
    (Means J env a (.ofBool true) → Means J env b (.ofBool true)) := by
  obtain ⟨p, hp⟩ := ha.exists_bool (J := J)
  obtain ⟨q, hq⟩ := hb.exists_bool (J := J)
  rw [(means_onBools (o := .implies) rfl hp hq).iff_eq, hp.iff_eq, hq.iff_eq]
  cases p <;> simp

end

/-! ### Values of parts -/

/-- **The value of a term** whose parts fit together. -/
structure Evaluates (J : Interpretation) (env : List Element) (t : Term) (x : Element) : Prop where
  hasSort : t.HasSort x.sort
  isScoped : t.isScoped (sortsOf env) = true
  means : Means J env t x

namespace Evaluates

lemma of_hasSort (ht : t.HasSort s) (hscoped : t.isScoped (sortsOf env) = true) :
    ∃ x, Evaluates J env t x ∧ x.sort = s := by
  obtain ⟨x, hx⟩ := ht.exists_means (J := J) hscoped
  have hs : x.sort = s := hx.sort.trans ht.sort_eq
  exact ⟨x, ⟨hs ▸ ht, hscoped, hx⟩, hs⟩

lemma of_int (ht : t.HasSort .int) (hscoped : t.isScoped (sortsOf env) = true) :
    ∃ n, Evaluates J env t (.ofInt n) := by
  obtain ⟨⟨_, n⟩, hx, rfl⟩ := of_hasSort (J := J) ht hscoped
  exact ⟨n, hx⟩

lemma of_bool (ht : t.HasSort .bool) (hscoped : t.isScoped (sortsOf env) = true) :
    ∃ p, Evaluates J env t (.ofBool p) := by
  obtain ⟨⟨_, p⟩, hx, rfl⟩ := of_hasSort (J := J) ht hscoped
  exact ⟨p, hx⟩

lemma var {i : Nat} (h : Evaluates J env (.var i s) x) : env[i]? = some x := by
  have hi := h.isScoped
  rw [Term.isScoped, beq_iff_eq, List.getElem?_map, Option.map_eq_some_iff] at hi
  obtain ⟨y, hi, rfl⟩ := hi
  rw [hi, h.means.unique (means_var hi)]

lemma not (h : Evaluates J env (.op .not [a]) x) :
    ∃ p, Evaluates J env a (.ofBool p) ∧ x = .ofBool !p := by
  obtain ⟨p, hp⟩ := of_bool (J := J) h.hasSort.of_not (isScoped_one.mp h.isScoped)
  refine ⟨p, hp, h.means.unique ?_⟩
  exact .op (.cons hp.means .nil) (Operator.value?_not (strict_ofBool p)) rfl

lemma ite (h : Evaluates J env (.op .ite [c, a, b]) x) : ∃ p y z, Evaluates J env c (.ofBool p) ∧
    Evaluates J env a y ∧ Evaluates J env b z ∧ x = cond p y z := by
  obtain ⟨htc, hta, htb⟩ := h.hasSort.of_ite
  obtain ⟨hsc, hsa, hsb⟩ := isScoped_three.mp h.isScoped
  obtain ⟨p, hp⟩ := of_bool (J := J) htc hsc
  obtain ⟨y, hy, hys⟩ := of_hasSort (J := J) hta hsa
  obtain ⟨z, hz, hzs⟩ := of_hasSort (J := J) htb hsb
  exact ⟨p, y, z, hp, hy, hz, h.means.unique (means_ite hp.means hy.means hz.means (hys.trans hzs.symm))⟩

/-- A truth value as a number. -/
lemma boolToInt (h : Evaluates J env (.op .ite [c, .int 1, .int 0]) x) :
    ∃ p, Evaluates J env c (.ofBool p) ∧ x = .ofInt (cond p 1 0) := by
  obtain ⟨p, y, z, hp, hy, hz, rfl⟩ := h.ite
  rw [hy.means.unique (means_int 1), hz.means.unique (means_int 0)]
  exact ⟨p, hp, by cases p <;> rfl⟩

lemma onInts {f : Int → Int → Element} (h : Evaluates J env (.op o [a, b]) x)
    (ho : o.onInts? J.byZero = some f) :
    ∃ m n, Evaluates J env a (.ofInt m) ∧ Evaluates J env b (.ofInt n) ∧ x = f m n := by
  obtain ⟨hta, htb⟩ := h.hasSort.of_onInts (by cases o <;> first | rfl | cases ho)
  obtain ⟨hsa, hsb⟩ := isScoped_two.mp h.isScoped
  obtain ⟨m, hm⟩ := of_int (J := J) hta hsa
  obtain ⟨n, hn⟩ := of_int (J := J) htb hsb
  refine ⟨m, n, hm, hn, ?_⟩
  have hv := h.means.value
  rw [value?, values?_of_forall₂ (.cons hm.means (.cons hn.means .nil))] at hv
  exact Option.some.inj (hv.symm.trans
    (Operator.value?_onInts ho (strict_ofInt m) (strict_ofInt n)))

lemma onBools {f : Bool → Bool → Bool} {r : Bool} (h : Evaluates J env (.op o [a, b]) (.ofBool r))
    (ho : o.onBools? = some f) :
    ∃ p q, Evaluates J env a (.ofBool p) ∧ Evaluates J env b (.ofBool q) ∧ f p q = r := by
  obtain ⟨a', b', hab, ha, hb⟩ := IsFormula.operands ⟨h.hasSort, h.isScoped⟩ ho
  cases hab
  obtain ⟨p, hp⟩ := of_bool (J := J) ha.hasSort ha.isScoped
  obtain ⟨q, hq⟩ := of_bool (J := J) hb.hasSort hb.isScoped
  exact ⟨p, q, hp, hq, ofBool_inj.mp ((means_onBools ho hp.means hq.means).unique h.means)⟩

lemma eq (h : Evaluates J env (.op .eq [a, b]) x) : ∃ y z p, Evaluates J env a y ∧
    Evaluates J env b z ∧ x = .ofBool p ∧ (p = true ↔ y = z) := by
  classical
  obtain ⟨r, hta, htb⟩ := h.hasSort.of_eq
  obtain ⟨hsa, hsb⟩ := isScoped_two.mp h.isScoped
  obtain ⟨y, hy, hys⟩ := of_hasSort (J := J) hta hsa
  obtain ⟨z, hz, hzs⟩ := of_hasSort (J := J) htb hsb
  exact ⟨y, z, decide (y = z), hy, hz,
    h.means.unique (means_eq (hys.trans hzs.symm) hy.means hz.means), decide_eq_true_iff⟩

end Evaluates

/-- Terms of the given sorts have values. -/
lemma exists_evaluates {as : List Term} {ss : List TermSort} (h : List.Forall₂ HasSort as ss)
    (hscoped : areScoped (sortsOf env) as = true) : ∃ xs, List.Forall₂ (Evaluates J env) as xs := by
  induction h with
  | nil => exact ⟨[], .nil⟩
  | cons ha _ ih =>
    rw [areScoped, Bool.and_eq_true] at hscoped
    obtain ⟨x, hx, -⟩ := Evaluates.of_hasSort (J := J) ha hscoped.1
    obtain ⟨xs, hxs⟩ := ih hscoped.2
    exact ⟨x :: xs, .cons hx hxs⟩

end Horn.Term

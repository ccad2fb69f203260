import Horn.Proofs.Closure

/-!
The sorts of terms and of expressions. A part of a term has just the sort that is wanted of it; in an
expression a Boolean may also stand for an integer, and annotations do not count. Main statement: terms
keep their sorts when they are closed over constants.
-/

namespace Horn

namespace TermSort

/-- What may stand where a part of the first sort is wanted. -/
def Fits (wanted given : TermSort) : Prop := given = wanted ∨ wanted = .int ∧ given = .bool

instance (s t : TermSort) : Decidable (s.Fits t) :=
  inferInstanceAs (Decidable (t = s ∨ s = .int ∧ t = .bool))

/-- The sort to which two parts are brought: the one that both have, or that of the integers for an
integer and a Boolean. -/
def join? : TermSort → TermSort → Option TermSort
  | .int, .bool | .bool, .int => some .int
  | s, t => if s = t then some s else none

@[simp] lemma fits_int_iff {s : TermSort} : Fits .int s ↔ s = .int ∨ s = .bool := by
  simp [Fits]

@[simp] lemma fits_bool_iff {s : TermSort} : Fits .bool s ↔ s = .bool := by
  simp [Fits]

@[simp] lemma fits_array_iff {d r s : TermSort} : Fits (.array d r) s ↔ s = .array d r := by
  simp [Fits]

lemma eq_array_of_join? {s t x y : TermSort} (h : s.join? t = some (.array x y)) :
    s = .array x y := by
  unfold join? at h
  split at h
  · cases h
  · cases h
  · split at h
    · exact Option.some.inj h
    · cases h

end TermSort

namespace Operator

def strictSort? : Operator → List TermSort → Option TermSort
  | .not, [.bool] => some .bool
  | .and, [.bool, .bool] | .or, [.bool, .bool] | .implies, [.bool, .bool] => some .bool
  | .lt, [.int, .int] | .le, [.int, .int] | .gt, [.int, .int] | .ge, [.int, .int] => some .bool
  | .add, [.int, .int] | .sub, [.int, .int] | .mul, [.int, .int] | .div, [.int, .int] => some .int
  | .eq, [s, t] => if s = t then some .bool else none
  | .ite, [.bool, s, t] => if s = t then some s else none
  | .select, [.array d r, i] => if i = d then some r else none
  | .store, [.array d r, i, v] => if i = d ∧ v = r then some (.array d r) else none
  | _, _ => none

/-- The sort of an operator in an expression, over parts of the given sorts. A sum and a product take
Booleans for both integers; a difference, a quotient and an ordering for one of them. -/
def looseSort? : Operator → List TermSort → Option TermSort
  | .not, [.bool] => some .bool
  | .and, [.bool, .bool] | .or, [.bool, .bool] | .implies, [.bool, .bool] => some .bool
  | .lt, [s, t] | .le, [s, t] | .gt, [s, t] | .ge, [s, t] =>
    if s.join? t = some .int then some .bool else none
  | .add, [s, t] | .mul, [s, t] => if TermSort.int.Fits s ∧ TermSort.int.Fits t then some .int else none
  | .sub, [s, t] | .div, [s, t] => if s.join? t = some .int then some .int else none
  | .eq, [s, t] => (s.join? t).map fun _ => .bool
  | .ite, [.bool, s, t] => s.join? t
  | .select, [.array d r, i] => if d.Fits i then some r else none
  | .store, [.array d r, i, v] => if d.Fits i ∧ r.Fits v then some (.array d r) else none
  | _, _ => none

section

variable (q r s : TermSort)

lemma looseSort?_not : not.looseSort? [r] = if r = .bool then some .bool else none := by
  cases r <;> rfl

/-- A connective takes two Booleans. -/
lemma looseSort?_onBools {o : Operator} (ho : o = .and ∨ o = .or ∨ o = .implies) :
    o.looseSort? [r, s] = if r = .bool ∧ s = .bool then some .bool else none := by
  rcases ho with rfl | rfl | rfl <;> cases r <;> cases s <;> rfl

lemma looseSort?_add : add.looseSort? [r, s] =
    if TermSort.int.Fits r ∧ TermSort.int.Fits s then some .int else none := rfl

lemma looseSort?_mul : mul.looseSort? [r, s] =
    if TermSort.int.Fits r ∧ TermSort.int.Fits s then some .int else none := rfl

lemma looseSort?_eq : eq.looseSort? [r, s] = (r.join? s).map fun _ => .bool := rfl

lemma looseSort?_ite : ite.looseSort? [q, r, s] = if q = .bool then r.join? s else none := by
  cases q <;> rfl

variable (d e : TermSort)

lemma looseSort?_select : select.looseSort? [.array d e, r] = if d.Fits r then some e else none := rfl

lemma looseSort?_store : store.looseSort? [.array d e, r, s] =
    if d.Fits r ∧ e.Fits s then some (.array d e) else none := rfl

end

end Operator

/-- **The sort of a term**, each part of which has just the sort that is wanted. -/
inductive Term.HasSort : Term → TermSort → Prop where
  | bool (b : Bool) : HasSort (.bool b) .bool
  | int (n : Int) : HasSort (.int n) .int
  | var (i : Nat) (s : TermSort) : HasSort (.var i s) s
  | app {f : Symbol} {ts : List Term} (hts : List.Forall₂ HasSort ts f.domain) :
    HasSort (.app f ts) f.range
  | op {o : Operator} {ts : List Term} {ss : List TermSort} {s : TermSort}
    (hts : List.Forall₂ HasSort ts ss) (hs : o.strictSort? ss = some s) : HasSort (.op o ts) s
  | quant {q : Quantifier} {bs : List (String × TermSort)} {t : Term} (ht : HasSort t .bool) :
    HasSort (.quant q bs t) .bool

/-- **The sort of an expression.** A declared name is never read as a literal or an operator. -/
inductive Expr.HasSort (Γ : Symbols) : Expr → TermSort → Prop where
  | constant {n : String} {a : SortSpec} {d : Declaration} {s : TermSort}
    (hd : Γ.find? n = some d) (hs : d.spec.toTermSort = .ok s) : HasSort Γ (.node n [] a) s
  | call {n : String} {es : List Expr} {a : SortSpec} {d : Declaration} {ds : List SortSpec}
    {c : SortSpec} {dom ss : List TermSort} {s : TermSort} (hd : Γ.find? n = some d)
    (hf : d.spec = .function ds c) (hdom : ds.mapM SortSpec.toTermSort = .ok dom)
    (hc : c.toTermSort = .ok s) (hes : List.Forall₂ (HasSort Γ) es ss)
    (hfits : List.Forall₂ TermSort.Fits dom ss) : HasSort Γ (.node n es a) s
  | truth {n : String} {a : SortSpec} (hn : Γ.find? n = none) (h : n = "true" ∨ n = "false") :
    HasSort Γ (.node n [] a) .bool
  | numeral {n : String} {a : SortSpec} {k : Int} (hn : Γ.find? n = none)
    (hk : Decimal.toInt? n.toList = some k) : HasSort Γ (.node n [] a) .int
  | operator {n : String} {es : List Expr} {a : SortSpec} {o : Operator} {ss : List TermSort}
    {s : TermSort} (hn : Γ.find? n = none) (ho : o.name = n)
    (hes : List.Forall₂ (HasSort Γ) es ss) (hs : o.looseSort? ss = some s) :
    HasSort Γ (.node n es a) s

namespace Operator

variable {o : Operator} {ts : List Term} {ss : List TermSort} {s : TermSort}

lemma strictSort?_ite (h : ite.strictSort? ss = some s) : ss = [.bool, s, s] := by
  unfold strictSort? at h
  split at h <;> try contradiction
  split at h
  · rename_i hst
    cases h
    rw [hst]
  · cases h

lemma strictSort?_select (h : select.strictSort? ss = some s) : ∃ d, ss = [.array d s, d] := by
  unfold strictSort? at h
  split at h <;> try contradiction
  split at h
  · rename_i hi
    cases h
    exact ⟨_, by rw [hi]⟩
  · cases h

lemma strictSort?_store (h : store.strictSort? ss = some s) : ∃ i v, ss = [s, i, v] := by
  unfold strictSort? at h
  split at h <;> try contradiction
  split at h
  · cases h
    exact ⟨_, _, rfl⟩
  · cases h

/-- What an operator tells of its sort agrees with the sort of the term. -/
lemma sort_of_strictSort? (h : o.strictSort? (ts.map Term.sort) = some s) :
    (Term.op o ts).sort = s := by
  cases o with
  | ite =>
    obtain ⟨c, a, b, rfl, -, ha, -⟩ : ∃ c a b, ts = [c, a, b] ∧ c.sort = .bool ∧ a.sort = s ∧
        b.sort = s := by
      simpa [List.map_eq_cons_iff] using strictSort?_ite h
    rw [Term.sort, ha]
  | select =>
    obtain ⟨d, h⟩ := strictSort?_select h
    obtain ⟨a, i, rfl, ha, -⟩ : ∃ a i, ts = [a, i] ∧ a.sort = .array d s ∧ i.sort = d := by
      simpa [List.map_eq_cons_iff] using h
    rw [Term.sort, ha]
  | store =>
    obtain ⟨i, v, h⟩ := strictSort?_store h
    obtain ⟨a, j, w, rfl, ha, -⟩ : ∃ a j w, ts = [a, j, w] ∧ a.sort = s ∧ j.sort = i ∧
        w.sort = v := by
      simpa [List.map_eq_cons_iff] using h
    rw [Term.sort, ha]
  | eq =>
    unfold strictSort? at h
    split at h <;> try contradiction
    split at h <;> cases h
    rfl
  | _ =>
    unfold strictSort? at h
    split at h <;> first | contradiction | cases h; rfl

end Operator

namespace Term

mutual

/-- **A term has no other sort than that of its head.** -/
theorem HasSort.sort_eq {t : Term} {s : TermSort} (h : t.HasSort s) : t.sort = s := by
  match t with
  | .bool b => cases h; rfl
  | .int n => cases h; rfl
  | .var i r => cases h; rfl
  | .app f ts => cases h; rfl
  | .quant q bs u => cases h; rfl
  | .op o ts =>
    cases h with
    | op hts hs =>
      rw [← map_sort_of_hasSort hts] at hs
      exact Operator.sort_of_strictSort? hs

theorem map_sort_of_hasSort {ts : List Term} {ss : List TermSort}
    (h : List.Forall₂ HasSort ts ss) : ts.map sort = ss := by
  match ts with
  | [] => cases h; rfl
  | t :: ts =>
    cases h with
    | cons ht hts => rw [List.map_cons, ht.sort_eq, map_sort_of_hasSort hts]

end

mutual

/-- **Closing a term over constants keeps its sort**: a variable has that of its constant. -/
theorem HasSort.closeAt {t : Term} {s : TermSort} (cs : List Symbol) (k : Nat) (h : t.HasSort s) :
    (t.closeAt cs k).HasSort s := by
  match t with
  | .bool b => exact h
  | .int n => exact h
  | .var i r => cases h; exact .var _ _
  | .quant q bs u =>
    cases h with
    | quant hu => exact .quant (hu.closeAt cs _)
  | .op o ts =>
    cases h with
    | op hts hs => exact .op (hasSort_closeAllAt cs k hts) hs
  | .app f ts =>
    cases h with
    | app hts =>
      rcases hi : cs.reverse.idxOf? f with _ | i
      · rw [closeAt_app fun _ => hi]
        exact .app (hasSort_closeAllAt cs k hts)
      · rcases ts with _ | ⟨t, ts⟩
        · rw [closeAt_const hi]
          exact .var _ _
        · rw [closeAt_app (by simp)]
          exact .app (hasSort_closeAllAt cs k hts)

theorem hasSort_closeAllAt {ts : List Term} {ss : List TermSort} (cs : List Symbol) (k : Nat)
    (h : List.Forall₂ HasSort ts ss) : List.Forall₂ HasSort (closeAllAt cs k ts) ss := by
  match ts with
  | [] => exact h
  | t :: ts =>
    cases h with
    | cons ht hts => exact .cons (ht.closeAt cs k) (hasSort_closeAllAt cs k hts)

end

end Term

end Horn

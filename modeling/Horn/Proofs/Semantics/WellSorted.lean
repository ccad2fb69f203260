import Horn.Proofs.Semantics.Translation
import Horn.Proofs.Sorting.Basic

/-!
Values of terms whose parts fit together. Main statement: if each index of such a term points to a variable
in sight that has its sort, then the term has a value, which is of the sort of the term.
-/

namespace Horn

open Element

section

variable {xs : List Element} {s t u : TermSort} {ss : List TermSort}

lemma exists_of_sortsOf_cons (h : sortsOf xs = s :: ss) : ∃ v ys, xs = ⟨s, v⟩ :: ys ∧ sortsOf ys = ss := by
  obtain ⟨⟨_, v⟩, ys, rfl, rfl, rfl⟩ := List.map_eq_cons_iff.mp h
  exact ⟨v, ys, rfl, rfl⟩

lemma exists_of_sortsOf_one (h : sortsOf xs = [s]) : ∃ v, xs = [⟨s, v⟩] := by
  obtain ⟨v, ys, rfl, hys⟩ := exists_of_sortsOf_cons h
  exact ⟨v, by rw [List.map_eq_nil_iff.mp hys]⟩

lemma exists_of_sortsOf_two (h : sortsOf xs = [s, t]) : ∃ v w, xs = [⟨s, v⟩, ⟨t, w⟩] := by
  obtain ⟨v, ys, rfl, hys⟩ := exists_of_sortsOf_cons h
  obtain ⟨w, rfl⟩ := exists_of_sortsOf_one hys
  exact ⟨v, w, rfl⟩

lemma exists_of_sortsOf_three (h : sortsOf xs = [s, t, u]) :
    ∃ v w x, xs = [⟨s, v⟩, ⟨t, w⟩, ⟨u, x⟩] := by
  obtain ⟨v, ys, rfl, hys⟩ := exists_of_sortsOf_cons h
  obtain ⟨w, x, rfl⟩ := exists_of_sortsOf_two hys
  exact ⟨v, w, x, rfl⟩

end

namespace Operator

variable {z : Int → Int} {o : Operator} {s : TermSort} {ss : List TermSort} {xs : List Element}

lemma strictSort?_onInts (ho : o.onInts = true) (h : o.strictSort? ss = some s) :
    ss = [.int, .int] ∧ s = (Term.op o []).sort := by
  unfold strictSort? at h
  split at h <;> first | cases ho | cases h
  all_goals exact ⟨rfl, (Option.some.inj h).symm⟩

lemma strictSort?_onBools {f : Bool → Bool → Bool} (ho : o.onBools? = some f)
    (h : o.strictSort? ss = some s) : ss = [.bool, .bool] ∧ s = .bool := by
  unfold strictSort? at h
  split at h <;> first | cases ho | cases h
  all_goals exact ⟨rfl, (Option.some.inj h).symm⟩

/-- **An operator has a value** for values of just the sorts that it takes. -/
lemma exists_value? (h : o.strictSort? (sortsOf xs) = some s) :
    ∃ v, o.value? strict z xs = some v ∧ v.sort = s := by
  have honInts : o.onInts = true → ∃ v, o.value? strict z xs = some v ∧ v.sort = s := by
    intro ho
    obtain ⟨hxs, rfl⟩ := strictSort?_onInts ho h
    obtain ⟨m, n, rfl⟩ := exists_of_sortsOf_two hxs
    obtain ⟨f, hf, hsort⟩ := exists_onInts? (z := z) ho
    exact ⟨f m n, value?_onInts hf (strict_ofInt m) (strict_ofInt n), hsort [] m n⟩
  have honBools : ∀ f, o.onBools? = some f → ∃ v, o.value? strict z xs = some v ∧ v.sort = s := by
    intro f hf
    obtain ⟨hxs, rfl⟩ := strictSort?_onBools hf h
    obtain ⟨p, q, rfl⟩ := exists_of_sortsOf_two hxs
    exact ⟨_, value?_onBools hf (strict_ofBool p) (strict_ofBool q), rfl⟩
  cases o with
  | ite =>
    obtain ⟨c, x, y, rfl⟩ := exists_of_sortsOf_three (strictSort?_ite h)
    refine ⟨_, value?_ite (strict_ofBool c) (meet?_of_sort_eq rfl), ?_⟩
    cases (c : Bool) <;> rfl
  | not =>
    unfold strictSort? at h
    split at h <;> try contradiction
    rename_i hxs
    cases h
    obtain ⟨p, rfl⟩ := exists_of_sortsOf_one hxs
    exact ⟨_, value?_not (strict_ofBool p), rfl⟩
  | eq =>
    unfold strictSort? at h
    split at h <;> try contradiction
    rename_i hxs
    split at h
    · rename_i hst
      cases h
      subst hst
      obtain ⟨x, y, rfl⟩ := exists_of_sortsOf_two hxs
      exact ⟨_, value?_eq (meet?_of_sort_eq rfl), rfl⟩
    · cases h
  | select =>
    obtain ⟨d, hxs⟩ := strictSort?_select h
    obtain ⟨a, i, rfl⟩ := exists_of_sortsOf_two hxs
    exact ⟨_, value?_select (strict_mk d i), rfl⟩
  | store =>
    unfold strictSort? at h
    split at h <;> try contradiction
    rename_i hxs
    split at h
    · rename_i hiv
      cases h
      obtain ⟨rfl, rfl⟩ := hiv
      obtain ⟨a, i, v, rfl⟩ := exists_of_sortsOf_three hxs
      exact ⟨_, value?_store (strict_mk _ i) (strict_mk _ v), rfl⟩
    · cases h
  | and | or | implies => exact honBools _ rfl
  | lt | le | gt | ge | add | sub | mul | div => exact honInts rfl

end Operator

namespace Element

@[simp] lemma ofInt_inj {m n : Int} : ofInt m = ofInt n ↔ m = n :=
  ⟨fun h => eq_of_heq (Element.mk.inj h).2, fun h => by rw [h]⟩

@[simp] lemma strict_self (x : Element) : strict x.sort x = some x.val := strict_mk x.sort x.val

/-- Values of just the sorts that are wanted are read as they are. -/
lemma readAll?_strict_self (xs : List Element) : readAll? strict (sortsOf xs) xs = some xs := by
  induction xs with
  | nil => rfl
  | cons x xs ih =>
    rw [sortsOf, List.map_cons, ← sortsOf, readAll?, strict_self, ih]
    rfl

end Element

instance : Inhabited Interpretation := ⟨⟨fun f _ => f.range.someValue, fun _ => 0⟩⟩

namespace Term

variable {J : Interpretation} {env : List Element}

section

variable {f : Symbol} {ts : List Term} {xs : List Element}

lemma sortsOf_of_means (h : List.Forall₂ (Means J env) ts xs) : sortsOf xs = ts.map sort := by
  induction h with
  | nil => rfl
  | cons hx _ ih => rw [List.map_cons, ← ih, ← hx.sort]; rfl

/-- The arguments of a symbol have values of just the sorts of its domain. -/
lemma value?_app (h : List.Forall₂ (Means J env) ts xs) (hs : ts.map sort = f.domain) :
    (Term.app f ts).value? J env = some ⟨f.range, J.apply f xs⟩ := by
  rw [value?, values?_of_forall₂ h, ← hs, ← sortsOf_of_means h]
  change (readAll? strict (sortsOf xs) xs >>= fun ys => some _) = _
  rw [readAll?_strict_self]
  rfl

end

mutual

/-- **A term whose parts fit together has a value**, if its indices point to variables of their sorts. -/
theorem HasSort.exists_means {t : Term} {s : TermSort} (h : t.HasSort s)
    (hscoped : t.isScoped (sortsOf env) = true) : ∃ x, Means J env t x := by
  match t with
  | .bool b => exact ⟨_, means_bool b⟩
  | .int n => exact ⟨_, means_int n⟩
  | .var i r =>
    rw [isScoped, beq_iff_eq, List.getElem?_map, Option.map_eq_some_iff] at hscoped
    obtain ⟨⟨_, v⟩, hi, rfl⟩ := hscoped
    exact ⟨⟨_, v⟩, by rw [value?, hi]; simp, rfl⟩
  | .app f ts =>
    cases h with
    | app hts =>
      obtain ⟨xs, hxs⟩ := exists_means_all hts hscoped
      exact ⟨_, value?_app hxs (map_sort_of_hasSort hts), rfl⟩
  | .op o ts =>
    cases h with
    | op hts hs =>
      obtain ⟨xs, hxs⟩ := exists_means_all hts hscoped
      rw [← map_sort_of_hasSort hts, ← sortsOf_of_means hxs] at hs
      obtain ⟨v, hv, rfl⟩ := Operator.exists_value? (z := J.byZero) hs
      rw [sortsOf_of_means hxs] at hs
      exact ⟨v, .op hxs hv (Operator.sort_of_strictSort? hs).symm⟩
  | .quant .all bs u => exact ⟨_, by rw [value?], rfl⟩
  | .quant .any bs u => exact ⟨_, by rw [value?], rfl⟩

theorem exists_means_all {ts : List Term} {ss : List TermSort} (h : List.Forall₂ HasSort ts ss)
    (hscoped : areScoped (sortsOf env) ts = true) : ∃ xs, List.Forall₂ (Means J env) ts xs := by
  match ts with
  | [] => exact ⟨[], .nil⟩
  | t :: ts =>
    cases h with
    | cons ht hts =>
      rw [areScoped, Bool.and_eq_true] at hscoped
      obtain ⟨x, hx⟩ := ht.exists_means hscoped.1
      obtain ⟨xs, hxs⟩ := exists_means_all hts hscoped.2
      exact ⟨x :: xs, .cons hx hxs⟩

end

end Term

end Horn

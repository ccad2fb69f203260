import Horn.Proofs.Closure
import Horn.Proofs.Semantics.Element

/-!
Values of terms under an interpretation of their symbols. Main statement: a term closed over constants is
true if the term is true under every assignment to the constants, or under some, as the binder says.
-/

namespace Horn

/-- What the symbols stand for, and what becomes of a number that is divided by zero. -/
structure Interpretation where
  apply : (f : Symbol) → List Element → f.range.Carrier
  byZero : Int → Int

abbrev Assignment := (c : Symbol) → c.range.Carrier

namespace Interpretation

/-- The interpretation in which the given constants have the assigned values. -/
def assign (I : Interpretation) (cs : List Symbol) (ρ : Assignment) : Interpretation where
  apply f xs := if f ∈ cs then ρ f else I.apply f xs
  byZero := I.byZero

@[simp] lemma assign_byZero (I : Interpretation) (cs : List Symbol) (ρ : Assignment) :
    (I.assign cs ρ).byZero = I.byZero := rfl

lemma assign_of_mem {cs : List Symbol} {f : Symbol} (h : f ∈ cs) (I : Interpretation)
    (ρ : Assignment) (xs : List Element) : (I.assign cs ρ).apply f xs = ρ f := if_pos h

lemma assign_of_not_mem {cs : List Symbol} {f : Symbol} (h : f ∉ cs) (I : Interpretation)
    (ρ : Assignment) : (I.assign cs ρ).apply f = I.apply f := by
  funext xs
  exact if_neg h

end Interpretation

abbrev sortsOf (xs : List Element) : List TermSort := xs.map (·.sort)

namespace Term

open Element

open scoped Classical in
mutual

/-- **The value of a term** whose parts fit together; `env` holds the values of the variables in sight,
that of the index 0 first. A binder speaks of all values of its variables' sorts. -/
noncomputable def value? (I : Interpretation) (env : List Element) : Term → Option Element
  | .bool b => some (.ofBool b)
  | .int n => some (.ofInt n)
  | .app f as => do
    let xs ← values? I env as
    let ys ← readAll? strict f.domain xs
    return ⟨f.range, I.apply f ys⟩
  | .op o as => do
    let xs ← values? I env as
    o.value? strict I.byZero xs
  | .var i s => do
    let x ← env[i]?
    let v ← strict s x
    return ⟨s, v⟩
  | .quant .all bs t => some (.ofBool (decide (∀ xs, sortsOf xs = bs.map (·.2) →
      value? I (xs.reverse ++ env) t = some (.ofBool true))))
  | .quant .any bs t => some (.ofBool (decide (∃ xs, sortsOf xs = bs.map (·.2) ∧
      value? I (xs.reverse ++ env) t = some (.ofBool true))))

noncomputable def values? (I : Interpretation) (env : List Element) : List Term → Option (List Element)
  | [] => some []
  | t :: ts => do
    let x ← value? I env t
    let xs ← values? I env ts
    return x :: xs

end

def Holds (t : Term) (I : Interpretation) : Prop := t.value? I [] = some (.ofBool true)

/-! ### Terms closed over constants -/

/-- The values of variables are those of constants, the last constant first. -/
structure Agree (cs : List Symbol) (ρ : Assignment) (xs : List Element) : Prop where
  length : xs.length = cs.length
  value : ∀ f i, cs.reverse.idxOf? f = some i → xs[i]? = some ⟨f.range, ρ f⟩

section

variable {I : Interpretation} {env : List Element}

lemma values?_eq_some_nil {ts : List Term} : values? I env ts = some [] ↔ ts = [] := by
  constructor
  · intro h
    rcases ts with _ | ⟨t, ts⟩
    · rfl
    · rw [values?, Option.bind_eq_bind, Option.bind_eq_some_iff] at h
      obtain ⟨x, -, h⟩ := h
      rw [Option.bind_eq_bind, Option.bind_eq_some_iff] at h
      obtain ⟨xs, -, h⟩ := h
      cases h
  · rintro rfl
    rw [values?]

/-- A symbol without arguments has no value where it is given some. -/
lemma value?_app_cons {f : Symbol} {t : Term} {ts : List Term} (hf : f.domain = []) :
    value? I env (.app f (t :: ts)) = none := by
  rw [value?, hf]
  rcases hx : values? I env (t :: ts) with _ | ⟨_ | ⟨x, xs⟩⟩
  · rfl
  · rw [values?_eq_some_nil] at hx
    cases hx
  · rfl

lemma value?_const {c : Symbol} (hc : c.domain = []) :
    value? I env (.const c) = some ⟨c.range, I.apply c []⟩ := by
  rw [const, value?, values?, hc]
  rfl

variable {cs : List Symbol} {ρ : Assignment} {xs : List Element}

mutual

/-- **A closed term has the value of the term**, if the variables have the values of the constants. -/
theorem value?_closeAt (hcs : ∀ c ∈ cs, c.domain = []) (ha : Agree cs ρ xs) (pre : List Element)
    (t : Term) : value? I (pre ++ (xs ++ env)) (t.closeAt cs pre.length) =
      value? (I.assign cs ρ) (pre ++ env) t := by
  match t with
  | .bool b => rw [closeAt, value?, value?]
  | .int n => rw [closeAt, value?, value?]
  | .app f as =>
    rcases hi : cs.reverse.idxOf? f with _ | i
    · have hf : f ∉ cs := by
        rwa [List.idxOf?_eq_none_iff, List.mem_reverse] at hi
      rw [closeAt_app fun _ => hi, value?, value?, values?_closeAllAt hcs ha pre as,
        Interpretation.assign_of_not_mem hf]
    · obtain ⟨hget, hlt⟩ := getElem?_of_idxOf? hi
      have hf : f ∈ cs := List.mem_reverse.mp (List.mem_of_getElem? hget)
      rcases as with _ | ⟨a, as⟩
      · have hin : (pre ++ (xs ++ env))[pre.length + i]? = some ⟨f.range, ρ f⟩ := by
          rw [List.getElem?_append_right (by omega), Nat.add_sub_cancel_left,
            List.getElem?_append_left (by rw [ha.length]; exact hlt), ha.value f i hi]
        change _ = value? (I.assign cs ρ) (pre ++ env) (.const f)
        rw [closeAt_const hi, value?_const (hcs f hf), Interpretation.assign_of_mem hf, value?, hin]
        simp
      · rw [closeAt_app (by simp), closeAllAt, value?_app_cons (hcs f hf),
          value?_app_cons (hcs f hf)]
  | .op o as => rw [closeAt, value?, value?, values?_closeAllAt hcs ha pre as,
      Interpretation.assign_byZero]
  | .var i s =>
    rw [closeAt, value?, value?]
    by_cases hk : pre.length ≤ i
    · rw [if_pos hk, List.getElem?_append_right (by omega),
        List.getElem?_append_right (by rw [ha.length]; omega), List.getElem?_append_right hk]
      congr 2
      rw [ha.length]
      omega
    · rw [if_neg hk, List.getElem?_append_left (by omega), List.getElem?_append_left (by omega)]
  | .quant q bs t =>
    have ih : ∀ ys, sortsOf ys = bs.map (·.2) →
        value? I (ys.reverse ++ (pre ++ (xs ++ env))) (t.closeAt cs (pre.length + bs.length)) =
          value? (I.assign cs ρ) (ys.reverse ++ (pre ++ env)) t := by
      intro ys hys
      have hlen : (ys.reverse ++ pre).length = pre.length + bs.length := by
        have := congrArg List.length hys
        rw [List.length_map, List.length_map] at this
        rw [List.length_append, List.length_reverse, this, Nat.add_comm]
      have h := value?_closeAt hcs ha (ys.reverse ++ pre) t
      rwa [hlen, List.append_assoc, List.append_assoc] at h
    cases q with
    | all =>
      rw [closeAt, value?, value?]
      congr 3
      exact propext (forall_congr' fun ys => imp_congr_right fun hys => by rw [ih ys hys])
    | any =>
      rw [closeAt, value?, value?]
      congr 3
      exact propext (exists_congr fun ys => and_congr_right fun hys => by rw [ih ys hys])

theorem values?_closeAllAt (hcs : ∀ c ∈ cs, c.domain = []) (ha : Agree cs ρ xs)
    (pre : List Element) (ts : List Term) : values? I (pre ++ (xs ++ env)) (closeAllAt cs pre.length ts) =
      values? (I.assign cs ρ) (pre ++ env) ts := by
  match ts with
  | [] => rw [closeAllAt, values?, values?]
  | t :: ts =>
    rw [closeAllAt, values?, values?, value?_closeAt hcs ha pre t, values?_closeAllAt hcs ha pre ts]

end

end

section

variable {I : Interpretation} {cs : List Symbol} {t : Term}

/-- For every assignment there are variables that agree with it. -/
lemma agree_map (cs : List Symbol) (ρ : Assignment) :
    Agree cs ρ (cs.map fun c => (⟨c.range, ρ c⟩ : Element)).reverse where
  length := by rw [List.length_reverse, List.length_map]
  value f i hi := by
    rw [← List.map_reverse, List.getElem?_map, (getElem?_of_idxOf? hi).1, Option.map_some]

/-- For all variables of the constants' sorts there is an assignment that agrees with them. -/
lemma exists_agree {xs : List Element} (h : sortsOf xs = cs.map (·.range)) :
    ∃ ρ, Agree cs ρ xs.reverse := by
  refine ⟨fun f => (((cs.reverse.idxOf? f).bind fun i => xs.reverse[i]?).bind
    (strict f.range)).getD f.range.someValue, ?_, ?_⟩
  · have hlen := congrArg List.length h
    rwa [List.length_map, List.length_map, ← List.length_reverse] at hlen
  · intro f i hi
    have hsort : (sortsOf xs.reverse)[i]? = some f.range := by
      rw [sortsOf, List.map_reverse, ← sortsOf, h, ← List.map_reverse, List.getElem?_map,
        (getElem?_of_idxOf? hi).1, Option.map_some]
    rw [List.getElem?_map, Option.map_eq_some_iff] at hsort
    obtain ⟨⟨s, v⟩, hx, rfl⟩ := hsort
    rw [hx, hi, Option.bind_some, hx, Option.bind_some, strict_mk, Option.getD_some]

/-- For every assignment there are variables under which the body of a closed term has the value of the
term. -/
lemma exists_values (hcs : ∀ c ∈ cs, c.domain = []) (t : Term) (ρ : Assignment) :
    ∃ xs, sortsOf xs = cs.map (·.range) ∧
      value? I (xs.reverse ++ []) (t.closeAt cs 0) = value? (I.assign cs ρ) [] t := by
  refine ⟨cs.map fun c => ⟨c.range, ρ c⟩, ?_, value?_closeAt hcs (agree_map cs ρ) [] t⟩
  rw [sortsOf, List.map_map]
  rfl

/-- For all variables there is an assignment under which the term has the value of the body of the
closed one. -/
lemma exists_assignment (hcs : ∀ c ∈ cs, c.domain = []) (t : Term) {xs : List Element}
    (hxs : sortsOf xs = cs.map (·.range)) :
    ∃ ρ, value? I (xs.reverse ++ []) (t.closeAt cs 0) = value? (I.assign cs ρ) [] t := by
  obtain ⟨ρ, ha⟩ := exists_agree hxs
  exact ⟨ρ, value?_closeAt hcs ha [] t⟩

lemma close_cons (q : Quantifier) (c : Symbol) (cs : List Symbol) (t : Term) :
    t.close q (c :: cs) =
      .quant q ((c :: cs).map fun c => (c.name, c.range)) (t.closeAt (c :: cs) 0) := rfl

lemma binder_sorts (cs : List Symbol) :
    (cs.map fun c => (c.name, c.range)).map (·.2) = cs.map (·.range) := by
  rw [List.map_map]
  rfl

open scoped Classical in
/-- **A closed rule holds if the rule holds whatever the constants are.** -/
theorem holds_close_all (hcs : ∀ c ∈ cs, c.domain = []) :
    (t.close .all cs).Holds I ↔ ∀ ρ, t.Holds (I.assign cs ρ) := by
  rcases cs with _ | ⟨c, cs⟩
  · exact ⟨fun h _ => h, fun h => h fun c => c.range.someValue⟩
  · rw [close_cons, Holds, value?, binder_sorts, Option.some.injEq, ofBool_inj, decide_eq_true_eq]
    constructor
    · intro h ρ
      obtain ⟨xs, hxs, hv⟩ := exists_values hcs t ρ
      rw [Holds, ← hv]
      exact h xs hxs
    · intro h xs hxs
      obtain ⟨ρ, hv⟩ := exists_assignment hcs t hxs
      rw [hv]
      exact h ρ

open scoped Classical in
/-- **A closed goal holds if the goal holds for some constants.** -/
theorem holds_close_any (hcs : ∀ c ∈ cs, c.domain = []) :
    (t.close .any cs).Holds I ↔ ∃ ρ, t.Holds (I.assign cs ρ) := by
  rcases cs with _ | ⟨c, cs⟩
  · exact ⟨fun h => ⟨fun c => c.range.someValue, h⟩, fun ⟨_, h⟩ => h⟩
  · rw [close_cons, Holds, value?, binder_sorts, Option.some.injEq, ofBool_inj, decide_eq_true_eq]
    constructor
    · rintro ⟨xs, hxs, hx⟩
      obtain ⟨ρ, hv⟩ := exists_assignment hcs t hxs
      rw [hv] at hx
      exact ⟨ρ, hx⟩
    · rintro ⟨ρ, h⟩
      obtain ⟨xs, hxs, hv⟩ := exists_values hcs t ρ
      exact ⟨xs, hxs, hv.trans h⟩

end

end Term

end Horn

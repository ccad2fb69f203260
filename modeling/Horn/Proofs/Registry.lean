import Mathlib.Data.List.Induction
import Horn.Proofs.Sorting.Translation
import Horn.Proofs.Stability

/-!
The registry that any sequence of declarations makes. Main statement: constants and functions share the
names between them, each name under the kind of its sort; both are listed in the order in which their
names were first declared with success, and later declarations only add to their ends.
-/

namespace Horn

lemma SortSpec.isFunction_eq_of_same {s t : SortSpec} (h : s.same t = true) :
    s.isFunction = t.isFunction := by
  cases s <;> cases t <;> first | rfl | simp [same] at h

namespace Symbols

variable {Γ : Symbols} {n : String}

def sort? (Γ : Symbols) (n : String) : Option SortSpec := (Γ.find? n).map (·.spec)

def succeeds (Γ : Symbols) (x : String × SortSpec) : Bool := (Γ.declare x.1 x.2).isOk

/-- Those of the declarations that succeed, each at the table that it meets. -/
def successes (Γ : Symbols) : List (String × SortSpec) → List (String × SortSpec)
  | [] => []
  | x :: xs => (if Γ.succeeds x then [x] else []) ++ (Γ.tryDeclare x).successes xs

/-! ### One more declaration -/

inductive TryEnd (Γ : Symbols) (x : String × SortSpec) : Bool → Symbols → Prop where
  | failed : TryEnd Γ x false Γ
  | again {d : Declaration} (hd : Γ.find? x.1 = some d) (hs : d.spec.same x.2 = true) :
    TryEnd Γ x true Γ
  | added {f : Symbol} (hn : Γ.find? x.1 = none) (hf : x.2.toSymbol x.1 = .ok f) :
    TryEnd Γ x true (Γ.add ⟨x.1, x.2, f⟩)

lemma tryDeclare_ends (Γ : Symbols) (x : String × SortSpec) :
    TryEnd Γ x (Γ.succeeds x) (Γ.tryDeclare x) := by
  unfold succeeds tryDeclare
  rcases hd : Γ.declare x.1 x.2 with e | Γ'
  · exact .failed
  · rcases declare_eq_ok hd with ⟨rfl, d, hf, hs⟩ | ⟨hn, f, hf, rfl⟩
    · exact .again hf hs
    · exact .added hn hf

lemma declareAll_append (Γ : Symbols) (xs ys : List (String × SortSpec)) :
    Γ.declareAll (xs ++ ys) = (Γ.declareAll xs).declareAll ys :=
  List.foldl_append

lemma successes_append (xs ys : List (String × SortSpec)) :
    Γ.successes (xs ++ ys) = Γ.successes xs ++ (Γ.declareAll xs).successes ys := by
  induction xs generalizing Γ with
  | nil => rfl
  | cons x xs ih => rw [List.cons_append, successes, successes, ih, List.append_assoc]; rfl

/-! ### Names and their kinds -/

section

variable (h : Γ.WellFormed)
include h

lemma WellFormed.sort?_of_mem {d : Declaration} (hd : d ∈ Γ.declarations) :
    Γ.sort? d.name = some d.spec := by
  rw [sort?, h.find?_eq_some_iff.mpr ⟨hd, rfl⟩, Option.map_some]

/-- **The names of a kind are those with a sort of that kind.** -/
lemma WellFormed.mem_names_iff (p : SortSpec → Bool) :
    n ∈ (Γ.declarations.filter fun d => p d.spec).map (·.name) ↔
      ∃ s, Γ.sort? n = some s ∧ p s = true := by
  constructor
  · intro hn
    obtain ⟨d, hd, rfl⟩ := List.mem_map.mp hn
    obtain ⟨hd, hp⟩ := List.mem_filter.mp hd
    exact ⟨d.spec, h.sort?_of_mem hd, hp⟩
  · rintro ⟨s, hs, hp⟩
    obtain ⟨d, hd, rfl⟩ := Option.map_eq_some_iff.mp hs
    obtain ⟨hmem, rfl⟩ := h.find?_eq_some_iff.mp hd
    exact List.mem_map.mpr ⟨d, List.mem_filter.mpr ⟨hmem, hp⟩, rfl⟩

lemma WellFormed.nodup_names (p : Declaration → Bool) :
    ((Γ.declarations.filter p).map (·.name)).Nodup :=
  h.nodup.sublist (List.filter_sublist.map _)

lemma WellFormed.mem_constant_names_iff : n ∈ Γ.constants.map (·.name) ↔
    ∃ s, Γ.sort? n = some s ∧ (!s.isFunction) = true :=
  h.mem_names_iff fun s => !s.isFunction

lemma WellFormed.mem_function_names_iff : n ∈ Γ.functions.map (·.name) ↔
    ∃ s, Γ.sort? n = some s ∧ s.isFunction = true :=
  h.mem_names_iff SortSpec.isFunction

/-- No name is listed twice, since it has one sort, which is of one kind. -/
lemma WellFormed.nodup_listed :
    (Γ.constants.map (·.name) ++ Γ.functions.map (·.name)).Nodup := by
  refine List.nodup_append.mpr ⟨h.nodup_names _, h.nodup_names _, ?_⟩
  rintro n hn _ hn' rfl
  obtain ⟨s, hs, hk⟩ := h.mem_constant_names_iff.mp hn
  obtain ⟨s', hs', hk'⟩ := h.mem_function_names_iff.mp hn'
  rw [hs] at hs'
  cases hs'
  rw [hk'] at hk
  cases hk

lemma WellFormed.mem_listed_iff : n ∈ Γ.constants.map (·.name) ++ Γ.functions.map (·.name) ↔
    ∃ s, Γ.sort? n = some s := by
  rw [List.mem_append, h.mem_constant_names_iff, h.mem_function_names_iff, ← exists_or]
  refine exists_congr fun s => ?_
  cases s.isFunction <;> simp

lemma WellFormed.mem_functions_iff_sort : n ∈ Γ.functions.map (·.name) ↔
    ∃ ds c, Γ.sort? n = some (.function ds c) := by
  rw [h.mem_function_names_iff]
  constructor
  · rintro ⟨s, hs, hk⟩
    cases s with
    | function ds c => exact ⟨ds, c, hs⟩
    | _ => cases hk
  · rintro ⟨ds, c, hs⟩
    exact ⟨_, hs, rfl⟩

/-- A constant is of the sort of terms that its recorded sort stands for. -/
lemma WellFormed.constant_symbol {d : Declaration} (hd : d ∈ Γ.constants) :
    ∃ τ, d.spec.toTermSort = .ok τ ∧ d.symbol = ⟨Symbol.nameOf d.name, [], τ⟩ := by
  obtain ⟨hd, hk⟩ := List.mem_filter.mp hd
  have hmade := h.made d hd
  rw [Bool.not_eq_true'] at hk
  obtain ⟨hname, hdom⟩ := SortSpec.toSymbol_eq_ok hmade
  exact ⟨d.symbol.range, SortSpec.toSymbol_constant_eq_ok hk hmade,
    Symbol.eq_of_parts hname (hdom hk) rfl⟩

/-- A function is of the domain and the codomain that its recorded sort stands for. -/
lemma WellFormed.function_symbol {d : Declaration} (hd : d ∈ Γ.functions) :
    ∃ ds c δ τ, d.spec = .function ds c ∧ ds.mapM SortSpec.toTermSort = .ok δ ∧
      c.toTermSort = .ok τ ∧ d.symbol = ⟨Symbol.nameOf d.name, δ, τ⟩ := by
  obtain ⟨hd, hk⟩ := List.mem_filter.mp hd
  have hmade := h.made d hd
  rcases hs : d.spec with _ | _ | _ | _ | _ | _ | _ | ⟨ds, c⟩
  case function =>
    rw [hs] at hmade
    obtain ⟨hdom, hc⟩ := SortSpec.toSymbol_function_eq_ok hmade
    exact ⟨ds, c, _, _, rfl, hdom, hc,
      Symbol.eq_of_parts (SortSpec.toSymbol_eq_ok hmade).1 rfl rfl⟩
  all_goals
    rw [Declaration.isFunction, hs] at hk
    cases hk

end

/-! ### The order of declarations -/

lemma eraseDups_append_singleton_of_mem {l : List String} (h : n ∈ l) :
    (l ++ [n]).eraseDups = l.eraseDups := by
  simp [List.eraseDups_append, List.removeAll, h]

lemma eraseDups_append_singleton {l : List String} (h : n ∉ l) :
    (l ++ [n]).eraseDups = l.eraseDups ++ [n] := by
  simp [List.eraseDups_append, List.removeAll, h, List.eraseDups_cons]

/-- **The names of a kind stand in the order in which they were first declared with success.** -/
lemma names_eq_eraseDups (p : SortSpec → Bool)
    (hp : ∀ s t : SortSpec, s.same t = true → p s = p t) (xs : List (String × SortSpec)) :
    ((empty.declareAll xs).declarations.filter fun d => p d.spec).map (·.name) =
      (((empty.successes xs).filter fun x => p x.2).map (·.1)).eraseDups := by
  induction xs using List.reverseRecOn with
  | nil => rfl
  | append_singleton xs x ih =>
    have hΓ : (empty.declareAll xs).WellFormed := wellFormed_empty.declareAll xs
    rw [declareAll_append, successes_append]
    generalize empty.declareAll xs = Γ at hΓ ih ⊢
    -- what has been declared of the kind so far are the names of the successes of the kind
    have hmem : ∀ n, n ∈ ((empty.successes xs).filter fun x => p x.2).map (·.1) ↔
        ∃ s, Γ.sort? n = some s ∧ p s = true := by
      intro n
      rw [← hΓ.mem_names_iff, ih, List.mem_eraseDups]
    have hstep := tryDeclare_ends Γ x
    change ((Γ.tryDeclare x).declarations.filter _).map _ =
      ((((empty.successes xs) ++ ((if Γ.succeeds x then [x] else []) ++ [])).filter _).map _).eraseDups
    generalize Γ.succeeds x = b at hstep
    generalize Γ.tryDeclare x = Γ' at hstep
    cases hstep with
    | failed => simpa using ih
    | @again d hd hs =>
      rw [ih]
      rcases hx : p x.2 with _ | _
      · simp [hx]
      · have hin := (hmem x.1).mpr ⟨d.spec, by rw [sort?, hd]; rfl, (hp _ _ hs).trans hx⟩
        simpa [hx] using (eraseDups_append_singleton_of_mem hin).symm
    | @added f hn hf =>
      rw [add_declarations, List.filter_append, List.map_append, ih]
      rcases hx : p x.2 with _ | _
      · simp [hx]
      · have hout : x.1 ∉ ((empty.successes xs).filter fun x => p x.2).map (·.1) := by
          rw [hmem, sort?, hn]
          simp
        simpa [hx] using (eraseDups_append_singleton hout).symm

/-- The sort that is recorded for a name is that of its first successful declaration. -/
lemma sort?_eq_first (xs : List (String × SortSpec)) (n : String) :
    (empty.declareAll xs).sort? n =
      ((empty.successes xs).find? fun x => x.1 == n).map (·.2) := by
  induction xs using List.reverseRecOn with
  | nil => rfl
  | append_singleton xs x ih =>
    rw [declareAll_append, successes_append]
    generalize empty.declareAll xs = Γ at ih ⊢
    have hstep := tryDeclare_ends Γ x
    change (Γ.tryDeclare x).sort? n = (((empty.successes xs) ++
      ((if Γ.succeeds x then [x] else []) ++ [])).find? _).map _
    generalize Γ.succeeds x = b at hstep
    generalize Γ.tryDeclare x = Γ' at hstep
    rw [List.append_nil, List.find?_append, Option.map_or, ← ih]
    cases hstep with
    | failed => simp
    | @again d hd hs =>
      by_cases hx : x.1 = n
      · subst hx
        simp [sort?, hd]
      · simp [hx]
    | @added f hn hf =>
      rw [sort?, find?_add, Option.map_or, ← sort?]
      by_cases hx : x.1 = n <;> simp [hx]

/-- **Declarations only add to the end of a table.** -/
lemma declarations_begin (Γ : Symbols) (xs : List (String × SortSpec)) :
    Γ.declarations <+: (Γ.declareAll xs).declarations := by
  induction xs generalizing Γ with
  | nil => exact List.prefix_refl _
  | cons x xs ih =>
    refine List.IsPrefix.trans ?_ (ih (Γ.tryDeclare x))
    have hstep := tryDeclare_ends Γ x
    generalize Γ.succeeds x = b at hstep
    generalize Γ.tryDeclare x = Γ' at hstep
    cases hstep with
    | failed => exact List.prefix_refl _
    | again hd hs => exact List.prefix_refl _
    | added hn hf => exact List.prefix_append _ _

/-- **The registry of any declarations**, those that fail among them. No name is listed twice, under
one kind or under both, and the names that are listed are those with a recorded sort, which is that of
the first declaration of the name that succeeded; a name is that of a function just if the sort is
composed of domain and codomain. A symbol is of the sorts of terms that its recorded sort stands for.
Either kind is listed in the order of the first successes of its names. Whatever is declared after that
is listed behind them, and what a name stands for stays as it is. -/
theorem registry_of_declarations (xs : List (String × SortSpec)) :
    let Γ := empty.declareAll xs
    let done := empty.successes xs
    (Γ.constants.map (·.name) ++ Γ.functions.map (·.name)).Nodup ∧
    (∀ n, n ∈ Γ.constants.map (·.name) ++ Γ.functions.map (·.name) ↔ ∃ s, Γ.sort? n = some s) ∧
    (∀ n, Γ.sort? n = (done.find? fun x => x.1 == n).map (·.2)) ∧
    (∀ n, n ∈ Γ.functions.map (·.name) ↔ ∃ ds c, Γ.sort? n = some (.function ds c)) ∧
    (∀ d ∈ Γ.constants, Γ.sort? d.name = some d.spec ∧
      ∃ τ, d.spec.toTermSort = .ok τ ∧ d.symbol = ⟨Symbol.nameOf d.name, [], τ⟩) ∧
    (∀ d ∈ Γ.functions, Γ.sort? d.name = some d.spec ∧
      ∃ ds c δ τ, d.spec = .function ds c ∧ ds.mapM SortSpec.toTermSort = .ok δ ∧
        c.toTermSort = .ok τ ∧ d.symbol = ⟨Symbol.nameOf d.name, δ, τ⟩) ∧
    Γ.constants.map (·.name) = ((done.filter fun x => !x.2.isFunction).map (·.1)).eraseDups ∧
    Γ.functions.map (·.name) = ((done.filter fun x => x.2.isFunction).map (·.1)).eraseDups ∧
    ∀ ys, let Γ' := Γ.declareAll ys
      Γ.constants <+: Γ'.constants ∧ Γ.functions <+: Γ'.functions ∧
      ∀ n d, Γ.find? n = some d → Γ'.find? n = some d := by
  intro Γ done
  have hΓ : Γ.WellFormed := wellFormed_empty.declareAll xs
  refine ⟨hΓ.nodup_listed, fun n => hΓ.mem_listed_iff, sort?_eq_first xs,
    fun n => hΓ.mem_functions_iff_sort, fun d hd => ?constant, fun d hd => ?function, ?constants,
    ?functions, fun ys => ?later⟩
  case constant =>
    exact ⟨hΓ.sort?_of_mem (List.mem_filter.mp hd).1, hΓ.constant_symbol hd⟩
  case function =>
    exact ⟨hΓ.sort?_of_mem (List.mem_filter.mp hd).1, hΓ.function_symbol hd⟩
  case constants =>
    exact names_eq_eraseDups (fun s => !s.isFunction)
      (fun s t h => by rw [SortSpec.isFunction_eq_of_same h]) xs
  case functions =>
    exact names_eq_eraseDups SortSpec.isFunction (fun _ _ => SortSpec.isFunction_eq_of_same) xs
  case later =>
    have hlater := declarations_begin Γ ys
    exact ⟨hlater.filter _, hlater.filter _, fun n d hd => find?_declareAll hd ys⟩

end Symbols

end Horn

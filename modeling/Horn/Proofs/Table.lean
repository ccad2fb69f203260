import Mathlib.Data.List.Nodup
import Mathlib.Data.List.TakeWhile
import Horn.Symbols

/-!
Tables of symbols as declarations make them. Names are declared once, and the symbol of a name is the one
that its sort makes. Main statements: declaring keeps this, and a look-up of a constant or a function
is a look-up of the declaration.
-/

namespace Horn

namespace Symbol

/-- A name in which no NUL stands is kept whole. -/
lemma nameOf_eq_self {n : String} (h : '\x00' ∉ n.toList) : nameOf n = n := by
  have hall : ∀ c ∈ n.toList, (c != '\x00') = true := by
    intro c hc
    rw [bne_iff_ne]
    rintro rfl
    exact h hc
  unfold nameOf
  rw [List.takeWhile_eq_self_iff.mpr hall, String.ofList_toList]

lemma eq_of_parts {f g : Symbol} (hn : f.name = g.name) (hd : f.domain = g.domain)
    (hr : f.range = g.range) : f = g := by
  cases f
  cases g
  cases hn
  cases hd
  cases hr
  rfl

end Symbol

namespace SortSpec

/-- The symbol of a name: cut at its first NUL, and without arguments unless the sort is a function
sort. -/
lemma toSymbol_eq_ok {n : String} {s : SortSpec} {f : Symbol} (h : s.toSymbol n = .ok f) :
    f.name = Symbol.nameOf n ∧ (s.isFunction = false → f.domain = []) := by
  unfold toSymbol at h
  split at h
  · rename_i ds c
    rcases hd : ds.mapM toTermSort with e | ds'
    · rw [hd] at h; cases h
    · rcases hc : c.toTermSort with e | c'
      · rw [hd, hc] at h; cases h
      · rw [hd, hc] at h; cases h; exact ⟨rfl, nofun⟩
  · rcases hs : s.toTermSort with e | s'
    · rw [hs] at h; cases h
    · rw [hs] at h; cases h; exact ⟨rfl, fun _ => rfl⟩

end SortSpec

namespace Symbols

/-- **What holds of every table that declarations make.** -/
structure WellFormed (Γ : Symbols) : Prop where
  nodup : (Γ.declarations.map (·.name)).Nodup
  made : ∀ d ∈ Γ.declarations, d.spec.toSymbol d.name = .ok d.symbol

def add (Γ : Symbols) (d : Declaration) : Symbols := ⟨Γ.declarations ++ [d]⟩

@[simp] lemma add_declarations (Γ : Symbols) (d : Declaration) :
    (Γ.add d).declarations = Γ.declarations ++ [d] := rfl

lemma wellFormed_empty : empty.WellFormed := ⟨List.nodup_nil, fun _ h => by cases h⟩

lemma find?_eq_none_iff {Γ : Symbols} {n : String} :
    Γ.find? n = none ↔ ∀ d ∈ Γ.declarations, d.name ≠ n := by
  unfold find?
  rw [List.find?_eq_none]
  simp only [beq_iff_eq, ne_eq]

/-- What a search for a name finds has that name. -/
lemma name_of_find? {l : List Declaration} {n : String} {d : Declaration}
    (h : (l.find? fun x => x.name == n) = some d) : d.name = n := by
  simpa using List.find?_some h

/-- What is not declared is neither a function nor a constant, and the other way round. -/
lemma find?_eq_none_iff_kinds {Γ : Symbols} {n : String} :
    Γ.find? n = none ↔ Γ.function? n = none ∧ Γ.constant? n = none := by
  simp only [find?, function?, functions, constant?, constants, Option.map_eq_none_iff,
    List.find?_eq_none, List.mem_filter]
  constructor
  · intro hn
    exact ⟨fun d hd => hn d hd.1, fun d hd => hn d hd.1⟩
  · rintro ⟨hf, hc⟩ d hd
    rcases hk : d.isFunction with _ | _
    · exact hc d ⟨hd, by simp [hk]⟩
    · exact hf d ⟨hd, hk⟩

section

variable {Γ : Symbols} (h : Γ.WellFormed)
include h

lemma WellFormed.unique {d d' : Declaration} (hd : d ∈ Γ.declarations)
    (hd' : d' ∈ Γ.declarations) (hn : d.name = d'.name) : d = d' :=
  List.inj_on_of_nodup_map h.nodup hd hd' hn

/-- A search for a name among some of the declarations finds the only one it can find. -/
lemma WellFormed.find?_name {l : List Declaration} (hl : ∀ d ∈ l, d ∈ Γ.declarations) {n : String}
    {d : Declaration} : (l.find? fun x => x.name == n) = some d ↔ d ∈ l ∧ d.name = n := by
  constructor
  · intro hf
    exact ⟨List.mem_of_find?_eq_some hf, name_of_find? hf⟩
  · rintro ⟨hd, rfl⟩
    have hs : (l.find? fun x => x.name == d.name).isSome := by
      rw [List.find?_isSome]
      exact ⟨d, hd, beq_self_eq_true _⟩
    obtain ⟨d', hf⟩ := Option.isSome_iff_exists.mp hs
    rw [hf, h.unique (hl d' (List.mem_of_find?_eq_some hf)) (hl d hd) (name_of_find? hf)]

/-- **A look-up finds the one declaration of a name.** -/
lemma WellFormed.find?_eq_some_iff {n : String} {d : Declaration} :
    Γ.find? n = some d ↔ d ∈ Γ.declarations ∧ d.name = n :=
  h.find?_name fun _ hd => hd

/-- A look-up among the declarations of one kind is a look-up that also tests the kind. -/
lemma WellFormed.find?_filter {n : String} {d : Declaration} (p : Declaration → Bool) :
    (Γ.declarations.filter p).find? (fun x => x.name == n) = some d ↔
      Γ.find? n = some d ∧ p d = true := by
  rw [h.find?_name fun _ hd => (List.mem_filter.mp hd).1, h.find?_eq_some_iff, List.mem_filter,
    and_right_comm]

lemma WellFormed.mem_functions_iff {d : Declaration} :
    d ∈ Γ.functions ↔ Γ.find? d.name = some d ∧ d.isFunction = true := by
  unfold functions
  rw [List.mem_filter, h.find?_eq_some_iff]
  simp only [and_true]

lemma WellFormed.mem_constants_iff {d : Declaration} :
    d ∈ Γ.constants ↔ Γ.find? d.name = some d ∧ d.isFunction = false := by
  unfold constants
  rw [List.mem_filter, h.find?_eq_some_iff, Bool.not_eq_true']
  simp only [and_true]

lemma WellFormed.find?_functions {n : String} {d : Declaration} :
    Γ.functions.find? (fun x => x.name == n) = some d ↔
      Γ.find? n = some d ∧ d.isFunction = true :=
  h.find?_filter _

lemma WellFormed.function?_eq_some_iff {n : String} {f : Symbol} :
    Γ.function? n = some f ↔ ∃ d, Γ.find? n = some d ∧ d.isFunction = true ∧ d.symbol = f := by
  unfold function?
  rw [Option.map_eq_some_iff]
  simp only [h.find?_functions, and_assoc]

lemma WellFormed.constant?_eq_some_iff {n : String} {c : Symbol} :
    Γ.constant? n = some c ↔ ∃ d, Γ.find? n = some d ∧ d.isFunction = false ∧ d.symbol = c := by
  unfold constant?
  rw [Option.map_eq_some_iff]
  simp only [constants, h.find?_filter, Bool.not_eq_true', and_assoc]

/-- A look-up among the declarations of one kind fails unless the name has a declaration of that
kind. -/
lemma WellFormed.find?_filter_eq_none {n : String} (p : Declaration → Bool) :
    (Γ.declarations.filter p).find? (fun x => x.name == n) = none ↔
      ∀ d, Γ.find? n = some d → p d = false := by
  constructor
  · intro hf d hd
    by_contra hp
    rw [Bool.not_eq_false] at hp
    rw [(h.find?_filter p).mpr ⟨hd, hp⟩] at hf
    cases hf
  · intro hall
    rcases hf : (Γ.declarations.filter p).find? (fun x => x.name == n) with _ | d
    · exact hf
    · obtain ⟨hd, hp⟩ := (h.find?_filter p).mp hf
      rw [hall d hd] at hp
      cases hp

lemma WellFormed.function?_eq_none_iff {n : String} :
    Γ.function? n = none ↔ ∀ d, Γ.find? n = some d → d.isFunction = false := by
  unfold function?
  rw [Option.map_eq_none_iff]
  exact h.find?_filter_eq_none _

lemma WellFormed.constant?_eq_none_iff {n : String} :
    Γ.constant? n = none ↔ ∀ d, Γ.find? n = some d → d.isFunction = true := by
  unfold constant? constants
  rw [Option.map_eq_none_iff, h.find?_filter_eq_none]
  simp only [Bool.not_eq_false']

/-- **Names without a NUL have different symbols.** -/
lemma WellFormed.eq_of_symbol_eq (hw : ∀ d ∈ Γ.declarations, '\x00' ∉ d.name.toList)
    {d d' : Declaration} (hd : d ∈ Γ.declarations) (hd' : d' ∈ Γ.declarations)
    (hs : d.symbol = d'.symbol) : d = d' := by
  have hname : ∀ d ∈ Γ.declarations, d.symbol.name = d.name := fun d hd => by
    rw [(SortSpec.toSymbol_eq_ok (h.made d hd)).1, Symbol.nameOf_eq_self (hw d hd)]
  refine h.unique hd hd' ?_
  rw [← hname d hd, ← hname d' hd', hs]

/-- A constant has no arguments. -/
lemma WellFormed.domain_of_mem_free {c : Symbol} (hc : c ∈ Γ.free) : c.domain = [] := by
  unfold free constants at hc
  obtain ⟨d, hd, rfl⟩ := List.mem_map.mp hc
  obtain ⟨hd, hk⟩ := List.mem_filter.mp hd
  exact (SortSpec.toSymbol_eq_ok (h.made d hd)).2 (by simpa [Declaration.isFunction] using hk)

lemma WellFormed.add {d : Declaration} (hd : Γ.find? d.name = none)
    (hs : d.spec.toSymbol d.name = .ok d.symbol) : (Γ.add d).WellFormed := by
  refine ⟨?_, ?_⟩
  · rw [add_declarations, List.map_append, List.nodup_append]
    refine ⟨h.nodup, List.nodup_singleton _, ?_⟩
    intro n hn m hm
    obtain ⟨d', hd', rfl⟩ := List.mem_map.mp hn
    rw [List.map_singleton, List.mem_singleton] at hm
    rw [hm]
    exact find?_eq_none_iff.mp hd d' hd'
  · intro d' hd'
    rcases List.mem_append.mp hd' with hd' | hd'
    · exact h.made d' hd'
    · rw [List.mem_singleton.mp hd']
      exact hs

end

lemma find?_add (Γ : Symbols) (d : Declaration) (n : String) :
    (Γ.add d).find? n = (Γ.find? n).or ([d].find? fun x => x.name == n) :=
  List.find?_append

lemma function?_add {Γ : Symbols} {d : Declaration} {n : String} (h : d.name ≠ n) :
    (Γ.add d).function? n = Γ.function? n := by
  unfold function? functions
  rw [add_declarations, List.filter_append, List.find?_append]
  have hnone : ([d].filter fun d => d.isFunction).find? (fun x => x.name == n) = none := by
    rw [List.find?_eq_none]
    intro x hx
    rw [List.mem_singleton.mp (List.mem_filter.mp hx).1]
    simpa using h
  rw [hnone, Option.or_none]

/-- **What declaring a name can do**: nothing, if the name has that sort already, or add a
declaration. -/
lemma declare_eq_ok {Γ Γ' : Symbols} {n : String} {s : SortSpec} (h : Γ.declare n s = .ok Γ') :
    (Γ' = Γ ∧ ∃ d, Γ.find? n = some d ∧ d.spec.same s = true) ∨
      (Γ.find? n = none ∧ ∃ f, s.toSymbol n = .ok f ∧ Γ' = Γ.add ⟨n, s, f⟩) := by
  unfold declare at h
  split at h
  · cases h
  · cases h
  · split at h
    · rename_i d hd
      split at h
      · cases h
        exact .inl ⟨rfl, d, hd, ‹_›⟩
      · split at h <;> cases h
    · rename_i hn
      split at h
      · cases h
      · rename_i f hf
        cases h
        exact .inr ⟨hn, f, hf, rfl⟩

lemma WellFormed.declare {Γ Γ' : Symbols} {n : String} {s : SortSpec} (h : Γ.WellFormed)
    (hd : Γ.declare n s = .ok Γ') : Γ'.WellFormed := by
  rcases declare_eq_ok hd with ⟨rfl, -⟩ | ⟨hn, f, hf, rfl⟩
  · exact h
  · exact h.add hn hf

/-- The table after one more declaration, which leaves no trace if it fails. -/
def tryDeclare (Γ : Symbols) (d : String × SortSpec) : Symbols :=
  match Γ.declare d.1 d.2 with
  | .ok Γ' => Γ'
  | .error _ => Γ

/-- The table after declarations, of which those that fail leave no trace. -/
def declareAll (Γ : Symbols) (ds : List (String × SortSpec)) : Symbols := ds.foldl tryDeclare Γ

/-- **Declarations make well-formed tables.** -/
lemma WellFormed.declareAll {Γ : Symbols} (h : Γ.WellFormed) (ds : List (String × SortSpec)) :
    (Γ.declareAll ds).WellFormed := by
  induction ds generalizing Γ with
  | nil => exact h
  | cons d ds ih =>
    refine ih ?_
    unfold tryDeclare
    split
    · exact h.declare ‹_›
    · exact h

end Symbols

end Horn

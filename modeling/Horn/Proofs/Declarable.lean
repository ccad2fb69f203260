import Horn.Proofs.Registry

/-!
Sorts that symbols can be declared with. Main statement: a declaration ends well exactly for a name that
has not been declared and an admissible sort, or for a name that has been declared with the sort, and
otherwise with the error for what is wrong, unless that cannot be written out; and written sorts of values
are as many as sorts of terms.
-/

namespace Horn

namespace SortSpec

/-- **The sort of a value**: an integer, a Boolean, or an array from values to values. -/
inductive IsValue : SortSpec → Prop where
  | int : IsValue .int
  | bool : IsValue .bool
  | array {d r : SortSpec} (hd : IsValue d) (hr : IsValue r) : IsValue (.array d r)

/-- **A sort that a symbol may have**: that of a value, or of a function between values. -/
inductive IsAdmissible : SortSpec → Prop where
  | value {s : SortSpec} (h : s.IsValue) : IsAdmissible s
  | function {ds : List SortSpec} {c : SortSpec} (hds : ∀ d ∈ ds, IsValue d) (hc : c.IsValue) :
    IsAdmissible (.function ds c)

/-- **A sort without anything in it that is no sort**, whose parts may be missing. -/
inductive IsPlain : SortSpec → Prop where
  | absent : IsPlain .absent
  | int : IsPlain .int
  | bool : IsPlain .bool
  | bareArray : IsPlain .bareArray
  | bareFunction : IsPlain .bareFunction
  | array {d r : SortSpec} (hd : IsPlain d) (hr : IsPlain r) : IsPlain (.array d r)
  | function {ds : List SortSpec} {c : SortSpec} (hds : ∀ d ∈ ds, IsPlain d) (hc : IsPlain c) :
    IsPlain (.function ds c)

/-- What is given is a sort, whatever its parts are. -/
def IsSort (s : SortSpec) : Prop := s ≠ .absent ∧ ∀ v, s ≠ .junk v

/-! ### Written sorts and sorts of terms -/

def ofTermSort : TermSort → SortSpec
  | .int => .int
  | .bool => .bool
  | .array d r => .array (ofTermSort d) (ofTermSort r)

lemma toTermSort_ofTermSort (r : TermSort) : (ofTermSort r).toTermSort = .ok r := by
  induction r with
  | int => rfl
  | bool => rfl
  | array d r ihd ihr => rw [ofTermSort, toTermSort, ihd, ihr]; rfl

/-- **A sort of terms has one writing.** -/
lemma toTermSort_eq_ok_iff {s : SortSpec} {r : TermSort} :
    s.toTermSort = .ok r ↔ s = ofTermSort r := by
  constructor
  · intro h
    fun_induction toTermSort s generalizing r with
    | case1 => cases h; rfl
    | case2 => cases h; rfl
    | case3 d e ihd ihe =>
      obtain ⟨x, hx, h⟩ := bind_eq_ok h
      obtain ⟨y, hy, h⟩ := bind_eq_ok h
      cases h
      rw [ihd hx, ihe hy, ofTermSort]
    | case4 => cases h
  · rintro rfl
    exact toTermSort_ofTermSort r

lemma mapM_toTermSort_eq_ok_iff {ds : List SortSpec} {rs : List TermSort} :
    ds.mapM toTermSort = .ok rs ↔ ds = rs.map ofTermSort := by
  induction ds generalizing rs with
  | nil => cases rs <;> simp [pure, Except.pure]
  | cons d ds ih =>
    rw [List.mapM_cons]
    constructor
    · intro h
      obtain ⟨r, hr, h⟩ := bind_eq_ok h
      obtain ⟨us, hus, h⟩ := bind_eq_ok h
      cases h
      rw [toTermSort_eq_ok_iff.mp hr, ih.mp hus, List.map_cons]
    · intro h
      rcases rs with _ | ⟨r, rs⟩
      · cases h
      · obtain ⟨rfl, rfl⟩ := List.cons.inj h
        rw [toTermSort_ofTermSort, ih.mpr rfl]
        rfl

lemma isValue_ofTermSort (r : TermSort) : (ofTermSort r).IsValue := by
  induction r with
  | int => exact .int
  | bool => exact .bool
  | array d r ihd ihr => exact .array ihd ihr

/-- **The sorts of values are those that stand for a sort of terms.** -/
lemma isValue_iff {s : SortSpec} : s.IsValue ↔ ∃ r, s.toTermSort = .ok r := by
  constructor
  · intro h
    induction h with
    | int => exact ⟨_, rfl⟩
    | bool => exact ⟨_, rfl⟩
    | array _ _ ihd ihr =>
      obtain ⟨x, hx⟩ := ihd
      obtain ⟨y, hy⟩ := ihr
      exact ⟨.array x y, by rw [toTermSort, hx, hy]; rfl⟩
  · rintro ⟨r, hr⟩
    rw [toTermSort_eq_ok_iff.mp hr]
    exact isValue_ofTermSort r

lemma forall_isValue_iff {ds : List SortSpec} :
    (∀ d ∈ ds, d.IsValue) ↔ ∃ rs, ds.mapM toTermSort = .ok rs := by
  induction ds with
  | nil => simp [pure, Except.pure]
  | cons d ds ih =>
    rw [List.forall_mem_cons, ih, isValue_iff]
    constructor
    · rintro ⟨⟨r, hr⟩, rs, hrs⟩
      exact ⟨r :: rs, by rw [List.mapM_cons, hr, hrs]; rfl⟩
    · rintro ⟨rs, hrs⟩
      rw [List.mapM_cons] at hrs
      obtain ⟨r, hr, hrs⟩ := bind_eq_ok hrs
      obtain ⟨us, hus, -⟩ := bind_eq_ok hrs
      exact ⟨⟨r, hr⟩, us, hus⟩

lemma toSymbol_of_toTermSort {s : SortSpec} {r : TermSort} (n : String) (h : s.toTermSort = .ok r) :
    s.toSymbol n = .ok ⟨Symbol.nameOf n, [], r⟩ := by
  have hk := isFunction_of_toTermSort h
  unfold toSymbol
  split
  · cases hk
  · rw [h]; rfl

/-- **A symbol can be made of the admissible sorts, and of no others.** -/
lemma isAdmissible_iff {s : SortSpec} (n : String) :
    s.IsAdmissible ↔ ∃ f, s.toSymbol n = .ok f := by
  constructor
  · intro h
    cases h with
    | @function ds c hds hc =>
      obtain ⟨rs, hrs⟩ := forall_isValue_iff.mp hds
      obtain ⟨r, hr⟩ := isValue_iff.mp hc
      exact ⟨⟨Symbol.nameOf n, rs, r⟩, by rw [toSymbol, hrs, hr]; rfl⟩
    | value h =>
      obtain ⟨r, hr⟩ := isValue_iff.mp h
      exact ⟨_, toSymbol_of_toTermSort n hr⟩
  · rintro ⟨f, hf⟩
    rcases hk : s.isFunction with _ | _
    · exact .value (isValue_iff.mpr ⟨f.range, toSymbol_constant_eq_ok hk hf⟩)
    · cases s with
      | function ds c =>
        obtain ⟨hds, hc⟩ := toSymbol_function_eq_ok hf
        exact .function (forall_isValue_iff.mpr ⟨_, hds⟩) (isValue_iff.mpr ⟨_, hc⟩)
      | _ => cases hk

/-! ### Parts that are refused -/

/-- **The first part of a sort that is no sort of a value**, from left to right. -/
inductive RefusedFor : SortSpec → SortSpec → Prop where
  | self {s : SortSpec} (hi : s ≠ .int) (hb : s ≠ .bool) (ha : ∀ d r, s ≠ .array d r) : RefusedFor s s
  | domain {d r x : SortSpec} (h : RefusedFor d x) : RefusedFor (.array d r) x
  | range {d r x : SortSpec} (hd : d.IsValue) (h : RefusedFor r x) : RefusedFor (.array d r) x

inductive FirstRefused : List SortSpec → SortSpec → Prop where
  | here {d x : SortSpec} {ds : List SortSpec} (h : d.RefusedFor x) : FirstRefused (d :: ds) x
  | later {d x : SortSpec} {ds : List SortSpec} (hd : d.IsValue) (h : FirstRefused ds x) :
    FirstRefused (d :: ds) x

/-- **The part for which a symbol cannot be declared with a sort**: that of the sort, or the first in the
domain and codomain of a function. -/
inductive UndeclarableFor : SortSpec → SortSpec → Prop where
  | value {s x : SortSpec} (hk : s.isFunction = false) (h : s.RefusedFor x) : UndeclarableFor s x
  | function {ds : List SortSpec} {c x : SortSpec} (h : FirstRefused (ds ++ [c]) x) :
    UndeclarableFor (.function ds c) x

/-- What is refused is quoted unless it cannot be written out. -/
lemma refusal_eq_tooManyDigits_iff {s : SortSpec} : s.refusal = .tooManyDigits ↔ s.fits = false := by
  unfold refusal
  split
  · simp [fits]
  · rw [fits]
    split <;> simp_all
  · split <;> simp_all

lemma toTermSort_eq_error_iff {s : SortSpec} {e : SortError} :
    s.toTermSort = .error e ↔ ∃ x, s.RefusedFor x ∧ x.refusal = e := by
  fun_induction toTermSort s with
  | case1 => exact ⟨nofun, fun ⟨_, h, _⟩ => by cases h with | self hi _ _ => exact absurd rfl hi⟩
  | case2 => exact ⟨nofun, fun ⟨_, h, _⟩ => by cases h with | self _ hb _ => exact absurd rfl hb⟩
  | case3 d r ihd ihr =>
    have hrange : (∃ y, d.toTermSort = .ok y) ↔ d.IsValue := isValue_iff.symm
    rw [bind_eq_error, ihd]
    constructor
    · rintro (⟨x, hx, rfl⟩ | ⟨y, hy, h⟩)
      · exact ⟨x, .domain hx, rfl⟩
      · rcases bind_eq_error.mp h with h | ⟨z, -, h⟩
        · obtain ⟨x, hx, rfl⟩ := ihr.mp h
          exact ⟨x, .range (hrange.mp ⟨y, hy⟩) hx, rfl⟩
        · cases h
    · rintro ⟨x, hx, rfl⟩
      cases hx with
      | self _ _ ha => exact absurd rfl (ha d r)
      | domain h => exact .inl ⟨x, h, rfl⟩
      | range hd h =>
        obtain ⟨y, hy⟩ := hrange.mpr hd
        exact .inr ⟨y, hy, bind_eq_error.mpr (.inl (ihr.mpr ⟨x, h, rfl⟩))⟩
  | case4 s hi hb ha =>
    constructor
    · intro h
      exact ⟨s, .self hi hb ha, Except.error.inj h⟩
    · rintro ⟨x, hx, rfl⟩
      cases hx with
      | self => rfl
      | domain => exact absurd rfl (ha _ _)
      | range => exact absurd rfl (ha _ _)

lemma mapM_toTermSort_eq_error_iff {ds : List SortSpec} {e : SortError} :
    ds.mapM toTermSort = .error e ↔ ∃ x, FirstRefused ds x ∧ x.refusal = e := by
  induction ds with
  | nil => exact ⟨nofun, fun ⟨_, h, _⟩ => nomatch h⟩
  | cons d ds ih =>
    rw [List.mapM_cons, bind_eq_error]
    constructor
    · rintro (h | ⟨r, hr, h⟩)
      · obtain ⟨x, hx, rfl⟩ := toTermSort_eq_error_iff.mp h
        exact ⟨x, .here hx, rfl⟩
      · rcases bind_eq_error.mp h with h | ⟨rs, -, h⟩
        · obtain ⟨x, hx, rfl⟩ := ih.mp h
          exact ⟨x, .later (isValue_iff.mpr ⟨r, hr⟩) hx, rfl⟩
        · cases h
    · rintro ⟨x, hx, rfl⟩
      cases hx with
      | here h => exact .inl (toTermSort_eq_error_iff.mpr ⟨x, h, rfl⟩)
      | later hd h =>
        obtain ⟨r, hr⟩ := isValue_iff.mp hd
        exact .inr ⟨r, hr, bind_eq_error.mpr (.inl (ih.mpr ⟨x, h, rfl⟩))⟩

lemma firstRefused_append_singleton {ds : List SortSpec} {c x : SortSpec} :
    FirstRefused (ds ++ [c]) x ↔ FirstRefused ds x ∨ (∀ d ∈ ds, d.IsValue) ∧ c.RefusedFor x := by
  induction ds with
  | nil =>
    constructor
    · rintro (h | ⟨-, ⟨⟩⟩)
      exact .inr ⟨nofun, by assumption⟩
    · rintro (h | ⟨-, h⟩)
      · cases h
      · exact .here h
  | cons d ds ih =>
    rw [List.cons_append, List.forall_mem_cons]
    constructor
    · intro h
      cases h with
      | here h => exact .inl (.here h)
      | later hd h =>
        rcases ih.mp h with h | ⟨hds, h⟩
        · exact .inl (.later hd h)
        · exact .inr ⟨⟨hd, hds⟩, h⟩
    · rintro (h | ⟨⟨hd, hds⟩, h⟩)
      · cases h with
        | here h => exact .here h
        | later hd h => exact .later hd (ih.mpr (.inl h))
      · exact .later hd (ih.mpr (.inr ⟨hds, h⟩))

/-- **A symbol is refused for the first part that is no sort of a value.** -/
lemma toSymbol_eq_error_iff {n : String} {s : SortSpec} {e : SortError} :
    s.toSymbol n = .error e ↔ ∃ x, s.UndeclarableFor x ∧ x.refusal = e := by
  rcases hk : s.isFunction with _ | _
  · have hval : s.toSymbol n = .error e ↔ s.toTermSort = .error e := by
      unfold toSymbol
      split
      · cases hk
      · rw [bind_eq_error]
        exact ⟨fun h => h.elim id nofun, .inl⟩
    rw [hval, toTermSort_eq_error_iff]
    refine exists_congr fun x => and_congr_left fun _ => ⟨.value hk, fun h => ?_⟩
    cases h with
    | value _ h => exact h
    | function => cases hk
  · cases s with
    | function ds c =>
      have hfun : (function ds c).toSymbol n = .error e ↔ ds.mapM toTermSort = .error e ∨
          (∃ rs, ds.mapM toTermSort = .ok rs) ∧ c.toTermSort = .error e := by
        rw [toSymbol, bind_eq_error]
        refine or_congr_right ⟨?_, ?_⟩
        · rintro ⟨rs, hrs, h⟩
          rcases bind_eq_error.mp h with h | ⟨r, -, h⟩
          · exact ⟨⟨rs, hrs⟩, h⟩
          · cases h
        · rintro ⟨⟨rs, hrs⟩, h⟩
          exact ⟨rs, hrs, bind_eq_error.mpr (.inl h)⟩
      rw [hfun, mapM_toTermSort_eq_error_iff, toTermSort_eq_error_iff, ← forall_isValue_iff]
      constructor
      · rintro (⟨x, hx, rfl⟩ | ⟨hds, x, hx, rfl⟩)
        · exact ⟨x, .function (firstRefused_append_singleton.mpr (.inl hx)), rfl⟩
        · exact ⟨x, .function (firstRefused_append_singleton.mpr (.inr ⟨hds, hx⟩)), rfl⟩
      · rintro ⟨x, hx, rfl⟩
        cases hx with
        | value hk' => cases hk'
        | function hx =>
          rcases firstRefused_append_singleton.mp hx with hx | ⟨hds, hx⟩
          · exact .inl ⟨x, hx, rfl⟩
          · exact .inr ⟨hds, x, hx, rfl⟩
    | _ => cases hk

lemma RefusedFor.not_isValue {s x : SortSpec} (h : s.RefusedFor x) : ¬ s.IsValue := by
  intro hs
  obtain ⟨r, hr⟩ := isValue_iff.mp hs
  rw [toTermSort_eq_error_iff.mpr ⟨x, h, rfl⟩] at hr
  cases hr

lemma RefusedFor.unique {s x y : SortSpec} (hx : s.RefusedFor x) (hy : s.RefusedFor y) : x = y := by
  induction hx with
  | self _ _ ha =>
    cases hy with
    | self => rfl
    | domain => exact absurd rfl (ha _ _)
    | range => exact absurd rfl (ha _ _)
  | domain hd ih =>
    cases hy with
    | self _ _ ha => exact absurd rfl (ha _ _)
    | domain h => exact ih h
    | range hv _ => exact absurd hv hd.not_isValue
  | range hv hr ih =>
    cases hy with
    | self _ _ ha => exact absurd rfl (ha _ _)
    | domain h => exact absurd hv h.not_isValue
    | range _ h => exact ih h

lemma FirstRefused.unique {ds : List SortSpec} {x y : SortSpec} (hx : FirstRefused ds x)
    (hy : FirstRefused ds y) : x = y := by
  induction hx with
  | here h =>
    cases hy with
    | here h' => exact h.unique h'
    | later hd _ => exact absurd hd h.not_isValue
  | later hd _ ih =>
    cases hy with
    | here h => exact absurd hd h.not_isValue
    | later _ h => exact ih h

lemma UndeclarableFor.unique {s x y : SortSpec} (hx : s.UndeclarableFor x)
    (hy : s.UndeclarableFor y) : x = y := by
  cases hx with
  | value hk h =>
    cases hy with
    | value _ h' => exact h.unique h'
    | function => cases hk
  | function h =>
    cases hy with
    | value hk => cases hk
    | function h' => exact h.unique h'

/-! ### Equality of sorts -/

lemma sameAll_iff {ss ts : List SortSpec} (h : ∀ s ∈ ss, ∀ {t}, s.same t = true ↔ s = t) :
    sameAll ss ts = true ↔ ss = ts := by
  induction ss generalizing ts with
  | nil => cases ts <;> simp [sameAll]
  | cons s ss ih =>
    rw [List.forall_mem_cons] at h
    cases ts <;> simp [sameAll, h.1, ih h.2]

/-- **Plain sorts are equal to none but themselves.** -/
lemma IsPlain.same_iff {s t : SortSpec} (h : s.IsPlain) : s.same t = true ↔ s = t := by
  induction h generalizing t with
  | array _ _ ihd ihr => cases t <;> simp [same, ihd, ihr]
  | function _ _ ihds ihc => cases t <;> simp [same, sameAll_iff ihds, ihc]
  | _ => cases t <;> simp [same]

lemma IsValue.isPlain {s : SortSpec} (h : s.IsValue) : s.IsPlain := by
  induction h with
  | int => exact .int
  | bool => exact .bool
  | array _ _ ihd ihr => exact .array ihd ihr

lemma IsAdmissible.isPlain {s : SortSpec} (h : s.IsAdmissible) : s.IsPlain := by
  cases h with
  | value h => exact h.isPlain
  | function hds hc => exact .function (fun d hd => (hds d hd).isPlain) hc.isPlain

/-- **Admissible sorts are equal to no other sorts**: there is nothing in them that is no sort. -/
lemma IsAdmissible.same_iff {s t : SortSpec} (h : s.IsAdmissible) : s.same t = true ↔ s = t :=
  h.isPlain.same_iff

lemma IsAdmissible.isSort {s : SortSpec} (h : s.IsAdmissible) : s.IsSort := by
  cases h with
  | value h => cases h <;> exact ⟨nofun, nofun⟩
  | function => exact ⟨nofun, nofun⟩

end SortSpec

namespace Symbols

variable {Γ : Symbols} {n : String} {s : SortSpec}

/-- **Only admissible sorts are recorded.** -/
lemma WellFormed.isAdmissible (h : Γ.WellFormed) (hs : Γ.sort? n = some s) : s.IsAdmissible := by
  obtain ⟨d, hd, rfl⟩ := Option.map_eq_some_iff.mp hs
  exact (SortSpec.isAdmissible_iff d.name).mpr ⟨_, h.made d (h.find?_eq_some_iff.mp hd).1⟩

/-- A name that has been declared with the first sort, if it has been declared, may be declared with the
second. -/
def MayDeclare (t? : Option SortSpec) (s : SortSpec) : Prop := t? = none ∧ s.IsAdmissible ∨ t? = some s

/-- A sort is asked for a name that has been declared with another one. -/
def Clashes (t? : Option SortSpec) (s : SortSpec) : Prop := s.IsSort ∧ ∃ t, t? = some t ∧ t ≠ s

lemma MayDeclare.not_clashes {t? : Option SortSpec} (h : MayDeclare t? s) : ¬ Clashes t? s := by
  rintro ⟨-, t, rfl, ht⟩
  rcases h with ⟨h, -⟩ | h
  · cases h
  · exact ht (Option.some.inj h)

/-- How a declaration of a name ends that has been declared with the given sort, if it has been
declared. -/
inductive DeclarationEnd (n : String) (t? : Option SortSpec) (s : SortSpec) :
    Except DeclareError Symbols → Prop where
  | done {Γ : Symbols} (h : MayDeclare t? s) : DeclarationEnd n t? s (.ok Γ)
  | duplicate {t : SortSpec} (ht : t? = some t) (h : Clashes t? s) (hfit : s.fits = true) :
    DeclarationEnd n t? s (.error (.duplicate n t s))
  | long (h : Clashes t? s) (hfit : s.fits = false) :
    DeclarationEnd n t? s (.error (.sort .tooManyDigits))
  | refused {e : SortError} {x : SortSpec} (hm : ¬ MayDeclare t? s) (hc : ¬ Clashes t? s)
    (hx : s.UndeclarableFor x) (he : e = .tooManyDigits ↔ x.fits = false) :
    DeclarationEnd n t? s (.error (.sort e))

/-- What is no sort is refused for what it is. -/
lemma WellFormed.notSort_ends (h : Γ.WellFormed) {e : SortError} (hs : ¬ s.IsSort)
    (hx : s.UndeclarableFor s) (he : e = .tooManyDigits ↔ s.fits = false) :
    DeclarationEnd n (Γ.sort? n) s (.error (.sort e)) := by
  refine .refused ?_ (fun hc => hs hc.1) hx he
  rintro (⟨-, ha⟩ | hn)
  · exact hs ha.isSort
  · exact hs (h.isAdmissible hn).isSort

lemma WellFormed.declaration_ends (h : Γ.WellFormed) (n : String) (s : SortSpec) :
    DeclarationEnd n (Γ.sort? n) s (Γ.declare n s) := by
  unfold Symbols.declare
  split
  · refine h.notSort_ends (fun hs => hs.1 rfl) (.value rfl (.self nofun nofun nofun)) ?_
    simp [SortSpec.fits]
  · rename_i v
    refine h.notSort_ends (fun hs => hs.2 v rfl) (.value rfl (.self nofun nofun nofun)) ?_
    rw [SortSpec.fits]
    split <;> simp_all
  · rename_i habsent hjunk
    split
    · -- a name with a sort: the recorded sort is admissible, so that to be equal is to be the same
      rename_i d hd
      have hn : Γ.sort? n = some d.spec := by rw [sort?, hd, Option.map_some]
      have hsame := (h.isAdmissible hn).same_iff (t := s)
      split
      · exact .done (.inr (by rw [hn, hsame.mp ‹_›]))
      · rename_i hne
        have hc : Clashes (Γ.sort? n) s := ⟨⟨habsent, hjunk⟩, _, hn, fun heq => hne (hsame.mpr heq)⟩
        split
        · exact .duplicate hn hc ‹_›
        · exact .long hc (by simp_all)
    · rename_i hd
      have hn : Γ.sort? n = none := by rw [sort?, hd, Option.map_none]
      rw [hn]
      split
      · rename_i e he
        obtain ⟨x, hx, rfl⟩ := SortSpec.toSymbol_eq_error_iff.mp he
        refine .refused ?_ ?_ hx SortSpec.refusal_eq_tooManyDigits_iff
        · rintro (⟨-, ha⟩ | hsome)
          · obtain ⟨f, hf⟩ := (SortSpec.isAdmissible_iff n).mp ha
            rw [he] at hf
            cases hf
          · cases hsome
        · rintro ⟨-, t, ht, -⟩
          cases ht
      · rename_i f hf
        exact .done (.inl ⟨rfl, (SortSpec.isAdmissible_iff n).mpr ⟨f, hf⟩⟩)

section

variable (h : Γ.WellFormed)
include h

lemma WellFormed.declare_eq_ok_iff :
    (∃ Γ', Γ.declare n s = .ok Γ') ↔ MayDeclare (Γ.sort? n) s := by
  have hend := h.declaration_ends n s
  generalize Γ.declare n s = x at hend
  cases hend with
  | done h => exact ⟨fun _ => h, fun _ => ⟨_, rfl⟩⟩
  | duplicate ht h hfit => exact ⟨nofun, fun hm => absurd h hm.not_clashes⟩
  | long h hfit => exact ⟨nofun, fun hm => absurd h hm.not_clashes⟩
  | refused hm hc hx he => exact ⟨nofun, fun h => absurd h hm⟩

lemma WellFormed.declare_eq_duplicate_iff {m : String} {t u : SortSpec} :
    Γ.declare n s = .error (.duplicate m t u) ↔
      (s.IsSort ∧ Γ.sort? n = some t ∧ t ≠ s) ∧ s.fits = true ∧ m = n ∧ u = s := by
  have hend := h.declaration_ends n s
  generalize Γ.declare n s = x at hend
  cases hend with
  | done h => exact ⟨nofun, fun hd => absurd ⟨hd.1.1, t, hd.1.2⟩ h.not_clashes⟩
  | duplicate ht h hfit =>
    obtain ⟨hs, t', ht', hne⟩ := h
    cases ht.symm.trans ht'
    constructor
    · rintro ⟨⟩
      exact ⟨⟨hs, ht, hne⟩, hfit, rfl, rfl⟩
    · rintro ⟨⟨-, hsome, -⟩, -, rfl, rfl⟩
      rw [Option.some.inj (ht.symm.trans hsome)]
  | long h hfit =>
    refine ⟨nofun, ?_⟩
    rintro ⟨-, hfit', -⟩
    rw [hfit] at hfit'
    cases hfit'
  | refused hm hc hx he => exact ⟨nofun, fun hd => absurd ⟨hd.1.1, t, hd.1.2⟩ hc⟩

/-- A sort is refused if the name has not been declared with another one and the sort is not admissible;
the part for which it is refused is quoted. -/
lemma WellFormed.declare_eq_sort_iff :
    (∃ e, e ≠ .tooManyDigits ∧ Γ.declare n s = .error (.sort e)) ↔
      ¬ MayDeclare (Γ.sort? n) s ∧ ¬ Clashes (Γ.sort? n) s ∧
        ∀ x, s.UndeclarableFor x → x.fits = true := by
  have hend := h.declaration_ends n s
  generalize Γ.declare n s = x at hend
  cases hend with
  | done h => exact ⟨nofun, fun hr => absurd h hr.1⟩
  | duplicate ht h hfit => exact ⟨nofun, fun hr => absurd h hr.2.1⟩
  | long h hfit => exact ⟨fun ⟨_, he, heq⟩ => by cases heq; exact absurd rfl he, fun hr => absurd h hr.2.1⟩
  | @refused e x hm hc hx he =>
    constructor
    · rintro ⟨_, hne, ⟨⟩⟩
      refine ⟨hm, hc, fun y hy => ?_⟩
      rw [hy.unique hx]
      simpa using mt he.mpr hne
    · rintro ⟨-, -, hall⟩
      refine ⟨e, fun heq => ?_, rfl⟩
      rw [he, hall x hx] at heq
      cases heq

/-- The other errors are those about what cannot be written out. -/
lemma WellFormed.declare_eq_tooManyDigits_iff :
    Γ.declare n s = .error (.sort .tooManyDigits) ↔
      Clashes (Γ.sort? n) s ∧ s.fits = false ∨ ¬ MayDeclare (Γ.sort? n) s ∧
        ¬ Clashes (Γ.sort? n) s ∧ ∃ x, s.UndeclarableFor x ∧ x.fits = false := by
  have hend := h.declaration_ends n s
  generalize Γ.declare n s = x at hend
  cases hend with
  | done h => exact ⟨nofun, fun hr => hr.elim (fun hr => absurd hr.1 h.not_clashes) fun hr => absurd h hr.1⟩
  | duplicate ht h hfit => simp [h, hfit]
  | long h hfit => exact ⟨fun _ => .inl ⟨h, hfit⟩, fun _ => rfl⟩
  | @refused e x hm hc hx he =>
    constructor
    · rintro ⟨⟩
      exact .inr ⟨hm, hc, x, hx, he.mp rfl⟩
    · rintro (⟨hc', -⟩ | ⟨-, -, y, hy, hfit⟩)
      · exact absurd hc' hc
      · rw [hy.unique hx] at hfit
        rw [he.mpr hfit]

/-- Constants of one sort of terms were declared with one sort. -/
lemma WellFormed.range_eq_iff {c d : Declaration} (hc : c ∈ Γ.constants) (hd : d ∈ Γ.constants) :
    c.symbol.range = d.symbol.range ↔ c.spec = d.spec := by
  obtain ⟨x, hx, hcx⟩ := h.constant_symbol hc
  obtain ⟨y, hy, hdy⟩ := h.constant_symbol hd
  rw [hcx, hdy]
  constructor
  · intro hxy
    rw [SortSpec.toTermSort_eq_ok_iff.mp hx, SortSpec.toTermSort_eq_ok_iff.mp hy]
    exact congrArg _ hxy
  · intro hs
    rw [hs, hy] at hx
    exact (Except.ok.inj hx).symm

end

/-! ### Names by their code points -/

/-- The table that is asked for a name: none has one with a code point that is no character. -/
def askedFor (Γ : Symbols) (p : Text.Points) : Symbols := if p.areChars then Γ else empty

lemma WellFormed.askedFor (h : Γ.WellFormed) (p : Text.Points) : (Γ.askedFor p).WellFormed := by
  unfold Symbols.askedFor
  split
  · exact h
  · exact wellFormed_empty

lemma declarePoints_eq_error_iff {p : Text.Points} {e : DeclareError} (he : e ≠ .notCharacters) :
    Γ.declarePoints p s = .error e ↔ (Γ.askedFor p).declare (String.ofList p.chars) s = .error e := by
  unfold declarePoints askedFor
  split
  · rfl
  · rcases empty.declare (String.ofList p.chars) s with e' | Γ'
    · rfl
    · exact ⟨fun h => absurd (Except.error.inj h).symm he, nofun⟩

lemma WellFormed.declarePoints_eq_notCharacters_iff (h : Γ.WellFormed) {p : Text.Points} :
    Γ.declarePoints p s = .error .notCharacters ↔ p.areChars = false ∧ s.IsAdmissible := by
  unfold declarePoints
  rcases p.areChars with _ | _
  · have hempty := wellFormed_empty.declare_eq_ok_iff (n := String.ofList p.chars) (s := s)
    have hend := wellFormed_empty.declaration_ends (String.ofList p.chars) s
    have hmay : MayDeclare (empty.sort? (String.ofList p.chars)) s ↔ s.IsAdmissible := by
      simp [MayDeclare, sort?, find?, empty]
    rw [hmay] at hempty
    generalize empty.declare (String.ofList p.chars) s = x at hempty hend
    cases hend with
    | done h => exact ⟨fun _ => ⟨rfl, hempty.mp ⟨_, rfl⟩⟩, fun _ => rfl⟩
    | _ =>
      constructor
      · rintro ⟨⟩
      · rintro ⟨-, ha⟩
        obtain ⟨Γ', hΓ'⟩ := hempty.mpr ha
        cases hΓ'
  · have hend := h.declaration_ends (String.ofList p.chars) s
    rw [if_pos rfl]
    generalize Γ.declare (String.ofList p.chars) s = x at hend
    refine ⟨fun heq => ?_, fun ha => absurd ha.1.symm Bool.false_ne_true⟩
    cases hend <;> cases heq

def firstSort? (xs : List (String × SortSpec)) (p : Text.Points) : Option SortSpec :=
  ((empty.successes xs).find? fun x => .ofChars x.1.toList == p).map (·.2)

lemma sort?_askedFor (xs : List (String × SortSpec)) (p : Text.Points) :
    ((empty.declareAll xs).askedFor p).sort? (String.ofList p.chars) = firstSort? xs p := by
  have hname : ∀ m : String, (Text.Points.ofChars m.toList == p) =
      (p.areChars && (m == String.ofList p.chars)) := by
    intro m
    rw [Bool.eq_iff_iff, Bool.and_eq_true, beq_iff_eq, beq_iff_eq]
    constructor
    · rintro rfl
      exact ⟨Text.Points.areChars_ofChars _, by rw [Text.Points.chars_ofChars, String.ofList_toList]⟩
    · rintro ⟨hp, rfl⟩
      rw [String.toList_ofList, Text.Points.ofChars_chars hp]
  unfold firstSort? askedFor
  simp only [hname]
  rcases hp : p.areChars with _ | _
  · have hnone : (empty.successes xs).find? (fun _ => false) = none := by
      rw [List.find?_eq_none]
      exact fun _ _ => Bool.false_ne_true
    simp only [Bool.false_and, hnone]
    rfl
  · simpa using sort?_eq_first xs (String.ofList p.chars)

/-- **Exactly the admissible sorts can be declared**, by names of characters. After any declarations, one
more ends well if the name has not been declared and the sort is admissible, or if the name was first
declared with that very sort. The name counts as declared twice if a sort is given and the name was first
declared with another one; in all other cases the sort is refused for its first part that is to be the
sort of a value and is none. Either error quotes what is wrong: where that holds an integer of too many
digits the declaration fails for that. A name that is not made of characters is given up last. The sorts
that stand for sorts of terms are those of values, different ones for different sorts, so that two
constants are of one sort of terms exactly if they were declared with one sort. -/
theorem declare_iff_admissible (xs : List (String × SortSpec)) :
    let Γ := empty.declareAll xs
    let first? := firstSort? xs
    (∀ n s, Γ.declarePoints (.ofChars n.toList) s = Γ.declare n s) ∧
    (∀ p s, (∃ Γ', Γ.declarePoints p s = .ok Γ') ↔ p.areChars = true ∧ MayDeclare (first? p) s) ∧
    (∀ p s m t u, Γ.declarePoints p s = .error (.duplicate m t u) ↔
      (s.IsSort ∧ first? p = some t ∧ t ≠ s) ∧ s.fits = true ∧ m = String.ofList p.chars ∧ u = s) ∧
    (∀ p s, (∃ e, e ≠ .tooManyDigits ∧ Γ.declarePoints p s = .error (.sort e)) ↔
      ¬ MayDeclare (first? p) s ∧ ¬ Clashes (first? p) s ∧
        ∀ x, s.UndeclarableFor x → x.fits = true) ∧
    (∀ p s, Γ.declarePoints p s = .error (.sort .tooManyDigits) ↔
      Clashes (first? p) s ∧ s.fits = false ∨ ¬ MayDeclare (first? p) s ∧
        ¬ Clashes (first? p) s ∧ ∃ x, s.UndeclarableFor x ∧ x.fits = false) ∧
    (∀ p s, Γ.declarePoints p s = .error .notCharacters ↔ p.areChars = false ∧ s.IsAdmissible) ∧
    (∀ p s t, first? p = some t → (t.same s = true ↔ t = s)) ∧
    (∀ s : SortSpec, (∃ r, s.toTermSort = .ok r) ↔ s.IsValue) ∧
    (∀ (s t : SortSpec) (r : TermSort), s.toTermSort = .ok r → t.toTermSort = .ok r → s = t) ∧
    ∀ c ∈ Γ.constants, ∀ d ∈ Γ.constants, c.symbol.range = d.symbol.range ↔ c.spec = d.spec := by
  intro Γ first?
  have hΓ : Γ.WellFormed := wellFormed_empty.declareAll xs
  have hfirst : ∀ p, first? p = (Γ.askedFor p).sort? (String.ofList p.chars) := fun p =>
    (sort?_askedFor xs p).symm
  refine ⟨fun n s => ?string, fun p s => ?done, fun p s m t u => ?duplicate, fun p s => ?sort,
    fun p s => ?digits, fun p s => ?characters, fun p s t ht => ?same, fun s => SortSpec.isValue_iff.symm,
    fun s t r hs ht => ?injective, fun c hc d hd => hΓ.range_eq_iff hc hd⟩
  case string =>
    rw [declarePoints, if_pos (Text.Points.areChars_ofChars _), Text.Points.chars_ofChars,
      String.ofList_toList]
  case done =>
    rw [hfirst, ← (hΓ.askedFor p).declare_eq_ok_iff]
    unfold declarePoints askedFor
    rcases p.areChars with _ | _
    · simp only [Bool.false_eq_true, if_false, false_and, iff_false]
      rcases empty.declare (String.ofList p.chars) s with e | Γ' <;> exact nofun
    · simp
  case duplicate =>
    rw [declarePoints_eq_error_iff (e := .duplicate m t u) nofun,
      (hΓ.askedFor p).declare_eq_duplicate_iff, hfirst]
  case sort =>
    rw [hfirst, ← (hΓ.askedFor p).declare_eq_sort_iff]
    exact exists_congr fun e => and_congr_right fun _ => declarePoints_eq_error_iff nofun
  case digits =>
    rw [declarePoints_eq_error_iff (e := .sort .tooManyDigits) nofun,
      (hΓ.askedFor p).declare_eq_tooManyDigits_iff, hfirst]
  case characters => exact hΓ.declarePoints_eq_notCharacters_iff
  case same =>
    rw [hfirst] at ht
    exact ((hΓ.askedFor p).isAdmissible ht).same_iff
  case injective =>
    rw [SortSpec.toTermSort_eq_ok_iff.mp hs, SortSpec.toTermSort_eq_ok_iff.mp ht]

/-- Declarations that fail with no word on the sort: of a name with half of a surrogate pair, although
it is not declared and the sort is admissible; and with an integer of more digits than can be written out,
which is no sort. -/
theorem refused_without_words :
    let p : Text.Points := [0x78, 0xd800]
    let s := SortSpec.junk (.int (Nat.pow 10 Decimal.maxDigits))
    (firstSort? [] p = none ∧ SortSpec.int.IsAdmissible ∧
      empty.declarePoints p .int = .error .notCharacters) ∧
    ¬ s.IsSort ∧ empty.declare "x" s = .error (.sort .tooManyDigits) ∧
      SortError.tooManyDigits.message? = none := by
  intro p s
  have hfits : Decimal.fits (Nat.pow 10 Decimal.maxDigits) = false := by
    rw [Decimal.fits, decide_eq_false_iff_not, Int.natAbs_natCast]
    exact Nat.lt_irrefl _
  have hadmissible : SortSpec.int.IsAdmissible := (SortSpec.isAdmissible_iff "x").mpr ⟨_, rfl⟩
  refine ⟨⟨rfl, hadmissible, rfl⟩, fun hs => hs.2 _ rfl, ?_, rfl⟩
  change Except.error (DeclareError.sort (if Decimal.fits (Nat.pow 10 Decimal.maxDigits) then _ else _)) = _
  rw [hfits]
  rfl

end Symbols

end Horn

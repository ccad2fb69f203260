import Horn.Proofs.Declarable
import Horn.Proofs.Session.Journal

/-!
Sorts and their texts. Main statement: different sorts have different texts, so that an error about two
sorts of one name never quotes one text twice.
-/

namespace Horn

namespace SortSpec

/-! ### Texts as characters -/

def chars (s : SortSpec) : List Char := s.text.toList

def furtherChars (ds : List SortSpec) : List Char := ds.flatMap fun d => ',' :: ' ' :: d.chars

def domainChars : List SortSpec → List Char
  | [] => []
  | d :: ds => d.chars ++ furtherChars ds

@[simp] lemma chars_absent : absent.chars = ['N', 'o', 'n', 'e'] := rfl

@[simp] lemma chars_int : int.chars = ['I', 'n', 't'] := rfl

@[simp] lemma chars_bool : bool.chars = ['B', 'o', 'o', 'l'] := rfl

@[simp] lemma chars_bareArray : bareArray.chars = ['A', 'r', 'r', 'a', 'y'] := rfl

@[simp] lemma chars_bareFunction : bareFunction.chars = ['F', 'u', 'n', 'c', 't', 'i', 'o', 'n'] := rfl

@[simp] lemma chars_array (d r : SortSpec) : (array d r).chars =
    'A' :: 'r' :: 'r' :: 'a' :: 'y' :: '(' :: (d.chars ++ ',' :: ' ' :: (r.chars ++ [')'])) := by
  simp [chars, text]

lemma map_texts (ds : List SortSpec) : (texts ds).map String.toList = ds.map chars := by
  induction ds with
  | nil => rfl
  | cons d ds ih => rw [texts, List.map_cons, List.map_cons, ih, chars]

lemma intercalate_chars (ds : List SortSpec) :
    [',', ' '].intercalate (ds.map chars) = domainChars ds := by
  rcases ds with _ | ⟨d, ds⟩
  · rfl
  · induction ds generalizing d with
    | nil => simp [domainChars, furtherChars]
    | cons e ds ih =>
      rw [List.map_cons, List.map_cons, List.intercalate_cons_cons, ← List.map_cons, ih]
      simp [domainChars, furtherChars]

@[simp] lemma chars_function (ds : List SortSpec) (c : SortSpec) : (function ds c).chars =
    '(' :: (domainChars ds ++ ')' :: ' ' :: '-' :: '>' :: ' ' :: c.chars) := by
  simp [chars, text, map_texts, intercalate_chars]

/-! ### Unique readability -/

/-- What follows does not go on with an opening parenthesis, as no text after a sort does. -/
def Closes (x : List Char) : Prop := x.head? ≠ some '('

/-- Where a plain sort is read instead, it is this one, and what follows is the same. -/
def IsReadable (s : SortSpec) : Prop :=
  ∀ {t : SortSpec} {x y : List Char}, t.IsPlain → Closes x → Closes y →
    s.chars ++ x = t.chars ++ y → s = t ∧ x = y

lemma closes_nil : Closes [] := by simp [Closes]

lemma closes_cons {c : Char} (hc : c ≠ '(') (x : List Char) : Closes (c :: x) := by simpa [Closes] using hc

lemma closes_further (ds : List SortSpec) (x : List Char) : Closes (furtherChars ds ++ ')' :: x) := by
  rcases ds with _ | ⟨d, ds⟩
  · exact closes_cons (by decide) _
  · exact closes_cons (by decide) _

/-- No sort begins like what follows a domain. -/
lemma IsPlain.chars_ne {s : SortSpec} (h : s.IsPlain) (x y : List Char) : s.chars ++ x ≠ ')' :: y := by
  cases h <;> simp

lemma furtherChars_readable {ds es : List SortSpec} {x y : List Char} (hds : ∀ d ∈ ds, d.IsReadable)
    (hes : ∀ e ∈ es, e.IsPlain) (h : furtherChars ds ++ ')' :: x = furtherChars es ++ ')' :: y) :
    ds = es ∧ x = y := by
  induction ds generalizing es with
  | nil =>
    rcases es with _ | ⟨e, es⟩
    · simpa [furtherChars] using h
    · simp [furtherChars] at h
  | cons d ds ih =>
    rcases es with _ | ⟨e, es⟩
    · simp [furtherChars] at h
    · rw [List.forall_mem_cons] at hds hes
      have h : d.chars ++ (furtherChars ds ++ ')' :: x) = e.chars ++ (furtherChars es ++ ')' :: y) := by
        simpa [furtherChars] using h
      obtain ⟨rfl, hrest⟩ := hds.1 hes.1 (closes_further ds x) (closes_further es y) h
      obtain ⟨rfl, rfl⟩ := ih hds.2 hes.2 hrest
      exact ⟨rfl, rfl⟩

/-- **A domain can be read in one way**, up to the parenthesis that ends it. -/
lemma domainChars_readable {ds es : List SortSpec} {x y : List Char} (hplain : ∀ d ∈ ds, d.IsPlain)
    (hds : ∀ d ∈ ds, d.IsReadable) (hes : ∀ e ∈ es, e.IsPlain)
    (h : domainChars ds ++ ')' :: x = domainChars es ++ ')' :: y) : ds = es ∧ x = y := by
  rcases ds with _ | ⟨d, ds⟩ <;> rcases es with _ | ⟨e, es⟩
  · simpa [domainChars] using h
  · rw [List.forall_mem_cons] at hes
    rw [domainChars, domainChars, List.append_assoc] at h
    exact absurd h.symm (hes.1.chars_ne _ _)
  · rw [List.forall_mem_cons] at hplain
    rw [domainChars, domainChars, List.append_assoc] at h
    exact absurd h (hplain.1.chars_ne _ _)
  · rw [List.forall_mem_cons] at hds hes
    rw [domainChars, domainChars, List.append_assoc, List.append_assoc] at h
    obtain ⟨rfl, hrest⟩ := hds.1 hes.1 (closes_further ds x) (closes_further es y) h
    obtain ⟨rfl, rfl⟩ := furtherChars_readable hds.2 hes.2 hrest
    exact ⟨rfl, rfl⟩

/-- **Sorts can be read in one way**, whatever follows them but an opening parenthesis, which would make a
composed array of a bare one. -/
lemma IsPlain.isReadable {s : SortSpec} (hs : s.IsPlain) : s.IsReadable := by
  induction hs with
  | @array d r hd hr ihd ihr =>
    intro t x y ht hx hy h
    cases ht with
    | @array d' r' hd' hr' =>
      have h : d.chars ++ ',' :: ' ' :: (r.chars ++ ')' :: x) =
          d'.chars ++ ',' :: ' ' :: (r'.chars ++ ')' :: y) := by
        simpa using h
      obtain ⟨rfl, hrest⟩ := ihd hd' (closes_cons (by decide) _) (closes_cons (by decide) _) h
      have hrest : r.chars ++ ')' :: x = r'.chars ++ ')' :: y := by simpa using hrest
      obtain ⟨rfl, hrest⟩ := ihr hr' (closes_cons (by decide) _) (closes_cons (by decide) _) hrest
      exact ⟨rfl, by simpa using hrest⟩
    | bareArray =>
      -- what follows the bare array would be the parenthesis
      have h : '(' :: (d.chars ++ ',' :: ' ' :: (r.chars ++ ')' :: x)) = y := by simpa using h
      rw [← h] at hy
      exact absurd rfl hy
    | _ => simp at h
  | @function ds c hds hc ihds ihc =>
    intro t x y ht hx hy h
    cases ht with
    | @function es c' hes hc' =>
      have h : domainChars ds ++ ')' :: (' ' :: '-' :: '>' :: ' ' :: (c.chars ++ x)) =
          domainChars es ++ ')' :: (' ' :: '-' :: '>' :: ' ' :: (c'.chars ++ y)) := by
        simpa using h
      obtain ⟨rfl, hrest⟩ := domainChars_readable hds ihds hes h
      obtain ⟨rfl, rfl⟩ := ihc hc' hx hy (by simpa using hrest)
      exact ⟨rfl, rfl⟩
    | _ => simp at h
  | bareArray =>
    intro t x y ht hx hy h
    cases ht with
    | bareArray => exact ⟨rfl, by simpa using h⟩
    | @array d r hd hr =>
      have h : x = '(' :: (d.chars ++ ',' :: ' ' :: (r.chars ++ ')' :: y)) := by simpa using h
      rw [h] at hx
      exact absurd rfl hx
    | _ => simp at h
  | _ =>
    -- a sort without parts: no other one begins with its letters
    intro t x y ht hx hy h
    cases ht <;> simp at h
    exact ⟨rfl, h⟩

/-- **Plain sorts with one text are one sort.** -/
lemma IsPlain.text_iff {s t : SortSpec} (hs : s.IsPlain) (ht : t.IsPlain) : s.text = t.text ↔ s = t := by
  refine ⟨fun h => ?_, fun h => congrArg _ h⟩
  have hchars : s.chars ++ [] = t.chars ++ [] := by rw [chars, chars, h]
  exact (hs.isReadable ht closes_nil closes_nil hchars).1

end SortSpec

/-! ### Quoted sorts -/

/-- **A name that is declared with another plain sort** is quoted with two different texts. -/
lemma Symbols.WellFormed.duplicate_text_ne {Γ : Symbols} (hΓ : Γ.WellFormed) {n m : String}
    {s t u : SortSpec} (hs : s.IsPlain) (h : Γ.declare n s = .error (.duplicate m t u)) :
    t.text ≠ u.text := by
  obtain ⟨⟨-, hsort, hne⟩, -, -, rfl⟩ := hΓ.declare_eq_duplicate_iff.mp h
  exact fun htext => hne (((hΓ.isAdmissible hsort).isPlain.text_iff hs).mp htext)

/-- **The texts of sorts are unambiguous.** Two sorts that are built of the kinds, of arrays and of
functions, with parts that may be missing but nothing else in them, have one text exactly if they are
equal; and what a text goes on with can be told from it, unless that is an opening parenthesis. So where
a name cannot be declared with such a sort because it has another one, in a table or in a session, the
error quotes two different texts. -/
theorem sort_text_eq_iff :
    (∀ s t : SortSpec, s.IsPlain → t.IsPlain → (s.text = t.text ↔ s.same t = true)) ∧
    (∀ (s t : SortSpec) (x y : String), s.IsPlain → t.IsPlain → x.toList.head? ≠ some '(' →
      y.toList.head? ≠ some '(' → s.text ++ x = t.text ++ y → s = t ∧ x = y) ∧
    (∀ ds n s m t u, s.IsPlain → (Symbols.empty.declareAll ds).declare n s = .error (.duplicate m t u) →
      (DeclareError.duplicate m t u).message? = some ("'" ++ n ++ "' already declared with sort " ++
        t.text ++ ", cannot redeclare with sort " ++ s.text) ∧ t.text ≠ s.text) ∧
    ∀ c cs E n s m t u, s.IsPlain →
      (Session.declare n s E (.run (.new c) cs)).result = .error (.declare (.duplicate m t u)) →
      m = n ∧ u = s ∧ t.text ≠ s.text := by
  refine ⟨fun s t hs ht => ?_, fun s t x y hs ht hx hy h => ?_, fun ds n s m t u hs h => ?_,
    fun c cs E n s m t u hs h => ?_⟩
  · rw [hs.text_iff ht, hs.same_iff]
  · have hchars : s.chars ++ x.toList = t.chars ++ y.toList := by
      rw [SortSpec.chars, SortSpec.chars, ← String.toList_append, ← String.toList_append, h]
    obtain ⟨hst, hxy⟩ := hs.isReadable ht hx hy hchars
    exact ⟨hst, String.toList_inj.mp hxy⟩
  · have hΓ : (Symbols.empty.declareAll ds).WellFormed := Symbols.wellFormed_empty.declareAll ds
    obtain ⟨-, -, rfl, rfl⟩ := hΓ.declare_eq_duplicate_iff.mp h
    exact ⟨rfl, hΓ.duplicate_text_ne hs h⟩
  · have hΓ := (Session.good_run c cs).symbols
    have hend := Session.declare_ends n s E (.run (.new c) cs)
    generalize Session.declare n s E (.run (.new c) cs) = o at h hend
    cases hend with
    | failed hd =>
      cases h
      obtain ⟨-, -, rfl, rfl⟩ := hΓ.declare_eq_duplicate_iff.mp hd
      exact ⟨rfl, rfl, hΓ.duplicate_text_ne hs hd⟩
    | again _ _ => cases h
    | declared _ _ => cases h

/-- A function of a function and a function to a function. -/
theorem sort_text_eq_iff_nested :
    let s := SortSpec.function [.function [.int] .bool] .bool
    let t := SortSpec.function [.int] (.function [.bool] .bool)
    s.IsPlain ∧ t.IsPlain ∧ s.text = "((Int) -> Bool) -> Bool" ∧ t.text = "(Int) -> (Bool) -> Bool" ∧
      s.same t = false := by
  intro s t
  have hs : s.IsPlain := .function (by simpa using .function (by simpa using .int) .bool) .bool
  have ht : t.IsPlain := .function (by simpa using .int) (.function (by simpa using .bool) .bool)
  have hst : ¬ s.same t = true := fun h => absurd ((sort_text_eq_iff.1 s t hs ht).mpr h) (by decide)
  exact ⟨hs, ht, by decide, by decide, by simpa using hst⟩

end Horn

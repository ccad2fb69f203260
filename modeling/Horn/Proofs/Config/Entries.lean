import Horn.Config.Load
import Horn.Proofs.Shape
import Mathlib.Logic.Relation

/-!
The settings that the entries of a file make. Main statement: they are valid, and the same in whichever way
the settings are spelled and whatever else is said.
-/

namespace Horn

/-! ### Spellings -/

namespace Setting

def spells (s : Setting) (k : Value) : Bool :=
  match k with
  | .text a => a == s.spellings.1 || a == s.spellings.2
  | _ => false

lemma spells_iff {s : Setting} {k : Value} :
    s.spells k = true ↔ k = .text s.spellings.1 ∨ k = .text s.spellings.2 := by
  cases k <;> simp [spells]

lemma spellings_ne (s : Setting) : s.spellings.1 ≠ s.spellings.2 := by
  cases s <;> decide

/-- No key spells two settings. -/
lemma eq_of_spells {s t : Setting} {k : Value} (hs : s.spells k = true) (ht : t.spells k = true) :
    s = t := by
  cases k with
  | text a =>
    have hs : a = s.spellings.1 ∨ a = s.spellings.2 := by simpa [spells] using hs
    cases s <;> cases t <;> rcases hs with rfl | rfl <;> first | rfl | cases ht
  | _ => cases hs

lemma spells_congr {s t : Setting} {k l : Value} (hk : t.spells k = true) (hl : t.spells l = true) :
    s.spells k = s.spells l := by
  by_cases h : s = t
  · rw [h, hk, hl]
  · have hne : ∀ k, t.spells k = true → s.spells k = false := fun k hk =>
      Bool.eq_false_iff.mpr fun hs => h (eq_of_spells hs hk)
    rw [hne k hk, hne l hl]

end Setting

namespace Config

lemma isSetting_iff {k : Value} : isSetting k = true ↔ ∃ s : Setting, s.spells k = true := by
  cases k with
  | text a =>
    constructor
    · intro h
      have h : a ∈ keys := by simpa [isSetting] using h
      obtain ⟨s, -, hs⟩ := List.mem_flatMap.mp h
      exact ⟨s, by simpa [Setting.spells] using hs⟩
    · rintro ⟨s, hs⟩
      have hs : a = s.spellings.1 ∨ a = s.spellings.2 := by simpa [Setting.spells] using hs
      cases s <;> rcases hs with rfl | rfl <;> decide
  | _ => simp [isSetting, Setting.spells]

variable {es es' : List (Value × Value)} {s : Setting}

/-- What the entries say of a setting, under either of its spellings. -/
def valuesOf (es : List (Value × Value)) (s : Setting) : List Value :=
  (es.filter fun e => s.spells e.1).map (·.2)

lemma valuesOf_cons_of_spells {e : Value × Value} (h : s.spells e.1 = true) :
    valuesOf (e :: es) s = e.2 :: valuesOf es s := by
  simp [valuesOf, h]

lemma valuesOf_cons_of_not_spells {e : Value × Value} (h : s.spells e.1 = false) :
    valuesOf (e :: es) s = valuesOf es s := by
  simp [valuesOf, h]

lemma valuesOf_append (xs ys : List (Value × Value)) :
    valuesOf (xs ++ ys) s = valuesOf xs s ++ valuesOf ys s := by
  simp only [valuesOf, List.filter_append, List.map_append]

lemma lookup_cons_self (a : String) (v : Value) : Value.lookup ((.text a, v) :: es) a = some v := by
  simp [Value.lookup]

lemma lookup_cons_of_ne {e : Value × Value} {a : String} (h : e.1 ≠ .text a) :
    Value.lookup (e :: es) a = Value.lookup es a := by
  obtain ⟨k, v⟩ := e
  cases k with
  | text b => simp [Value.lookup, show b ≠ a from fun hb => h (congrArg _ hb)]
  | _ => rfl

/-- **A setting that is said at most once is what is said of it.** -/
lemma given?_eq_head? (h : (valuesOf es s).length ≤ 1) : given? es s = (valuesOf es s).head? := by
  induction es with
  | nil => rfl
  | cons e es ih =>
    rcases hs : s.spells e.1 with _ | _
    · rw [valuesOf_cons_of_not_spells hs] at h ⊢
      rw [← ih h]
      have hne : e.1 ≠ .text s.spellings.1 ∧ e.1 ≠ .text s.spellings.2 := by
        rw [← not_or, ← Setting.spells_iff, hs]
        exact Bool.false_ne_true
      rw [given?, lookup_cons_of_ne hne.1, lookup_cons_of_ne hne.2, given?]
    · rw [valuesOf_cons_of_spells hs] at h ⊢
      have hnone : valuesOf es s = [] := by simpa using h
      have hgiven : given? es s = none := by rw [ih (by simp [hnone]), hnone]; rfl
      obtain ⟨hfirst, -⟩ := Option.or_eq_none_iff.mp hgiven
      obtain ⟨k, v⟩ := e
      rcases Setting.spells_iff.mp hs with rfl | rfl
      · rw [given?, lookup_cons_self]
        rfl
      · have hne : Value.text s.spellings.2 ≠ .text s.spellings.1 := fun h =>
          s.spellings_ne (Value.text.inj h).symm
        rw [given?, lookup_cons_of_ne hne, hfirst, lookup_cons_self]
        rfl

/-! ### Dictionaries -/

/-- No key stands twice. -/
def IsMapping (es : List (Value × Value)) : Prop := es.Pairwise fun e f => e.1.sameKey f.1 = false

/-- No setting is spelled in both ways. -/
def SpelledOnce (es : List (Value × Value)) : Prop :=
  ∀ s : Setting, ∀ e ∈ es, ∀ f ∈ es, s.spells e.1 = true → s.spells f.1 = true → e.1 = f.1

lemma sameKey_text (a b : String) : (Value.text a).sameKey (.text b) = (a == b) := by
  simp [Value.sameKey, Value.same, Value.sameLeaf]

lemma length_valuesOf (hkeys : IsMapping es) (honce : SpelledOnce es) :
    (valuesOf es s).length ≤ 1 := by
  have hpair : (es.filter fun e => s.spells e.1).Pairwise fun e f => e.1.sameKey f.1 = false :=
    hkeys.filter _
  have hsame : ∀ e ∈ es.filter fun e => s.spells e.1, ∀ f ∈ es.filter fun e => s.spells e.1,
      e.1.sameKey f.1 = true := by
    intro e he f hf
    obtain ⟨he, hse⟩ := List.mem_filter.mp he
    obtain ⟨hf, hsf⟩ := List.mem_filter.mp hf
    rw [← honce s e he f hf hse hsf]
    rcases Setting.spells_iff.mp hse with h | h <;> rw [h, sameKey_text, beq_self_eq_true]
  rw [valuesOf, List.length_map]
  generalize es.filter (fun e => s.spells e.1) = fs at hpair hsame
  rcases fs with _ | ⟨e, _ | ⟨f, fs⟩⟩
  · simp
  · simp
  · have hf : f ∈ f :: fs := .head _
    have hne := List.rel_of_pairwise_cons hpair hf
    rw [hsame e (.head _) f (.tail _ hf)] at hne
    cases hne

/-- **A change that says nothing else**: a setting is spelled in the other way, an entry that is no setting
is added or removed, or the entries are put into another order. -/
inductive Edit : List (Value × Value) → List (Value × Value) → Prop where
  | respell {s : Setting} {k l v : Value} (hk : s.spells k = true) (hl : s.spells l = true)
    (xs ys : List (Value × Value)) : Edit (xs ++ (k, v) :: ys) (xs ++ (l, v) :: ys)
  | add {e : Value × Value} (he : isSetting e.1 = false) (xs ys : List (Value × Value)) :
    Edit (xs ++ ys) (xs ++ e :: ys)
  | remove {e : Value × Value} (he : isSetting e.1 = false) (xs ys : List (Value × Value)) :
    Edit (xs ++ e :: ys) (xs ++ ys)
  | reorder {es es' : List (Value × Value)} (h : es'.Perm es) : Edit es es'

lemma not_spells_of_isSetting {k : Value} (hk : isSetting k = false) : s.spells k = false :=
  Bool.eq_false_iff.mpr fun hs => by
    rw [isSetting_iff.mpr ⟨s, hs⟩] at hk
    cases hk

/-- **A change leaves what is said of each setting.** -/
lemma Edit.valuesOf (h : Edit es es') (s : Setting) : (valuesOf es' s).Perm (valuesOf es s) := by
  cases h with
  | @respell t k l v hk hl xs ys =>
    have hkl : s.spells k = s.spells l := Setting.spells_congr hk hl
    rw [valuesOf_append, valuesOf_append]
    rcases hs : s.spells l with _ | _
    · rw [valuesOf_cons_of_not_spells hs, valuesOf_cons_of_not_spells (hkl.trans hs)]
    · rw [valuesOf_cons_of_spells hs, valuesOf_cons_of_spells (hkl.trans hs)]
  | add he xs ys =>
    rw [valuesOf_append, valuesOf_append, valuesOf_cons_of_not_spells (not_spells_of_isSetting he)]
  | remove he xs ys =>
    rw [valuesOf_append, valuesOf_append, valuesOf_cons_of_not_spells (not_spells_of_isSetting he)]
  | reorder h => exact (h.filter _).map _

/-- **Any number of changes** leave what is said of a setting. -/
lemma valuesOf_edits (h : Relation.ReflTransGen Edit es es') (s : Setting) :
    (valuesOf es' s).Perm (valuesOf es s) := by
  induction h with
  | refl => exact .refl _
  | tail _ hstep ih => exact (hstep.valuesOf s).trans ih

lemma given?_edits (hkeys : IsMapping es) (honce : SpelledOnce es)
    (h : Relation.ReflTransGen Edit es es') (s : Setting) : given? es' s = given? es s := by
  have hle : (valuesOf es s).length ≤ 1 := length_valuesOf hkeys honce
  have hperm := valuesOf_edits h s
  rw [given?_eq_head? hle, given?_eq_head? (hperm.length_eq ▸ hle)]
  rcases hvs : valuesOf es s with _ | ⟨v, _ | ⟨w, vs⟩⟩ <;> rw [hvs] at hperm hle
  · rw [hperm.eq_nil]
  · rw [List.perm_singleton.mp hperm]
  · simp at hle

/-! ### Configurations -/

/-- **The limits are positive integers, and the marker is a text.** -/
structure IsValid (c : Config) : Prop where
  limit : ∃ n : Int, c.resourceLimit = .int n ∧ 0 < n
  timeout : ∀ v ∈ c.timeout, ∃ n : Int, v = .int n ∧ 0 < n
  marker : (∃ a, c.marker = .text a) ∨ ∃ p, c.marker = .points p

lemma isValid_default : default.IsValid where
  limit := ⟨_, rfl, by decide⟩
  timeout := nofun
  marker := .inl ⟨_, rfl⟩

lemma limit_eq_ok_iff {v w : Value} : limit v = .ok w ↔ ∃ n, v.toInt = .ok n ∧ w = .int n := by
  unfold limit
  rcases v.toInt with e | n <;> simp [eq_comm]

lemma mapM_limit_eq_ok_iff {t u : Option Value} :
    t.mapM limit = .ok u ↔ ∃ m : Option Int, t.mapM Value.toInt = .ok m ∧ u = m.map .int := by
  rcases t with _ | v
  · simp [pure, Except.pure, eq_comm]
  · rw [Option.mapM_some, Option.mapM_some, limit]
    rcases v.toInt with e | n <;> simp [Functor.map, Except.map, eq_comm]

lemma nonpositive?_int (n : Int) : (Value.int n).nonpositive? = some (!decide (0 < n)) := by
  rw [Value.nonpositive?, ← decide_not]
  simp only [Int.not_lt]

lemma checked_eq_ok_iff {n : Int} {t : Option Int} {m : Value} {c : Config} :
    checked ⟨.int n, t.map .int, m⟩ = .ok c ↔
      (0 < n ∧ ∀ i ∈ t, 0 < i) ∧ c = ⟨.int n, t.map .int, m⟩ := by
  unfold checked
  by_cases hn : 0 < n
  · rcases t with _ | i
    · simp [nonpositive?_int, hn, eq_comm]
    · by_cases hi : 0 < i <;> simp [nonpositive?_int, hn, hi, eq_comm]
  · simp [nonpositive?_int, hn]

/-- **Which entries make a configuration**: those that say positive integers for the limits, or nothing, and
for the marker what has a text. -/
lemma ofEntries_eq_ok_iff {c : Config} : ofEntries es = .ok c ↔
    ∃ n t, ((given? es .resourceLimit).getD default.resourceLimit).toInt = .ok n ∧
      (timeoutOf ((given? es .timeout).getD .null)).mapM Value.toInt = .ok t ∧
      ((given? es .marker).getD default.marker).fits = true ∧ (0 < n ∧ ∀ i ∈ t, 0 < i) ∧
      c = ⟨.int n, t.map .int, ((given? es .marker).getD default.marker).toText⟩ := by
  unfold ofEntries
  constructor
  · intro h
    obtain ⟨r, hr, h⟩ := bind_eq_ok h
    obtain ⟨n, hn, rfl⟩ := limit_eq_ok_iff.mp hr
    obtain ⟨u, hu, h⟩ := bind_eq_ok h
    obtain ⟨t, ht, rfl⟩ := mapM_limit_eq_ok_iff.mp hu
    dsimp only at h
    split at h
    · rename_i hfits
      obtain ⟨hpos, rfl⟩ := checked_eq_ok_iff.mp h
      exact ⟨n, t, hn, ht, hfits, hpos, rfl⟩
    · cases h
  · rintro ⟨n, t, hn, ht, hfits, hpos, rfl⟩
    rw [limit_eq_ok_iff.mpr ⟨n, hn, rfl⟩]
    change ((timeoutOf ((given? es .timeout).getD .null)).mapM limit >>= _) = _
    rw [mapM_limit_eq_ok_iff.mpr ⟨t, ht, rfl⟩]
    change (if _ then _ else _) = _
    rw [if_pos hfits]
    exact checked_eq_ok_iff.mpr ⟨hpos, rfl⟩

lemma isText_toText (v : Value) : (∃ a, v.toText = .text a) ∨ ∃ p, v.toText = .points p := by
  unfold Value.toText
  split
  · exact .inr ⟨_, rfl⟩
  · exact .inl ⟨_, rfl⟩

lemma isValid_ofEntries {c : Config} (h : ofEntries es = .ok c) : c.IsValid := by
  obtain ⟨n, t, -, -, -, ⟨hn, ht⟩, rfl⟩ := ofEntries_eq_ok_iff.mp h
  refine ⟨⟨n, rfl, hn⟩, fun v hv => ?_, isText_toText _⟩
  obtain ⟨i, hi, rfl⟩ := Option.map_eq_some_iff.mp hv
  exact ⟨i, rfl, ht i hi⟩

lemma isValid_load {files : List (String × String)} {c : Config} (h : load files = .ok c) :
    c.IsValid := by
  unfold load at h
  split at h
  · unfold ofFile at h
    split at h
    · cases h
    · obtain ⟨es, -, h⟩ := bind_eq_ok h
      split at h
      · rename_i d hd
        cases h
        exact isValid_ofEntries hd
      · cases h
  · cases h
    exact isValid_default

/-- **Settings are made of what is said of them** and of nothing else. -/
lemma ofEntries_congr (h : ∀ s, given? es' s = given? es s) : ofEntries es' = ofEntries es := by
  unfold ofEntries
  rw [h, h, h]

/-- **What is loaded is valid, in whichever way it is spelled.** Entries, whatever they are, make settings
exactly if what they say of the limits, or the default, stands for positive integers and what they say of
the marker has a text. So settings that entries make, and those that are loaded from a directory, have
positive integers for their limits and a text for their marker. If the keys of the entries differ and no
setting is spelled in both ways, then whatever settings are spelled in the other way, and whatever is added
or removed that is no setting, the same settings are made or the same error is. -/
theorem ofEntries_spelling :
    (∀ es c, ofEntries es = .ok c ↔ ∃ n t,
      ((given? es .resourceLimit).getD default.resourceLimit).toInt = .ok n ∧
      (timeoutOf ((given? es .timeout).getD .null)).mapM Value.toInt = .ok t ∧
      ((given? es .marker).getD default.marker).fits = true ∧ (0 < n ∧ ∀ i ∈ t, 0 < i) ∧
      c = ⟨.int n, t.map .int, ((given? es .marker).getD default.marker).toText⟩) ∧
    (∀ es c, ofEntries es = .ok c → c.IsValid) ∧
    (∀ files c, load files = .ok c → c.IsValid) ∧
    ∀ es es', IsMapping es → SpelledOnce es → Relation.ReflTransGen Edit es es' →
      ofEntries es' = ofEntries es := by
  refine ⟨fun es c => ofEntries_eq_ok_iff, fun es c h => isValid_ofEntries h,
    fun files c h => isValid_load h, ?_⟩
  intro es es' hkeys honce hedits
  have hgiven : ∀ s, given? es' s = given? es s := given?_edits hkeys honce hedits
  exact ofEntries_congr hgiven

/-- A limit that is spelled in the other way, and a key that says nothing and is left out. -/
theorem ofEntries_spelling_limit :
    let es : List (Value × Value) := [(.text "resource-limit", .text "5"), (.int 3, .null)]
    let es' : List (Value × Value) := [(.text "resource_limit", .text "5")]
    IsMapping es ∧ SpelledOnce es ∧ Relation.ReflTransGen Edit es es' ∧
      ofEntries es = .ok ⟨.int 5, none, .text "summary"⟩ ∧ ofEntries es' = ofEntries es := by
  intro es es'
  have hkeys : IsMapping es := by
    unfold IsMapping
    exact .cons (by simp [Value.sameKey, Value.same, Value.sameLeaf, Value.asNumber?]) (.cons nofun .nil)
  have honce : SpelledOnce es := by
    have honly : ∀ s : Setting, ∀ e ∈ es, s.spells e.1 = true → e.1 = .text "resource-limit" := by
      intro s e he hs
      rcases List.mem_pair.mp he with rfl | rfl
      · rfl
      · cases hs
    exact fun s e he f hf hse hsf => (honly s e he hse).trans (honly s f hf hsf).symm
  have hedits : Relation.ReflTransGen Edit es es' :=
    .tail (.single (.respell (s := .resourceLimit) rfl rfl [] _)) (.remove rfl [_] [])
  exact ⟨hkeys, honce, hedits, by with_unfolding_all rfl,
    ofEntries_spelling.2.2.2 es es' hkeys honce hedits⟩

end Config

end Horn

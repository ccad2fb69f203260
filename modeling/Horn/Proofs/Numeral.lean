import Mathlib.Tactic.Lemma
import Horn.Decimal.Integer

/-!
Integers written in decimal and read again. Main statement: an integer that fits is read back from its
own text.
-/

namespace Horn.Decimal

open Horn.Text

def IsPlain (s : List Char) : Prop := ∀ c ∈ s, c.isDigit = true

variable {s : List Char}

lemma isPlain_toDigits (n : Nat) : IsPlain (Nat.toDigits 10 n) := fun _ hc =>
  Nat.isDigit_of_mem_toDigits (by decide) (by decide) hc

lemma not_isBlank_of_isDigit {c : Char} (h : c.isDigit = true) : isBlank c = false := by
  simp only [Char.isDigit, Bool.and_eq_true, decide_eq_true_eq] at h
  have h1 : (48 : Nat) ≤ c.toNat := h.1
  have h2 : c.toNat ≤ 57 := h.2
  simp only [isBlank, Bool.or_eq_false_iff, Bool.and_eq_false_iff, decide_eq_false_iff_not,
    beq_eq_false_iff_ne]
  omega

lemma strip_eq_self (h : ∀ c ∈ s, isBlank c = false) : strip s = s := by
  have hdrop : ∀ l : List Char, (∀ c ∈ l, isBlank c = false) → l.dropWhile isBlank = l := by
    intro l hl
    rcases l with _ | ⟨c, l⟩
    · rfl
    · rw [List.dropWhile_cons_of_neg (by simp [hl c])]
  unfold strip
  rw [hdrop s h, hdrop s.reverse (by simpa using h), List.reverse_reverse]

lemma digits?_of_isPlain (hne : s ≠ []) (h : IsPlain s) :
    digits? s = some (s.map fun c => c.toNat - '0'.toNat) := by
  fun_induction digits? s with
  | case1 => exact absurd rfl hne
  | case2 c => simp [digitValue?_of_isDigit (h c (by simp))]
  | case3 c r ih => exact absurd (h '_' (by simp)) (by decide)
  | case4 c r hr hu ih =>
    have hc := digitValue?_of_isDigit (h c (by simp))
    have hd := ih hr fun c' hc' => h c' (by simp [hc'])
    simp [hc, hd]

lemma ofDigits_map (s : List Char) :
    ofDigits (s.map fun c => c.toNat - '0'.toNat) = Nat.ofDigitChars 10 s 0 := by
  unfold ofDigits
  rw [List.foldl_map]
  rfl

lemma splitSign_of_isPlain (h : IsPlain s) : splitSign s = (false, s) := by
  unfold splitSign
  split
  · exact absurd (h '-' (by simp)) (by decide)
  · exact absurd (h '+' (by simp)) (by decide)
  · rfl

/-- An integer fits if its digits do. -/
lemma fits_iff {n : Int} : fits n = true ↔ (Nat.toDigits 10 n.natAbs).length ≤ maxDigits := by
  unfold fits
  rw [decide_eq_true_eq, Nat.pow_eq, ← Nat.length_toDigits_le_iff (by decide) (by decide)]

/-- What follows the sign is read as the number whose digits it is. -/
lemma toInt?_of_splitSign {neg : Bool} {n : Nat}
    (hs : splitSign (strip s) = (neg, Nat.toDigits 10 n))
    (hl : (Nat.toDigits 10 n).length ≤ maxDigits) :
    toInt? s = some (if neg then -(n : Int) else n) := by
  have hd := digits?_of_isPlain Nat.toDigits_ne_nil (isPlain_toDigits n)
  unfold toInt?
  rw [hs]
  dsimp only
  rw [hd, Option.bind_eq_bind, Option.bind_some, List.length_map, if_pos hl, ofDigits_map,
    Nat.ofDigitChars_ten_toDigits]
  rfl

/-- **An integer that fits is read back from its text.** -/
theorem toInt?_ofInt {n : Int} (h : fits n = true) : toInt? (ofInt n) = some n := by
  have hl := fits_iff.mp h
  have hblank : ∀ m, ∀ c ∈ Nat.toDigits 10 m, isBlank c = false := fun m c hc =>
    not_isBlank_of_isDigit (isPlain_toDigits m c hc)
  rcases n with m | m
  · have hs : splitSign (strip (ofInt (.ofNat m))) = (false, Nat.toDigits 10 m) := by
      unfold ofInt
      rw [strip_eq_self (hblank m), splitSign_of_isPlain (isPlain_toDigits m)]
    rw [toInt?_of_splitSign hs hl]
    rfl
  · have hs : splitSign (strip (ofInt (.negSucc m))) = (true, Nat.toDigits 10 (m + 1)) := by
      unfold ofInt
      rw [strip_eq_self (by simpa using ⟨by decide, hblank (m + 1)⟩)]
      rfl
    rw [toInt?_of_splitSign hs hl]
    rfl

/-! ### Reading without a limit -/

def ofPlain : List Char → Int
  | '-' :: r => -(Nat.ofDigitChars 10 r 0 : Int)
  | s => Nat.ofDigitChars 10 s 0

lemma ofPlain_of_isPlain (h : IsPlain s) : ofPlain s = Nat.ofDigitChars 10 s 0 := by
  unfold ofPlain
  split
  · exact absurd (h '-' (by simp)) (by decide)
  · rfl

/-- **The text of an integer tells the integer**, however long it is. -/
theorem ofPlain_ofInt (n : Int) : ofPlain (ofInt n) = n := by
  rcases n with m | m
  · change ofPlain (Nat.toDigits 10 m) = _
    rw [ofPlain_of_isPlain (isPlain_toDigits m), Nat.ofDigitChars_ten_toDigits]
    rfl
  · change -(Nat.ofDigitChars 10 (Nat.toDigits 10 (m + 1)) 0 : Int) = _
    rw [Nat.ofDigitChars_ten_toDigits]
    rfl

end Horn.Decimal

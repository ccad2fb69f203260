import Horn.Proofs.Numeral
import Horn.Proofs.Yaml.Entries

/-!
Positive integers as plain scalars. Main statement: the decimal text of one that fits stands for it.
-/

namespace Horn.Yaml

open Decimal

structure IsPositive (s : List Char) : Prop where
  digits : IsPlain s
  head : ∃ c r, s = c :: r ∧ c ≠ '0'

lemma isPositive_toDigits {n : Nat} (h : 0 < n) : IsPositive (Nat.toDigits 10 n) := by
  refine ⟨isPlain_toDigits n, ?_⟩
  induction n using Nat.strongRecOn with
  | ind n ih =>
    rw [Nat.toDigits_eq_if (by decide)]
    split
    · rename_i hlt
      refine ⟨_, _, rfl, ?_⟩
      have hall : ∀ m < 10, 0 < m → Nat.digitChar m ≠ '0' := by decide
      exact hall n hlt h
    · obtain ⟨c, r, hs, hc⟩ := ih (n / 10) (by omega) (by omega)
      exact ⟨c, r ++ [Nat.digitChar (n % 10)], by rw [hs]; rfl, hc⟩

lemma isPositive_ofInt {n : Int} (h : 0 < n) : IsPositive (ofInt n) := by
  obtain ⟨m, rfl⟩ := Int.eq_ofNat_of_zero_le (Int.le_of_lt h)
  exact isPositive_toDigits (by omega)

variable {s : List Char}

lemma ne_of_isDigit {c d : Char} (h : c.isDigit = true) (hd : d.isDigit = false) : c ≠ d := by
  rintro rfl
  rw [h] at hd
  cases hd

/-- A number may stand as a plain scalar on one line. -/
lemma IsPositive.isPlainLine (h : IsPositive s) : isPlainLine s = true := by
  have hgo : ∀ s : List Char, IsPlain s → goesOn s = true := by
    intro s hs
    induction s with
    | nil => rfl
    | cons c s ih =>
      have hc := hs c (List.mem_cons_self ..)
      have hsp : isSpace c = false := by
        simp [isSpace, isBreak, ne_of_isDigit hc]
      rw [goesOn, if_neg (ne_of_isDigit hc rfl), if_neg (ne_of_isDigit hc rfl), hsp,
        ih fun d hd => hs d (List.mem_cons_of_mem _ hd)]
      rfl
  refine Lexer.isPlainLine_of_isAlphanum ?_ (hgo _ h.digits)
  obtain ⟨c, r, rfl, -⟩ := h.head
  simp [Char.isAlphanum, h.digits c (List.mem_cons_self ..)]

/-- A text that begins with a digit is none of the words that do not. -/
lemma not_contains_of_isDigit {c : Char} {r : List Char} (hc : c.isDigit = true) {ts : List String}
    (hts : ∀ t ∈ ts, (t.toList.head?.any Char.isDigit) = false) :
    ts.contains (String.ofList (c :: r)) = false := by
  by_contra hmem
  rw [Bool.not_eq_false, List.contains_iff_mem] at hmem
  have := hts _ hmem
  rw [String.toList_ofList] at this
  simp [hc] at this

section Form

variable {c : Char} {r : List Char}

lemma unsigned_of_isDigit (hc : c.isDigit = true) : Form.unsigned (c :: r) = c :: r := by
  unfold Form.unsigned
  split
  · rename_i heq; exact absurd (List.cons.inj heq).1 (ne_of_isDigit hc rfl)
  · rename_i heq; exact absurd (List.cons.inj heq).1 (ne_of_isDigit hc rfl)
  · rfl

/-- Digits after a digit leave nothing, so that there is neither a point nor a colon. -/
lemma not_isFloat_of_isDigit (hc : c.isDigit = true) (hrest : r.dropWhile Form.isDigitOrBar = []) :
    Form.isFloat (c :: r) = false := by
  have hpointed : Form.isPointed (c :: r) = false := by
    simp [Form.isPointed, hrest, Form.endsSixtieths, Form.beginsSixtieth]
  have hfraction : Form.isFraction (c :: r) = false := by
    unfold Form.isFraction
    split
    · rename_i heq; exact absurd (List.cons.inj heq).1 (ne_of_isDigit hc rfl)
    · rfl
  unfold Form.isFloat Form.isInfinity
  rw [unsigned_of_isDigit hc, hpointed, hfraction, not_contains_of_isDigit hc (by decide),
    not_contains_of_isDigit hc (by decide)]
  rfl

lemma isUnsignedInt_of_isDigit (hc : c.isDigit = true) (hzero : c ≠ '0')
    (hrest : r.dropWhile Form.isDigitOrBar = []) : Form.isUnsignedInt (c :: r) = true := by
  have hafter : Form.afterPositive (c :: r) = some [] := by
    simp [Form.afterPositive, hc, hzero, hrest]
  unfold Form.isUnsignedInt
  split
  · rfl
  · rename_i heq; exact absurd (List.cons.inj heq).1 hzero
  · rename_i heq; exact absurd (List.cons.inj heq).1 hzero
  · rename_i heq; exact absurd (List.cons.inj heq).1 hzero
  · rw [hafter]

end Form

/-- A number has the tag of integers. -/
lemma IsPositive.tag (h : IsPositive s) : implicitTag (.ofChars s) = coreTag "int" := by
  obtain ⟨c, r, rfl, hzero⟩ := h.head
  have hc := h.digits c (List.mem_cons_self ..)
  have hbreak : withoutFinalBreak (c :: r) = c :: r := by
    unfold withoutFinalBreak
    rw [if_neg]
    intro hlast
    rw [beq_iff_eq] at hlast
    cases h.digits _ (List.mem_of_getLast? hlast)
  have hrest : r.dropWhile Form.isDigitOrBar = [] := by
    rw [List.dropWhile_eq_nil_iff]
    intro d hd
    rw [Form.isDigitOrBar, h.digits d (List.mem_cons_of_mem _ hd), Bool.true_or]
  unfold implicitTag tagOfForm
  rw [if_neg (by simp [Text.Points.ofChars]), Text.Points.chars_ofChars, hbreak]
  dsimp only
  rw [if_neg (by rw [Form.isBool, not_contains_of_isDigit hc (by decide)]; exact Bool.false_ne_true),
    if_neg (by rw [not_isFloat_of_isDigit hc hrest]; exact Bool.false_ne_true), unsigned_of_isDigit hc,
    if_pos (isUnsignedInt_of_isDigit hc hzero hrest)]

/-- The digits of a number are read back. -/
lemma IsPositive.ofInt_eq (h : IsPositive s) {n : Int} (hn : toInt? s = some n) :
    ScalarValue.ofInt s = .ok (.int n) := by
  obtain ⟨c, r, rfl, hzero⟩ := h.head
  have hbars : ScalarValue.unbarred (c :: r) = c :: r := by
    unfold ScalarValue.unbarred
    rw [List.filter_eq_self]
    intro d hd
    simpa using ne_of_isDigit (h.digits d hd) (d := '_') rfl
  have hcolon : (c :: r).contains ':' = false := by
    rw [Bool.eq_false_iff]
    intro hmem
    cases h.digits _ (List.contains_iff_mem.mp hmem)
  have hunsigned : ScalarValue.ofUnsignedInt (c :: r) = .ok n := by
    unfold ScalarValue.ofUnsignedInt
    split
    · rename_i heq; exact absurd (List.cons.inj heq).1 hzero
    · rename_i heq; exact absurd (List.cons.inj heq).1 hzero
    · rename_i heq; exact absurd (List.cons.inj heq).1 hzero
    · rw [if_neg (by rw [hcolon]; exact Bool.false_ne_true), ScalarValue.ofDecimal, hn]
      rfl
  unfold ScalarValue.ofInt
  rw [hbars, splitSign_of_isPlain h.digits]
  dsimp only
  rw [if_neg (by simp), hunsigned]
  rfl

/-- **A positive integer that fits is what its text stands for.** -/
theorem plainValue_ofInt {n : Int} (id : Nat) (hpos : 0 < n) (hfits : fits n = true) :
    plainValue id (ofInt n) = .ok (.int n) := by
  unfold plainValue
  rw [(isPositive_ofInt hpos).tag]
  change ScalarValue.ofInt (Text.Points.ofChars (ofInt n)).chars = _
  rw [Text.Points.chars_ofChars]
  exact (isPositive_ofInt hpos).ofInt_eq (toInt?_ofInt hfits)

end Horn.Yaml

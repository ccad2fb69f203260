import Mathlib.Data.List.Forall2
import Mathlib.Data.List.Induction
import Mathlib.Data.Nat.Digits.Defs
import Horn.Proofs.Stability

/-!
Literals. The grammar of integers says what their texts are made of, without reading them: blanks, an
optional sign, groups of digits with underscores between them, and blanks. Main statement: an integer
denotes itself, and a leaf that is not declared denotes an integer exactly if its name is the text of it
by the grammar.
-/

namespace Horn

namespace Decimal

open Horn.Text

/-! ### Digits -/

/-- The character is the decimal digit with the given value in one of the scripts. -/
def IsDigit (c : Char) (d : Nat) : Prop := d < 10 ∧ ∃ z ∈ decimalZeros, c.toNat = z + d

/-- The digits of the scripts lie apart. -/
lemma decimalZeros_apart : ∀ z ∈ decimalZeros, ∀ z' ∈ decimalZeros, z < z' → z + 10 ≤ z' := by
  decide +kernel

lemma digitValue?_eq_some_iff {c : Char} {d : Nat} : digitValue? c = some d ↔ IsDigit c d := by
  unfold digitValue? IsDigit
  rw [Option.map_eq_some_iff]
  constructor
  · rintro ⟨z, hz, rfl⟩
    have hmem := List.mem_of_find?_eq_some hz
    have hrange := List.find?_some hz
    rw [decide_eq_true_eq] at hrange
    exact ⟨by omega, z, hmem, by omega⟩
  · rintro ⟨hd, z, hz, hc⟩
    rcases hf : decimalZeros.find? fun z => decide (z ≤ c.toNat ∧ c.toNat < z + 10) with _ | z'
    · have hnone := List.find?_eq_none.mp hf z hz
      rw [decide_eq_true_eq] at hnone
      omega
    · have hrange := List.find?_some hf
      rw [decide_eq_true_eq] at hrange
      have hz' := List.mem_of_find?_eq_some hf
      have hle : z = z' := by
        by_contra hne
        rcases Nat.lt_or_gt_of_ne hne with hlt | hlt
        · have := decimalZeros_apart z hz z' hz' hlt
          omega
        · have := decimalZeros_apart z' hz' z hz hlt
          omega
      exact ⟨z', rfl, by omega⟩

/-- No digit is a blank, a sign or an underscore. -/
lemma decimalZeros_clear : ∀ z ∈ decimalZeros, ∀ d < 10, isBlank (Char.ofNat (z + d)) = false ∧
    Char.ofNat (z + d) ∉ ['-', '+', '_'] := by
  decide +kernel

lemma IsDigit.clear {c : Char} {d : Nat} (h : IsDigit c d) :
    isBlank c = false ∧ c ∉ ['-', '+', '_'] := by
  obtain ⟨hd, z, hz, hc⟩ := h
  have hclear := decimalZeros_clear z hz d hd
  rwa [← hc, Char.ofNat_toNat] at hclear

/-! ### Groups of digits -/

/-- **The values of the digits of a text**, of which two that follow each other may have an underscore
between them. -/
inductive HasDigits : List Char → List Nat → Prop where
  | single {c : Char} {d : Nat} (hc : IsDigit c d) : HasDigits [c] [d]
  | digit {c : Char} {d : Nat} {s : List Char} {ds : List Nat} (hc : IsDigit c d)
    (h : HasDigits s ds) : HasDigits (c :: s) (d :: ds)
  | underscore {c : Char} {d : Nat} {s : List Char} {ds : List Nat} (hc : IsDigit c d)
    (h : HasDigits s ds) : HasDigits (c :: '_' :: s) (d :: ds)

variable {s : List Char} {ds : List Nat}

lemma HasDigits.exists_digit (h : HasDigits s ds) : ∃ c r d, s = c :: r ∧ IsDigit c d := by
  cases h with
  | single hc => exact ⟨_, _, _, rfl, hc⟩
  | digit hc _ => exact ⟨_, _, _, rfl, hc⟩
  | underscore hc _ => exact ⟨_, _, _, rfl, hc⟩

lemma HasDigits.ne_nil (h : HasDigits s ds) : s ≠ [] := by
  obtain ⟨c, r, d, rfl, -⟩ := h.exists_digit
  simp

lemma HasDigits.not_isBlank (h : HasDigits s ds) : ∀ c ∈ s, isBlank c = false := by
  induction h with
  | single hc => simpa using hc.clear.1
  | digit hc _ ih => simpa using ⟨hc.clear.1, ih⟩
  | underscore hc _ ih => simpa using ⟨hc.clear.1, by decide, ih⟩

lemma HasDigits.digits? (h : HasDigits s ds) : digits? s = some ds := by
  induction h with
  | single hc => rw [Decimal.digits?, digitValue?_eq_some_iff.mpr hc]; rfl
  | underscore hc _ ih => rw [Decimal.digits?, digitValue?_eq_some_iff.mpr hc, ih]; rfl
  | @digit c d s ds hc h ih =>
    obtain ⟨c', r, d', rfl, hc'⟩ := h.exists_digit
    have hne : c' ≠ '_' := by
      rintro rfl
      exact hc'.clear.2 (by simp)
    rw [Decimal.digits?, digitValue?_eq_some_iff.mpr hc, ih]
    · rfl
    · simp
    · intro r' heq
      exact hne (List.cons.inj heq).1

lemma exists_digit_of_bind {c : Char} {r : List Char}
    (h : (do return (← digitValue? c) :: (← digits? r)) = some ds) :
    ∃ d es, IsDigit c d ∧ digits? r = some es ∧ d :: es = ds := by
  simpa [Option.bind_eq_some_iff, digitValue?_eq_some_iff] using h

/-- **Digits are read just as they stand in the text.** -/
lemma digits?_eq_some_iff : digits? s = some ds ↔ HasDigits s ds := by
  refine ⟨fun h => ?_, HasDigits.digits?⟩
  fun_induction Decimal.digits? s generalizing ds with
  | case1 => cases h
  | case2 c =>
    obtain ⟨d, hd, rfl⟩ := Option.map_eq_some_iff.mp h
    exact .single (digitValue?_eq_some_iff.mp hd)
  | case3 c r ih =>
    obtain ⟨d, es, hc, hes, rfl⟩ := exists_digit_of_bind h
    exact .underscore hc (ih hes)
  | case4 c r hr hu ih =>
    obtain ⟨d, es, hc, hes, rfl⟩ := exists_digit_of_bind h
    exact .digit hc (ih hes)

def IsGroup (g : List Char) (ds : List Nat) : Prop := g ≠ [] ∧ List.Forall₂ IsDigit g ds

/-- The text is made of groups of digits with single underscores between them; the values are those of
all digits. -/
def IsGrouped (s : List Char) (ds : List Nat) : Prop :=
  ∃ gs dss, gs ≠ [] ∧ List.Forall₂ IsGroup gs dss ∧ s = ['_'].intercalate gs ∧ ds = dss.flatten

lemma IsGroup.hasDigits {g : List Char} (h : IsGroup g ds) : HasDigits g ds := by
  obtain ⟨hne, h⟩ := h
  induction h with
  | nil => exact absurd rfl hne
  | cons hc hg ih =>
    cases hg with
    | nil => exact .single hc
    | cons => exact .digit hc (ih (by simp))

lemma IsGroup.hasDigits_append {g : List Char} {es : List Nat} (h : IsGroup g ds)
    (hs : HasDigits s es) : HasDigits (g ++ '_' :: s) (ds ++ es) := by
  obtain ⟨hne, h⟩ := h
  induction h with
  | nil => exact absurd rfl hne
  | cons hc hg ih =>
    cases hg with
    | nil => exact .underscore hc hs
    | cons => exact .digit hc (ih (by simp))

lemma IsGrouped.hasDigits (h : IsGrouped s ds) : HasDigits s ds := by
  obtain ⟨gs, dss, hne, h, rfl, rfl⟩ := h
  induction h with
  | nil => exact absurd rfl hne
  | cons hg hgs ih =>
    cases hgs with
    | nil => simpa using hg.hasDigits
    | cons =>
      rw [List.intercalate_cons_cons, List.append_assoc]
      exact hg.hasDigits_append (ih (by simp))

/-- **The groups of digits** are the parts between the underscores. -/
lemma hasDigits_iff : HasDigits s ds ↔ IsGrouped s ds := by
  refine ⟨fun h => ?_, IsGrouped.hasDigits⟩
  induction h with
  | @single c d hc => exact ⟨[[c]], [[d]], by simp, .cons ⟨by simp, .cons hc .nil⟩ .nil, by simp, rfl⟩
  | @digit c d s ds hc _ ih =>
    -- the digit goes to the group that comes first
    obtain ⟨gs, dss, hne, hgs, rfl, rfl⟩ := ih
    cases hgs with
    | nil => exact absurd rfl hne
    | @cons g es gs dss hg hgs =>
      refine ⟨(c :: g) :: gs, (d :: es) :: dss, by simp, .cons ⟨by simp, .cons hc hg.2⟩ hgs, ?_, rfl⟩
      rcases gs with _ | ⟨g', gs⟩
      · simp
      · rw [List.intercalate_cons_cons, List.intercalate_cons_cons]
        rfl
  | @underscore c d s ds hc _ ih =>
    -- the digit is a group of its own
    obtain ⟨gs, dss, hne, hgs, rfl, rfl⟩ := ih
    refine ⟨[c] :: gs, [d] :: dss, by simp, .cons ⟨by simp, .cons hc .nil⟩ hgs, ?_, rfl⟩
    obtain ⟨g, gs, rfl⟩ := List.exists_cons_of_ne_nil hne
    rw [List.intercalate_cons_cons]
    rfl

/-! ### Integers -/

inductive IsSign : List Char → Int → Prop where
  | none : IsSign [] 1
  | plus : IsSign ['+'] 1
  | minus : IsSign ['-'] (-1)

/-- **The text of an integer**: between blanks, one optional sign and groups of digits, at most
`maxDigits` in all, with single underscores between them; and the integer is that with these digits, the
first one being the most significant. -/
inductive Writes : List Char → Int → Prop where
  | mk {before sign body after : List Char} {k : Int} {ds : List Nat}
    (hbefore : ∀ c ∈ before, isBlank c = true) (hsign : IsSign sign k) (hbody : IsGrouped body ds)
    (hlen : ds.length ≤ maxDigits) (hafter : ∀ c ∈ after, isBlank c = true) :
    Writes (before ++ (sign ++ body) ++ after) (k * (Nat.ofDigits 10 ds.reverse : Nat))

lemma ofDigits_eq (ds : List Nat) : ofDigits ds = Nat.ofDigits 10 ds.reverse := by
  unfold ofDigits
  induction ds using List.reverseRecOn with
  | nil => rfl
  | append_singleton ds d ih =>
    rw [List.foldl_append, List.foldl_cons, List.foldl_nil, ih, List.reverse_concat, Nat.ofDigits_cons]
    omega

/-- What is stripped from a text are blanks. -/
lemma exists_strip (s : List Char) : ∃ before after, s = before ++ strip s ++ after ∧
    (∀ c ∈ before, isBlank c = true) ∧ ∀ c ∈ after, isBlank c = true := by
  refine ⟨s.takeWhile isBlank, ((s.dropWhile isBlank).reverse.takeWhile isBlank).reverse, ?_,
    fun c hc => List.mem_takeWhile_imp hc, fun c hc => ?_⟩
  · unfold strip
    rw [List.append_assoc, ← List.reverse_append, List.takeWhile_append_dropWhile,
      List.reverse_reverse, List.takeWhile_append_dropWhile]
  · exact List.mem_takeWhile_imp (List.mem_reverse.mp hc)

/-- Blanks around a text without blanks are stripped. -/
lemma strip_append {before core after : List Char} (hbefore : ∀ c ∈ before, isBlank c = true)
    (hcore : ∀ c ∈ core, isBlank c = false) (hne : core ≠ [])
    (hafter : ∀ c ∈ after, isBlank c = true) : strip (before ++ core ++ after) = core := by
  obtain ⟨c, core, rfl⟩ := List.exists_cons_of_ne_nil hne
  have hc : ¬ isBlank c = true := by simp [hcore c]
  have hstrip := strip_eq_self hcore
  unfold strip at hstrip ⊢
  rw [List.append_assoc, List.dropWhile_append_of_pos hbefore, List.cons_append,
    List.dropWhile_cons_of_neg hc, ← List.cons_append, List.reverse_append,
    List.dropWhile_append_of_pos (by simpa using hafter)]
  rwa [List.dropWhile_cons_of_neg hc] at hstrip

/-- A text is a sign and what is left of it when the sign is split off. -/
lemma exists_sign (s : List Char) : ∃ sign neg body, s = sign ++ body ∧ splitSign s = (neg, body) ∧
    IsSign sign (if neg then -1 else 1) := by
  unfold splitSign
  split
  · exact ⟨['-'], true, _, rfl, rfl, .minus⟩
  · exact ⟨['+'], false, _, rfl, rfl, .plus⟩
  · exact ⟨[], false, _, rfl, rfl, .none⟩

lemma IsSign.not_isBlank {sign body : List Char} {k : Int} (hs : IsSign sign k)
    (hb : HasDigits body ds) : ∀ c ∈ sign ++ body, isBlank c = false := by
  intro c hc
  rcases List.mem_append.mp hc with hc | hc
  · cases hs <;> simp at hc <;> subst hc <;> decide
  · exact hb.not_isBlank c hc

/-- The sign before digits is split off. -/
lemma IsSign.splitSign {sign body : List Char} {k : Int} (hs : IsSign sign k)
    (hb : HasDigits body ds) : ∃ neg, splitSign (sign ++ body) = (neg, body) ∧
      k = if neg then -1 else 1 := by
  cases hs with
  | plus => exact ⟨false, rfl, rfl⟩
  | minus => exact ⟨true, rfl, rfl⟩
  | none =>
    obtain ⟨c, r, d, rfl, hc⟩ := hb.exists_digit
    have hclear := hc.clear.2
    refine ⟨false, ?_, rfl⟩
    unfold Decimal.splitSign
    split
    · simp_all
    · simp_all
    · rfl

/-- What the integer of a text comes from: the sign that is split off, and the digits after it. -/
lemma toInt?_of_splitSign_eq {neg : Bool} {body : List Char} {n : Int}
    (h : splitSign (strip s) = (neg, body)) : toInt? s = some n ↔
      ∃ ds, HasDigits body ds ∧ ds.length ≤ maxDigits ∧
        n = (if neg then -1 else 1) * (Nat.ofDigits 10 ds.reverse : Nat) := by
  unfold toInt?
  rw [h]
  dsimp only
  rw [Option.bind_eq_bind, Option.bind_eq_some_iff]
  refine exists_congr fun ds => and_congr digits?_eq_some_iff ?_
  rw [← ofDigits_eq]
  by_cases hlen : ds.length ≤ maxDigits
  · cases neg <;> simp [hlen, eq_comm]
  · simp [hlen]

/-- **Texts are read by the grammar of integers and by no other.** -/
theorem toInt?_eq_some_iff {n : Int} : toInt? s = some n ↔ Writes s n := by
  constructor
  · intro h
    obtain ⟨before, after, hs, hbefore, hafter⟩ := exists_strip s
    obtain ⟨sign, neg, body, hstrip, hsplit, hsign⟩ := exists_sign (strip s)
    obtain ⟨ds, hds, hlen, rfl⟩ := (toInt?_of_splitSign_eq hsplit).mp h
    rw [hs, hstrip]
    exact .mk hbefore hsign (hasDigits_iff.mp hds) hlen hafter
  · rintro ⟨hbefore, hsign, hbody, hlen, hafter⟩
    have hds := hasDigits_iff.mpr hbody
    obtain ⟨neg, hsplit, rfl⟩ := hsign.splitSign hds
    rw [← strip_append hbefore (hsign.not_isBlank hds) (by simp [hds.ne_nil]) hafter] at hsplit
    exact (toInt?_of_splitSign_eq hsplit).mpr ⟨_, hds, hlen, rfl⟩

end Decimal

/-! ### Leaves -/

namespace Expr

/-- **Integers are written and read in one grammar.** Whatever symbols are declared, the literal of an
integer of at most `maxDigits` digits denotes this integer, if its text is not declared; and a leaf that
is neither declared nor a truth value denotes an integer exactly if its name is the text of this integer
by the grammar. All other leaves are refused by name. -/
theorem toTerm_numeral (Γ : Symbols) :
    (∀ n : Int, (Nat.toDigits 10 n.natAbs).length ≤ Decimal.maxDigits →
      Γ.find? (Decimal.text n) = none →
      ∃ e, ofValue (.int n) = .ok e ∧ e.toTerm Γ = .ok (.int n)) ∧
    (∀ name s, Γ.find? name = none → name ≠ "true" → name ≠ "false" →
      (∀ t, (symbol name s).toTerm Γ = .ok t ↔ ∃ n, Decimal.Writes name.toList n ∧ t = .int n) ∧
      ∀ x, (symbol name s).toTerm Γ = .error x ↔
        (¬ ∃ n, Decimal.Writes name.toList n) ∧ x = .undeclared name) ∧
    ∀ name, (TermError.undeclared name).message? = some ("undeclared symbol '" ++ name ++ "'") := by
  refine ⟨?integer, ?leaf, fun _ => rfl⟩
  case integer =>
    intro n hlen hn
    have hfits := Decimal.fits_iff.mpr hlen
    have hvalue : ofValue (.int n) = .ok (ofInt n) := by rw [ofValue, if_pos hfits]
    exact ⟨ofInt n, hvalue, (toTerm_leaf .int hn).trans (literalTerm_ofInt hfits)⟩
  case leaf =>
    intro name s hn ht hf
    simp only [← Decimal.toInt?_eq_some_iff]
    rw [toTerm_leaf s hn, literalTerm, if_neg ht, if_neg hf]
    rcases Decimal.toInt? name.toList with _ | k
    · simp [eq_comm]
    · simp [eq_comm]

/-- Blanks, a sign, an underscore and digits of two scripts, beside a text with two underscores. -/
theorem toTerm_numeral_mixed :
    let Γ := Symbols.empty.declareAll [("x", .int)]
    (∃ e, ofValue (.int (-12)) = .ok e ∧ e.toTerm Γ = .ok (.int (-12))) ∧
      (symbol "\u00a0-1_٢\n" .absent).toTerm Γ = .ok (.int (-12)) ∧
      (symbol "1__2" .absent).toTerm Γ = .error (.undeclared "1__2") := by
  have hone : Decimal.IsDigit '1' 1 := ⟨by decide, 0x30, by decide, rfl⟩
  have htwo : Decimal.IsDigit '٢' 2 := ⟨by decide, 0x660, by decide, rfl⟩
  have hgroups : Decimal.IsGrouped ['1', '_', '٢'] [1, 2] :=
    ⟨[['1'], ['٢']], [[1], [2]], by decide, .cons ⟨by decide, .cons hone .nil⟩
      (.cons ⟨by decide, .cons htwo .nil⟩ .nil), rfl, rfl⟩
  have hbefore : ∀ c ∈ ['\u00a0'], Text.isBlank c = true := List.forall_mem_singleton.mpr rfl
  have hafter : ∀ c ∈ ['\n'], Text.isBlank c = true := List.forall_mem_singleton.mpr rfl
  have hmixed : Decimal.Writes "\u00a0-1_٢\n".toList (-12) :=
    .mk hbefore .minus hgroups (by decide) hafter
  have hdouble : ¬ ∃ n, Decimal.Writes "1__2".toList n := by
    rintro ⟨n, hn⟩
    have hnone : Decimal.toInt? "1__2".toList = none := by decide
    rw [Decimal.toInt?_eq_some_iff.mpr hn] at hnone
    cases hnone
  refine ⟨(toTerm_numeral _).1 _ (by decide) (by decide), ?_, ?_⟩
  · exact (((toTerm_numeral _).2.1 _ _ (by decide) (by decide) (by decide)).1 _).mpr
      ⟨-12, hmixed, rfl⟩
  · exact (((toTerm_numeral _).2.1 _ _ (by decide) (by decide) (by decide)).2 _).mpr ⟨hdouble, rfl⟩

end Expr

end Horn

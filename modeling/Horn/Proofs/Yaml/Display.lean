import Mathlib.Tactic.DefEqTransformations
import Horn.Proofs.Yaml.Number
import Horn.Value.Text
import Horn.Yaml.Content

/-!
Values that are written on one line. Main statement: so are all but bytes, lists and dictionaries, and any
text.
-/

namespace Horn.Yaml

/-- The character may stand in a file and is read as it is. -/
def IsRead (c : Char) : Prop := isAllowed c = true ∧ c ≠ '\r'

/-- The text may stand as a plain scalar on one line of a file, or is empty. -/
structure Inline (m : List Char) : Prop where
  plain : isPlainLine m = true ∨ m = []
  allowed : ∀ c ∈ m, IsRead c

lemma inline_of_isAlphanum {s : List Char} (h : (s.head?.any Char.isAlphanum && goesOn s &&
    s.all fun c => isAllowed c && c != '\r') = true) : Inline s := by
  rw [Bool.and_eq_true, Bool.and_eq_true, List.all_eq_true] at h
  exact ⟨.inl (Lexer.isPlainLine_of_isAlphanum h.1.1 h.1.2), fun c hc => by simpa [IsRead] using h.2 c hc⟩

/-! ### Numbers -/

def isSolid (c : Char) : Bool := c.isAlphanum || c == '.' || c == '+' || c == '-'

variable {c : Char} {s t : List Char}

lemma isRead_of_isSolid (h : isSolid c = true) : IsRead c := by
  change ((((c.isUpper || c.isLower) || c.isDigit) || c == '.') || c == '+' || c == '-') = true at h
  simp only [Bool.or_eq_true, beq_iff_eq] at h
  have hrange : 0x20 ≤ c.toNat ∧ c.toNat ≤ 0x7e := by
    rcases h with ((((h | h) | h) | rfl) | rfl) | rfl
    · have hbounds : 'A'.val ≤ c.val ∧ c.val ≤ 'Z'.val := of_decide_eq_true h
      exact ⟨le_trans (by decide) (show 65 ≤ c.toNat from hbounds.1),
        le_trans (show c.toNat ≤ 90 from hbounds.2) (by decide)⟩
    · have hbounds : (decide ('a'.val ≤ c.val) && decide (c.val ≤ 'z'.val)) = true := h
      rw [Bool.and_eq_true, decide_eq_true_eq, decide_eq_true_eq] at hbounds
      exact ⟨le_trans (by decide) (show 97 ≤ c.toNat from hbounds.1),
        le_trans (show c.toNat ≤ 122 from hbounds.2) (by decide)⟩
    · have hbounds : (decide ('0'.val ≤ c.val) && decide (c.val ≤ '9'.val)) = true := h
      rw [Bool.and_eq_true, decide_eq_true_eq, decide_eq_true_eq] at hbounds
      exact ⟨le_trans (by decide) (show 48 ≤ c.toNat from hbounds.1),
        le_trans (show c.toNat ≤ 57 from hbounds.2) (by decide)⟩
    all_goals decide
  refine ⟨?_, ?_⟩
  · simp only [isAllowed, Bool.or_eq_true, Bool.and_eq_true, decide_eq_true_eq, beq_iff_eq]
    omega
  · rintro rfl
    exact absurd hrange.1 (by decide)

lemma not_isSpace_of_isSolid (h : isSolid c = true) : isSpace c = false ∧ c ≠ ' ' ∧ c ≠ ':' := by
  have hne : ∀ d : Char, isSolid d = false → c ≠ d := by
    rintro d hd rfl
    rw [h] at hd
    cases hd
  refine ⟨?_, hne _ rfl, hne _ rfl⟩
  simp only [isSpace, isBreak, Bool.or_eq_false_iff, beq_eq_false_iff_ne]
  exact ⟨⟨hne _ rfl, hne _ rfl⟩, ⟨⟨hne _ rfl, hne _ rfl⟩, hne _ rfl⟩, hne _ rfl⟩

lemma goesOn_append (hs : goesOn s = true) (ht : goesOn t = true) : goesOn (s ++ t) = true := by
  induction s with
  | nil => exact ht
  | cons c s ih =>
    rw [goesOn, Bool.and_eq_true] at hs
    rw [List.cons_append, goesOn, ih hs.2, Bool.and_true]
    have hc := hs.1
    rcases s with _ | ⟨d, s⟩
    · split at hc
      · cases hc
      · split at hc
        · cases hc
        · rename_i hb hcolon
          rw [if_neg hb, if_neg hcolon, hc]
    · exact hc

def IsSolid (s : List Char) : Prop := ∀ c ∈ s, isSolid c = true

lemma isSolid_nil : IsSolid [] := fun c hc => by cases hc

lemma IsSolid.append (hs : IsSolid s) (ht : IsSolid t) : IsSolid (s ++ t) := fun c hc =>
  (List.mem_append.mp hc).elim (hs c) (ht c)

lemma IsSolid.cons (hc : isSolid c = true) (hs : IsSolid s) : IsSolid (c :: s) :=
  List.forall_mem_cons.mpr ⟨hc, hs⟩

lemma isSolid_of_isPlain (h : Decimal.IsPlain s) : IsSolid s := fun c hc => by
  simp [isSolid, Char.isAlphanum, h c hc]

lemma IsSolid.goesOn (h : IsSolid s) : goesOn s = true := by
  induction s with
  | nil => rfl
  | cons c s ih =>
    obtain ⟨hc, hs⟩ := List.forall_mem_cons.mp h
    obtain ⟨hsp, hblank, hcolon⟩ := not_isSpace_of_isSolid hc
    rw [Yaml.goesOn, if_neg hblank, if_neg hcolon, hsp, ih hs]
    rfl

lemma IsSolid.isRead (h : IsSolid s) : ∀ c ∈ s, IsRead c := fun c hc => isRead_of_isSolid (h c hc)

/-- The text begins with a letter or a digit, and nothing stands in it but these, points and signs. -/
structure IsWord (s : List Char) : Prop where
  solid : IsSolid s
  head : s.head?.any Char.isAlphanum = true

lemma IsWord.inline (h : IsWord s) : Inline s :=
  ⟨.inl (Lexer.isPlainLine_of_isAlphanum h.head h.solid.goesOn), h.solid.isRead⟩

/-- A minus sign may stand in front of a number. -/
lemma IsWord.inline_minus (h : IsWord s) : Inline ('-' :: s) := by
  have hsolid : IsSolid ('-' :: s) := .cons rfl h.solid
  have hspace : s.head?.all isSpace = false := by
    obtain ⟨c, s, rfl, hc⟩ := exists_cons_of_head h.head
    simpa using (isAlphanum_ne hc).1
  refine ⟨.inl ?_, hsolid.isRead⟩
  rw [isPlainLine, hsolid.goesOn, Bool.and_true, Lexer.beginsPlain, hspace]
  simp

lemma isWord_cons {c : Char} (hc : c.isDigit = true) (hs : IsSolid s) : IsWord (c :: s) :=
  ⟨.cons (by simp [isSolid, Char.isAlphanum, hc]) hs, by simp [Char.isAlphanum, hc]⟩

lemma IsWord.head_append (hs : IsWord s) (t : List Char) : (s ++ t).head?.any Char.isAlphanum = true := by
  obtain ⟨c, s, rfl, hc⟩ := exists_cons_of_head hs.head
  simpa using hc

lemma IsWord.append (hs : IsWord s) (ht : IsSolid t) : IsWord (s ++ t) :=
  ⟨hs.solid.append ht, hs.head_append t⟩

lemma isWord_toDigits (n : Nat) : IsWord (Nat.toDigits 10 n) := by
  have hplain := Decimal.isPlain_toDigits n
  rcases hd : Nat.toDigits 10 n with _ | ⟨c, ds⟩
  · exact absurd hd Nat.toDigits_ne_nil
  · rw [hd] at hplain
    exact isWord_cons (hplain c (List.mem_cons_self ..))
      (isSolid_of_isPlain fun d hd => hplain d (List.mem_cons_of_mem _ hd))

lemma inline_ofInt (n : Int) : Inline (Decimal.ofInt n) := by
  unfold Decimal.ofInt
  split
  · exact (isWord_toDigits _).inline
  · exact (isWord_toDigits _).inline_minus

/-! ### Floating-point numbers -/

lemma isSolid_replicate (n : Nat) : IsSolid (List.replicate n '0') := fun c hc => by
  rw [List.eq_of_mem_replicate hc]
  rfl

/-- The shortest digits of a number are those of some integer, without the zeros at its end. -/
lemma shortest_induction {p : Decimal.Digits → Prop} (h : ∀ (d : Nat) (e : Int),
    p ⟨((Nat.toDigits 10 d).reverse.dropWhile (· == '0')).reverse, (Nat.toDigits 10 d).length + e⟩)
    (r : Decimal.Rounding) : p r.shortest := by
  have hopen : Decimal.Rounding.shortest = Decimal.Rounding.shortest := rfl
  -- the definition is opened without an equation for it, whose proof would evaluate the search
  conv at hopen => rhs; delta Decimal.Rounding.shortest
  rw [hopen]
  beta_reduce
  extract_lets k grid
  clear_value grid k
  generalize ((List.range 17).findSome? fun i => grid (i + 1)).getD (0, k) = x
  obtain ⟨d, e⟩ := x
  exact h d e

/-- Nothing but digits is laid out. -/
lemma isPlain_shortest (r : Decimal.Rounding) : Decimal.IsPlain r.shortest.digits := by
  refine shortest_induction (p := fun d => Decimal.IsPlain d.digits) (fun d e c hc => ?_) r
  rw [List.mem_reverse] at hc
  exact Decimal.isPlain_toDigits d c (List.mem_reverse.mp ((List.dropWhile_suffix _).subset hc))

lemma isWord_positional {d : Decimal.Digits} (h : Decimal.IsPlain d.digits) :
    IsWord (Decimal.positional d) := by
  have hdigits := isSolid_of_isPlain h
  unfold Decimal.positional
  dsimp only
  split
  · exact isWord_cons rfl (.cons rfl ((isSolid_replicate _).append hdigits))
  · rename_i hpoint
    obtain ⟨n, hn⟩ : ∃ n, d.point.toNat = n + 1 := Nat.exists_eq_add_of_le' (by omega)
    have hpart : IsSolid (if (d.digits.drop (n + 1)).isEmpty = true then ['0'] else d.digits.drop (n + 1)) := by
      split
      · exact .cons rfl isSolid_nil
      · exact fun c hc => hdigits c (List.mem_of_mem_drop hc)
    rw [hn]
    refine IsWord.append ?_ (.cons rfl hpart)
    rcases hd : d.digits with _ | ⟨c, ds⟩
    · exact isWord_cons rfl (isSolid_replicate n)
    · rw [hd] at h
      obtain ⟨hc, hds⟩ := List.forall_mem_cons.mp h
      exact isWord_cons hc (IsSolid.append (fun c hc => isSolid_of_isPlain hds c (List.mem_of_mem_take hc))
        (isSolid_replicate _))

lemma isWord_scientific {l : Decimal.Layout} {d : Decimal.Digits} (h : Decimal.IsPlain d.digits) :
    IsWord (Decimal.scientific l d) := by
  have hexponent : ∀ e : Int, IsSolid ('e' :: (if e < 0 then '-' else '+') ::
      List.replicate (l.exponentDigits - (Nat.toDigits 10 e.natAbs).length) '0' ++ Nat.toDigits 10 e.natAbs) := by
    intro e
    refine .cons rfl (.cons ?_ ((isSolid_replicate _).append (isWord_toDigits _).solid))
    split <;> rfl
  have hdigits := isSolid_of_isPlain h
  unfold Decimal.scientific
  dsimp only
  rw [List.append_assoc]
  rcases hd : d.digits with _ | ⟨c, ds⟩
  · exact ⟨hexponent _, rfl⟩
  · rw [hd] at h hdigits
    obtain ⟨hc, hds⟩ := List.forall_mem_cons.mp h
    refine IsWord.append ?_ (hexponent _)
    rcases ds with _ | ⟨c', ds⟩
    · exact isWord_cons hc isSolid_nil
    · exact isWord_cons hc (.cons rfl (isSolid_of_isPlain hds))

lemma inline_float (x : Binary64) : Inline (Value.floatLayout.write x).toList := by
  have hword : ∀ {s : List Char}, IsWord s → Inline ((if x.isNegative then "-" else "") ++ String.ofList s).toList := by
    intro s hs
    rw [String.toList_append, String.toList_ofList]
    split
    · exact hs.inline_minus
    · exact hs.inline
  unfold Decimal.Layout.write
  split
  · exact inline_of_isAlphanum (by decide)
  · dsimp only
    split
    · exact hword (s := "inf".toList) ⟨List.all_eq_true.mp (by decide), by decide⟩
    · have hlaid : ∀ d : Decimal.Digits, Decimal.IsPlain d.digits → IsWord (if
          Value.floatLayout.least ≤ d.point ∧ d.point ≤ Value.floatLayout.greatest then
          Decimal.positional d else Decimal.scientific Value.floatLayout d) := by
        intro d hd
        split
        · exact isWord_positional hd
        · exact isWord_scientific hd
      refine hword (hlaid _ ?_)
      split
      · exact List.all_eq_true.mp (by decide)
      · exact isPlain_shortest _

/-! ### Times -/

lemma isPlain_padded (width n : Nat) : Decimal.IsPlain (padded width n).toList := by
  unfold padded
  dsimp only
  rw [String.toList_ofList]
  intro c hc
  rcases List.mem_append.mp hc with hc | hc
  · rw [List.eq_of_mem_replicate hc]
    rfl
  · exact Decimal.isPlain_toDigits n c hc

lemma isWord_padded (width n : Nat) : IsWord (padded width n).toList := by
  have hplain := isPlain_padded width n
  rcases hd : (padded width n).toList with _ | ⟨c, ds⟩
  · unfold padded at hd
    rw [String.toList_ofList] at hd
    exact absurd (List.append_eq_nil_iff.mp hd).2 Nat.toDigits_ne_nil
  · rw [hd] at hplain
    exact isWord_cons (hplain c (List.mem_cons_self ..))
      (isSolid_of_isPlain fun d hd => hplain d (List.mem_cons_of_mem _ hd))

lemma toString_self (s : String) : toString s = s := rfl

lemma isWord_day (d : Day) : IsWord d.text.toList := by
  have htext : d.text.toList = (padded 4 d.year).toList ++
      ('-' :: ((padded 2 d.month).toList ++ '-' :: (padded 2 d.day).toList)) := by
    unfold Day.text
    simp only [String.toList_append, List.append_assoc]
    rfl
  rw [htext]
  exact (isWord_padded 4 _).append
    (.cons rfl ((isWord_padded 2 _).solid.append (.cons rfl (isWord_padded 2 _).solid)))

structure Extends (s : List Char) : Prop where
  goesOn : goesOn s = true
  isRead : ∀ c ∈ s, IsRead c

lemma IsSolid.extends (h : IsSolid s) : Extends s := ⟨h.goesOn, h.isRead⟩

lemma Extends.append (hs : Extends s) (ht : Extends t) : Extends (s ++ t) :=
  ⟨goesOn_append hs.goesOn ht.goesOn, fun c hc => (List.mem_append.mp hc).elim (hs.isRead c) (ht.isRead c)⟩

/-- A blank or a colon may stand before a word. -/
lemma IsWord.extends_cons (hc : c = ' ' ∨ c = ':') (hs : IsWord s) (ht : Extends t) :
    Extends (c :: (s ++ t)) := by
  obtain ⟨hgo, hread⟩ := hs.solid.extends.append ht
  obtain ⟨d, s, rfl, hd⟩ := exists_cons_of_head hs.head
  obtain ⟨hsp, hhash, -⟩ := isAlphanum_ne hd
  rcases hc with rfl | rfl
  · refine ⟨?_, List.forall_mem_cons.mpr ⟨⟨by decide, by decide⟩, hread⟩⟩
    rw [Yaml.goesOn, hgo]
    simp [hhash]
  · refine ⟨?_, List.forall_mem_cons.mpr ⟨⟨by decide, by decide⟩, hread⟩⟩
    rw [Yaml.goesOn, hgo]
    simp [hsp]

lemma extends_nil : Extends [] := ⟨rfl, by simp⟩

lemma extends_zone (z : Option Int) : Extends ((z.map Moment.zoneText).getD "").toList := by
  rcases z with _ | z
  · exact extends_nil
  · have htext : (Moment.zoneText z).toList = (if z < 0 then '-' else '+') ::
        ((padded 2 (z.natAbs / 60)).toList ++ ':' :: ((padded 2 (z.natAbs % 60)).toList ++ [])) := by
      unfold Moment.zoneText
      simp only [String.toList_append, List.append_assoc, List.append_nil]
      split <;> rfl
    change Extends (Moment.zoneText z).toList
    rw [htext, ← List.singleton_append]
    refine (IsSolid.extends ?_).append
      ((isWord_padded 2 _).solid.extends.append ((isWord_padded 2 _).extends_cons (.inr rfl) extends_nil))
    split
    · exact .cons rfl isSolid_nil
    · exact .cons rfl isSolid_nil

lemma inline_moment (m : Moment) : Inline m.text.toList := by
  have htext : m.text.toList = m.day.text.toList ++ ' ' :: ((padded 2 m.hour).toList ++
      (':' :: ((padded 2 m.minute).toList ++ (':' :: ((padded 2 m.second).toList ++
        ((if m.micro = 0 then "" else "." ++ padded 6 m.micro).toList ++
          ((m.zone.map Moment.zoneText).getD "").toList)))))) := by
    unfold Moment.text
    simp only [String.toList_append, toString_self, List.append_assoc]
    rfl
  have hfraction : IsSolid (if m.micro = 0 then "" else "." ++ padded 6 m.micro).toList := by
    split
    · exact isSolid_nil
    · rw [String.toList_append]
      exact IsSolid.append (.cons rfl isSolid_nil) (isWord_padded 6 _).solid
  have hday := isWord_day m.day
  have htime := (isWord_padded 2 m.hour).extends_cons (c := ' ') (.inl rfl)
    ((isWord_padded 2 m.minute).extends_cons (c := ':') (.inr rfl)
      ((isWord_padded 2 m.second).extends_cons (c := ':') (.inr rfl)
        (hfraction.extends.append (extends_zone m.zone))))
  have hall := hday.solid.extends.append htime
  rw [htext]
  exact ⟨.inl (Lexer.isPlainLine_of_isAlphanum (hday.head_append _) hall.goesOn), hall.isRead⟩

/-! ### Values -/

def isMarked : Value → Bool
  | .bytes _ | .list _ | .pair _ _ | .set _ | .dict _ | .listAgain | .dictAgain => true
  | _ => false

/-- **A value that is no text is written on one line**, unless it is written with marks around it. -/
theorem inline_display {v : Value} (hmarked : isMarked v = false) (htext : ∀ s, v ≠ .text s)
    (hpoints : ∀ p, v ≠ .points p) : Inline v.display.toList := by
  rcases v
  case null => exact inline_of_isAlphanum (by decide)
  case bool b => rcases b <;> exact inline_of_isAlphanum (by decide)
  case int n =>
    change Inline (String.ofList (Decimal.ofInt n)).toList
    rw [String.toList_ofList]
    exact inline_ofInt n
  case float x => exact inline_float x
  case text s => exact absurd rfl (htext s)
  case points p => exact absurd rfl (hpoints p)
  case day d => exact (isWord_day d).inline
  case moment m => exact inline_moment m
  all_goals cases hmarked

end Horn.Yaml

import Mathlib.Data.List.TakeWhile
import Mathlib.Tactic.Lemma
import Horn.Yaml.Lexer

/-!
Plain scalars that stand on one line of a block. Main statement: a text that may stand there is scanned as
a whole, if what follows it ends a word and what comes after that ends the scalar.
-/

namespace Horn.Yaml

/-! ### Places in a text -/

namespace Cursor

lemma foldl_past_rest (s : List Char) (k : Cursor) :
    (s.foldl past k).rest = k.rest.drop s.length := by
  induction s generalizing k with
  | nil => rfl
  | cons c s ih =>
    have hpast : (k.past c).rest = k.rest.tail := by
      unfold past
      split <;> rfl
    rw [List.foldl_cons, ih, hpast, List.length_cons, ← List.drop_one, List.drop_drop, Nat.add_comm]

@[simp] lemma skip_rest (k : Cursor) (n : Nat) : (k.skip n).rest = k.rest.drop n := by
  unfold skip
  rw [foldl_past_rest, List.length_take, List.drop_eq_drop_iff]
  omega

lemma skip_zero (k : Cursor) : k.skip 0 = k := rfl

lemma skip_skip (k : Cursor) (m n : Nat) : (k.skip m).skip n = k.skip (m + n) := by
  have hrest := skip_rest k m
  unfold skip at hrest ⊢
  rw [hrest, List.take_add, List.foldl_append]

/-- What stands after a run of characters of a class stands so many characters on. -/
lemma span_eq (k : Cursor) (p : Char → Bool) :
    k.span p = (k.rest.takeWhile p, k.skip (k.rest.takeWhile p).length) := by
  have htake : k.rest.take (k.rest.takeWhile p).length = k.rest.takeWhile p :=
    List.prefix_iff_eq_take.mp (List.takeWhile_prefix p) |>.symm
  unfold span skip
  rw [htake]

lemma after_eq (k : Cursor) (p : Char → Bool) :
    k.after p = k.skip (k.rest.takeWhile p).length := by
  unfold after
  rw [span_eq]

lemma after_of_head {k : Cursor} {p : Char → Bool} (h : k.rest.head?.all (fun c => !p c) = true) :
    k.after p = k := by
  rw [after_eq]
  rcases hr : k.rest with _ | ⟨c, r⟩
  · rfl
  · rw [hr] at h
    rw [List.takeWhile_cons_of_neg (by simpa using h)]
    rfl

lemma at?_of_nil {k : Cursor} (h : k.rest = []) (d : Char) : k.at? d = false := by
  unfold at?
  rw [h]
  rfl

lemma at?_of_ne {k : Cursor} {c d : Char} {r : List Char} (h : k.rest = c :: r) (hd : c ≠ d) :
    k.at? d = false := by
  unfold at?
  rw [h]
  simpa using hd

lemma skip_cons {k : Cursor} {c : Char} {r : List Char} (h : k.rest = c :: r) (n : Nat) :
    k.skip (n + 1) = (k.past c).skip n := by
  have hpast : (k.past c).rest = r := by
    unfold past
    split <;> simp [h]
  unfold skip
  rw [h, hpast]
  rfl

def isLine (s : List Char) : Bool := s.all fun c => !isBreak c

/-- On its line a place moves on by as many characters as are skipped. -/
lemma skip_line {k : Cursor} {s r : List Char} (h : k.rest = s ++ r) (hs : isLine s = true) :
    (k.skip s.length).line = k.line ∧ (k.skip s.length).index = k.index + s.length ∧
      k.column ≤ (k.skip s.length).column := by
  induction s generalizing k with
  | nil => exact ⟨rfl, rfl, Nat.le_refl _⟩
  | cons c s ih =>
    obtain ⟨hc, hs⟩ : isBreak c = false ∧ isLine s = true := by simpa [isLine] using hs
    have hpast : (k.past c).rest = s ++ r ∧ (k.past c).line = k.line ∧
        (k.past c).index = k.index + 1 ∧ k.column ≤ (k.past c).column := by
      unfold past
      rw [hc, h]
      refine ⟨rfl, rfl, rfl, ?_⟩
      change k.column ≤ if c == byteOrderMark then k.column else k.column + 1
      split <;> omega
    obtain ⟨hrest, hline, hindex, hcolumn⟩ := hpast
    obtain ⟨hl, hi, hcol⟩ := ih hrest hs
    rw [List.length_cons, skip_cons h]
    exact ⟨hl.trans hline, by omega, by omega⟩

lemma skip_break {k : Cursor} {c : Char} {r : List Char} (h : k.rest = c :: r)
    (hc : isBreak c = true) : (k.skip 1).rest = r ∧ (k.skip 1).column = 0 := by
  have hskip : k.skip 1 = k.past c := skip_cons h 0
  rw [hskip]
  unfold past
  rw [if_pos hc, h]
  exact ⟨rfl, rfl⟩

/-- After its break a line has been passed. -/
lemma skip_to_next {k : Cursor} {s r : List Char} (h : k.rest = s ++ '\n' :: r) :
    (k.skip (s.length + 1)).rest = r ∧ (k.skip (s.length + 1)).column = 0 := by
  rw [← skip_skip]
  exact skip_break (by rw [skip_rest, h, List.drop_left]) rfl

end Cursor

/-! ### Texts of plain scalars -/

lemma exists_cons_of_head {s : List Char} {p : Char → Bool} (h : s.head?.any p = true) :
    ∃ c r, s = c :: r ∧ p c = true := by
  rcases s with _ | ⟨c, r⟩
  · cases h
  · exact ⟨c, r, rfl, by simpa using h⟩

/-- A plain scalar that stands on one line does not end within the text: a blank is followed by
something other than a comment, and a colon by something other than a blank. -/
def goesOn : List Char → Bool
  | [] => true
  | c :: r =>
    (if c = ' ' then r.head?.any (· != '#')
      else if c = ':' then !r.head?.all isSpace
      else !isSpace c) && goesOn r

def isPlainLine : List Char → Bool
  | [] => false
  | c :: r => Lexer.beginsPlain false c r && goesOn (c :: r)

lemma not_isBreak_of_not_isSpace {c : Char} (h : isSpace c = false) : isBreak c = false := by
  unfold isSpace at h
  exact (Bool.or_eq_false_iff.mp h).2

lemma goesOn_cons {c : Char} {r : List Char} (h : goesOn (c :: r) = true) :
    (c = ' ' ∧ (∃ d r', r = d :: r' ∧ d ≠ '#') ∨ isSpace c = false ∧
      (c = ':' → ∃ d r', r = d :: r' ∧ isSpace d = false)) ∧ goesOn r = true := by
  rw [goesOn, Bool.and_eq_true] at h
  obtain ⟨hc, hr⟩ := h
  refine ⟨?_, hr⟩
  split at hc
  · rename_i hb
    rcases r with _ | ⟨d, r⟩
    · cases hc
    · exact .inl ⟨hb, d, r, rfl, by simpa using hc⟩
  · split at hc
    · rename_i hcolon
      subst hcolon
      rcases r with _ | ⟨d, r⟩
      · cases hc
      · exact .inr ⟨rfl, fun _ => ⟨d, r, rfl, by simpa using hc⟩⟩
    · rename_i hcolon
      exact .inr ⟨by simpa using hc, fun h => absurd h hcolon⟩

lemma isLine_of_goesOn {s : List Char} (h : goesOn s = true) : Cursor.isLine s = true := by
  induction s with
  | nil => rfl
  | cons c s ih =>
    obtain ⟨⟨rfl, -⟩ | ⟨hc, -⟩, hs⟩ := goesOn_cons h
    · rw [Cursor.isLine, List.all_cons, ← Cursor.isLine, ih hs]
      rfl
    · rw [Cursor.isLine, List.all_cons, ← Cursor.isLine, ih hs, not_isBreak_of_not_isSpace hc]
      rfl

lemma goesOn_of_append {s t : List Char} (h : goesOn (s ++ t) = true) : goesOn t = true := by
  induction s with
  | nil => exact h
  | cons c s ih => exact ih (goesOn_cons h).2

/-- What follows the blanks within a text is no comment. -/
lemma goesOn_blanks {r : List Char} (h : goesOn (' ' :: r) = true) :
    ∃ c r', r.dropWhile (· == ' ') = c :: r' ∧ c ≠ ' ' ∧ c ≠ '#' ∧ isSpace c = false ∧
      goesOn (c :: r') = true := by
  induction r with
  | nil => cases h
  | cons d r ih =>
    obtain ⟨⟨-, d', r', heq, hd⟩ | ⟨hsp, -⟩, hr⟩ := goesOn_cons h
    · cases heq
      by_cases hb : d = ' '
      · subst hb
        exact ih hr
      · refine ⟨d, r, List.dropWhile_cons_of_neg (by simpa using hb), hb, hd, ?_, hr⟩
        obtain ⟨⟨rfl, -⟩ | ⟨hsp, -⟩, -⟩ := goesOn_cons hr
        · exact absurd rfl hb
        · exact hsp
    · cases hsp

/-- A text is one word, or a word, blanks and another text. -/
lemma words_of_goesOn {s : List Char} (h : goesOn s = true) :
    s.takeWhile (· != ' ') = s ∨ ∃ b c r, s = s.takeWhile (· != ' ') ++ (' ' :: b) ++ c :: r ∧
      (∀ d ∈ ' ' :: b, d = ' ') ∧ isSpace c = false ∧ c ≠ '#' ∧ goesOn (c :: r) = true := by
  have hsplit := List.takeWhile_append_dropWhile (p := (· != ' ')) (l := s)
  rcases hd : s.dropWhile (· != ' ') with _ | ⟨d, r⟩
  · left
    rwa [hd, List.append_nil] at hsplit
  · have hblank : d = ' ' := by
      have hhead := List.head?_dropWhile_not (· != ' ') s
      rw [hd] at hhead
      simpa using hhead
    subst hblank
    rw [hd] at hsplit
    obtain ⟨c, r', hr, -, hhash, hc, hgo⟩ := goesOn_blanks (goesOn_of_append (by rwa [← hsplit] at h))
    have hblanks := List.takeWhile_append_dropWhile (p := (· == ' ')) (l := r)
    rw [hr] at hblanks
    refine .inr ⟨r.takeWhile (· == ' '), c, r', ?_, ?_, hc, hhash, hgo⟩
    · rw [List.append_assoc, List.cons_append, hblanks, hsplit]
    · rintro d (_ | ⟨_, hd⟩)
      · rfl
      · simpa using List.mem_takeWhile_imp hd

/-! ### Scanning -/

lemma wordEnds_cons {c : Char} {r : List Char} : wordEnds false (c :: r) = true ↔
    isSpace c = true ∨ c = ':' ∧ r.head?.all isSpace = true := by
  simp [wordEnds]

/-- The first word of a text ends at its first blank, or with the text if what follows ends a word. -/
lemma word_append {s t : List Char} (h : goesOn s = true) (ht : wordEnds false t = true) :
    word false (s ++ t) = s.takeWhile (· != ' ') := by
  induction s with
  | nil =>
    rcases t with _ | ⟨c, t⟩
    · rfl
    · rw [List.nil_append, word, if_pos ht]
      rfl
  | cons c s ih =>
    obtain ⟨⟨rfl, -⟩ | ⟨hc, hcolon⟩, hs⟩ := goesOn_cons h
    · rw [List.cons_append, word, if_pos (wordEnds_cons.mpr (.inl rfl))]
      rfl
    · have hne : c ≠ ' ' := by
        rintro rfl
        cases hc
      have hgo : ¬ wordEnds false (c :: (s ++ t)) = true := by
        rw [wordEnds_cons, hc]
        rintro (hbad | ⟨hbad, hsp⟩)
        · cases hbad
        · obtain ⟨d, r, rfl, hd⟩ := hcolon hbad
          simp [hd] at hsp
      rw [List.cons_append, word, if_neg hgo, ih hs, List.takeWhile_cons_of_pos (by simpa using hne)]

/-- The gap between two words on a line is the blanks between them. -/
lemma gap_of_blanks {k : Cursor} {b r : List Char} {c : Char} (h : k.rest = b ++ c :: r)
    (hb : ∀ d ∈ b, d = ' ') (hc : isSpace c = false) : gap k = ⟨b, k.skip b.length, false⟩ := by
  have hne : (c == ' ') = false := by
    rw [beq_eq_false_iff_ne]
    rintro rfl
    cases hc
  have htake : k.rest.takeWhile (· == ' ') = b := by
    rw [h, List.takeWhile_append_of_pos (by simpa using hb), List.takeWhile_cons_of_neg (by simp [hne]),
      List.append_nil]
  have hrest : (k.skip b.length).rest = c :: r := by rw [Cursor.skip_rest, h, List.drop_left]
  unfold gap
  rw [Cursor.span_eq, htake]
  simp only [hrest]
  rw [if_neg (by rw [not_isBreak_of_not_isSpace hc]; exact Bool.false_ne_true)]

/-- The lines that follow are no more, or the next one begins with a letter or a digit. -/
def beginsLine (r : List Char) : Bool := r.head?.all Char.isAlphanum

lemma isAlphanum_ne {c : Char} (h : c.isAlphanum = true) :
    isSpace c = false ∧ c ≠ '#' ∧ c ≠ '-' ∧ c ≠ '.' ∧ c ≠ byteOrderMark := by
  have hne : ∀ d : Char, d.isAlphanum = false → c ≠ d := by
    rintro d hd rfl
    rw [h] at hd
    cases hd
  refine ⟨?_, hne _ (by decide), hne _ (by decide), hne _ (by decide), hne _ (by decide)⟩
  simp only [isSpace, isBreak, Bool.or_eq_false_iff, beq_eq_false_iff_ne]
  exact ⟨⟨hne _ (by decide), hne _ (by decide)⟩, ⟨⟨hne _ (by decide), hne _ (by decide)⟩,
    hne _ (by decide)⟩, hne _ (by decide)⟩

lemma beginsLine_cases {r : List Char} (h : beginsLine r = true) :
    r = [] ∨ ∃ c r', r = c :: r' ∧ c.isAlphanum = true := by
  rcases r with _ | ⟨c, r⟩
  · exact .inl rfl
  · exact .inr ⟨c, r, rfl, by simpa [beginsLine] using h⟩

lemma beginsLine_append {s : List Char} (h : s.head?.any Char.isAlphanum = true) (r : List Char) :
    beginsLine (s ++ r) = true := by
  obtain ⟨c, s, rfl, hc⟩ := exists_cons_of_head h
  simpa [beginsLine] using hc

section NextLine

variable {k : Cursor}

lemma not_atSeparator (h : beginsLine k.rest = true) : k.atSeparator = false := by
  unfold Cursor.atSeparator Cursor.atMark
  obtain hr | ⟨c, r, hr, hc⟩ := beginsLine_cases h
  · simp [hr]
  · obtain ⟨-, -, hdash, hdot, -⟩ := isAlphanum_ne hc
    rw [hr]
    rcases r with _ | ⟨d, _ | ⟨e, r⟩⟩
    · rfl
    · rfl
    · simp [hdash, hdot]

/-- No line between two lines is empty. -/
lemma plainBreaks_of_beginsLine (n : Nat) (h : beginsLine k.rest = true) :
    plainBreaks n k = (some [], k) := by
  rcases n with _ | n
  · rfl
  unfold plainBreaks
  obtain hr | ⟨c, r, hr, hc⟩ := beginsLine_cases h
  · have hafter : k.after (· == ' ') = k := Cursor.after_of_head (by rw [hr]; rfl)
    rw [hafter]
    simp only [hr]
  · obtain ⟨hsp, -⟩ := isAlphanum_ne hc
    have hne : c ≠ ' ' := by
      rintro rfl
      cases hsp
    have hafter : k.after (· == ' ') = k := Cursor.after_of_head (by rw [hr]; simpa using hne)
    rw [hafter]
    simp only [hr]
    rw [if_neg (by rw [not_isBreak_of_not_isSpace hsp]; exact Bool.false_ne_true)]

/-- The gap at the end of a line is a single blank. -/
lemma gap_of_break {r : List Char} (h : k.rest = '\n' :: r) (hr : beginsLine r = true) :
    gap k = ⟨[' '], k.skip 1, true⟩ := by
  obtain ⟨hrest, -⟩ := Cursor.skip_break h rfl
  rw [← hrest] at hr
  have htake : k.rest.takeWhile (· == ' ') = [] := by
    rw [h]
    rfl
  unfold gap
  rw [Cursor.span_eq, htake, List.length_nil, Cursor.skip_zero]
  simp only [h]
  rw [if_pos (show isBreak '\n' = true from rfl), not_atSeparator hr, if_neg Bool.false_ne_true,
    plainBreaks_of_beginsLine _ hr]
  rfl

end NextLine

/-! ### Scanning word by word -/

/-- A scalar ends at the gap: there is none, a comment follows it or, in a block, a line that is not
indented so far. -/
def Gap.Ends (flow : Bool) (indent : Int) (g : Gap) : Prop :=
  g.text = [] ∨ g.cursor.at? '#' = true ∨ flow = false ∧ (g.cursor.column : Int) < indent

lemma Gap.ends_iff {flow : Bool} {indent : Int} {g : Gap} : (g.text.isEmpty || g.cursor.at? '#' ||
    (!flow && decide ((g.cursor.column : Int) < indent))) = true ↔ g.Ends flow indent := by
  simp [Gap.Ends, or_assoc]

section Words

variable {flow : Bool} {indent : Int} {n : Nat} {q : Plain} {b w : List Char} {g : Gap}

lemma plainFrom_none (h : q.cursor.at? '#' = true ∨ word flow q.cursor.rest = []) :
    plainFrom flow indent (n + 1) q b = q := by
  unfold plainFrom
  split
  · rfl
  · rename_i hhash
    rw [h.resolve_left hhash]
    rfl

lemma plainFrom_last (hhash : q.cursor.at? '#' = false) (hw : word flow q.cursor.rest = w) (hne : w ≠ [])
    (hg : gap (q.cursor.skip w.length) = g) (hends : g.Ends flow indent) :
    plainFrom flow indent (n + 1) q b = ⟨q.text ++ b ++ w, g.cursor, g.broken⟩ := by
  rw [plainFrom, hhash, if_neg Bool.false_ne_true, hw]
  dsimp only
  rw [if_neg (by simpa using hne), hg, if_pos (Gap.ends_iff.mpr hends)]

lemma plainFrom_next (hhash : q.cursor.at? '#' = false) (hw : word flow q.cursor.rest = w) (hne : w ≠ [])
    (hg : gap (q.cursor.skip w.length) = g) (hgo : ¬ g.Ends flow indent) :
    plainFrom flow indent (n + 1) q b =
      plainFrom flow indent n ⟨q.text ++ b ++ w, g.cursor, g.broken⟩ g.text := by
  rw [plainFrom, hhash, if_neg Bool.false_ne_true, hw]
  dsimp only
  rw [if_neg (by simpa using hne), hg, if_neg (mt Gap.ends_iff.mp hgo)]

end Words

/-- A place before a text that goes on, past a word and the blanks after it. -/
lemma column_past_blanks {k : Cursor} {s u v t : List Char} (h : k.rest = s ++ t) (hs : goesOn s = true)
    (hsplit : s = u ++ v) : k.column ≤ (k.skip u.length).column := by
  have hline := isLine_of_goesOn hs
  rw [hsplit, Cursor.isLine, List.all_append, Bool.and_eq_true] at hline
  exact (Cursor.skip_line (r := v ++ t) (by rw [h, hsplit, List.append_assoc]) hline.1).2.2

/-- **A text that may stand on one line is scanned as a whole**, if what follows it ends a word and the
gap there ends the scalar. -/
lemma plainFrom_append {indent : Int} {n : Nat} {k : Cursor} {s t acc before : List Char} {br : Bool}
    (h : k.rest = s ++ t) (hs : goesOn s = true) (hhead : s.head?.any (fun c => !isSpace c && c != '#'))
    (hcolumn : ' ' ∈ s → indent ≤ k.column) (ht : wordEnds false t = true) (hn : s.length < n)
    (hstop : (gap (k.skip s.length)).Ends false indent) :
    plainFrom false indent n ⟨acc, k, br⟩ before =
      ⟨acc ++ before ++ s, (gap (k.skip s.length)).cursor, (gap (k.skip s.length)).broken⟩ := by
  induction n generalizing k s acc before br with
  | zero => omega
  | succ n ih =>
    obtain ⟨c, s', rfl, hfirst⟩ := exists_cons_of_head hhead
    obtain ⟨hc, hhash⟩ : isSpace c = false ∧ c ≠ '#' := by simpa using hfirst
    have hword : word false k.rest = (c :: s').takeWhile (· != ' ') := by
      rw [h]
      exact word_append hs ht
    have hne : (c :: s').takeWhile (· != ' ') ≠ [] := by
      have hblank : c ≠ ' ' := by
        rintro rfl
        cases hc
      rw [List.takeWhile_cons_of_pos (by simpa using hblank)]
      exact List.cons_ne_nil _ _
    have hat : k.at? '#' = false := Cursor.at?_of_ne h hhash
    rcases words_of_goesOn hs with hone | ⟨b, c', r, hmany, hb, hc', hhash', hs'⟩
    · -- the last word
      rw [hone] at hword hne
      exact plainFrom_last hat hword hne rfl hstop
    · -- blanks and another word
      generalize (c :: s').takeWhile (· != ' ') = w at hword hne hmany
      have hrest : (k.skip w.length).rest = (' ' :: b) ++ c' :: (r ++ t) := by
        rw [Cursor.skip_rest, h, hmany, List.append_assoc, List.append_assoc, List.drop_left]
        rfl
      have hnext : (k.skip (w ++ (' ' :: b)).length).rest = c' :: r ++ t := by
        rw [Cursor.skip_rest, h, hmany, List.append_assoc, List.drop_left]
      have hgap : gap (k.skip w.length) = ⟨' ' :: b, k.skip (w ++ (' ' :: b)).length, false⟩ := by
        rw [gap_of_blanks hrest hb hc', Cursor.skip_skip, List.length_append]
      have hlen : (c :: s').length = (w ++ (' ' :: b)).length + (c' :: r).length := by
        rw [hmany, List.length_append]
      have hcol : indent ≤ ((k.skip (w ++ (' ' :: b)).length).column : Int) := by
        have hmoved := column_past_blanks h hs hmany
        have hfirst := hcolumn (by rw [hmany]; simp)
        omega
      have hgo : ¬ Gap.Ends false indent ⟨' ' :: b, k.skip (w ++ (' ' :: b)).length, false⟩ := by
        rintro (hnil | hmark | ⟨-, hless⟩)
        · cases hnil
        · rw [Cursor.at?_of_ne hnext hhash'] at hmark
          cases hmark
        · dsimp only at hless
          omega
      have hfuel : (c' :: r).length < n := by
        simp only [List.length_append, List.length_cons] at hlen hn ⊢
        omega
      rw [plainFrom_next hat hword hne hgap hgo, ih hnext hs' (by simp [hc', hhash']) (fun _ => hcol) hfuel
        (by rwa [Cursor.skip_skip, ← hlen]), Cursor.skip_skip, ← hlen, hmany]
      simp

end Horn.Yaml

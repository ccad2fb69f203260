import Horn.Proofs.Yaml.Marks
import Horn.Proofs.Yaml.Quoted

/-!
The scalars among the tokens of a text and a line break. Main statement: each is shorter than the text, or the
text itself, which stands on one line then.
-/

namespace Horn.Yaml

open Cursor

namespace Lexer

variable {s r : List Char} {c : Char} {good : Text.Points → Prop} {l l' l₁ : Lexer} {t : Token}

/-- The predicate holds of every text shorter than the given one, and of that if it may stand on one
line. -/
structure Covers (good : Text.Points → Prop) (s : List Char) : Prop where
  shorter : ∀ p, p.length < s.length → good p
  line : isPlainLine s = true → good (.ofChars s)

/-- The rest of a text and its line break are still to be read, maybe after a blank. Unless some of them
has been read, a block is open at the first column and no bracket. -/
structure Ahead (good : Text.Points → Prop) (s : List Char) (l : Lexer) : Prop where
  suffix : l.cursor.rest <:+ ' ' :: (s ++ ['\n'])
  first : s.length < l.cursor.rest.length → l.flow = 0 ∧ l.indent = 0
  tokens : l.Has good

lemma Reads.ahead (hr : Reads good l l') (h : Ahead good s l) (hs : l.cursor.rest <:+ s ++ ['\n']) :
    Ahead good s l' := by
  refine ⟨hr.spends.suffix.trans h.suffix, fun hlen => ?_, hr.tokens h.tokens⟩
  have hle := hs.length_le
  have hspent := hr.spends.spent
  rw [List.length_append, List.length_singleton] at hle
  omega

lemma endsLine_of_suffix {t : List Char} (h : t <:+ s ++ ['\n']) : EndsLine t := by
  refine EndsLine.of_suffix ?_ h
  intro c hc
  simpa using hc.symm

section

variable (hcovers : Covers good s) (hs : l.cursor.rest <:+ s ++ ['\n']) (hr : l.cursor.rest = c :: r)
include hcovers hs hr

lemma reads_quoted {double : Bool} (h : l.inKey (fun k => do
      let (p, k) ← quoted double k
      return (.scalar p false, k)) = .ok l') : Reads good l l' := by
  have hne : l.cursor.rest ≠ [] := by rw [hr]; simp
  refine reads_inKey (fun t k ht => ?_) h
  obtain ⟨⟨p, k₁⟩, hquoted, ht⟩ := bind_eq_ok ht
  cases ht
  have hspends := spends_quoted hne hquoted
  have hle := hs.length_le
  have hspent := hspends.spent
  rw [List.length_append, List.length_singleton] at hle
  refine ⟨hspends.mono (by omega), fun q plain heq => ?_⟩
  cases heq
  exact hcovers.shorter p (by omega)

lemma reads_block {folded : Bool} (hc : c ≠ '\n') (h : l.readBlock folded = .ok l') :
    Reads good l l' := by
  unfold readBlock at h
  obtain ⟨l₁, hremove, h⟩ := bind_eq_ok h
  obtain ⟨ps, rfl⟩ := removeKey_eq_ok hremove
  obtain ⟨⟨t, k⟩, hblock, h⟩ := bind_eq_ok h
  cases h
  obtain ⟨hspends, hlen⟩ := spends_block (endsLine_of_suffix hs) hr hc hblock
  have hle := hs.length_le
  rw [List.length_append, List.length_singleton] at hle
  refine ⟨hspends, fun h => has_append h fun u hu => ?_⟩
  rw [List.mem_singleton] at hu
  subst hu
  intro p plain heq
  cases heq
  refine hcovers.shorter _ ?_
  rw [length_ofChars]
  omega

/-- A plain scalar that is as long as the text is the text, and stands on one line. -/
lemma has_plain (hl : Ahead good s l) (hbegins : beginsPlain (l.flow != 0) c r = true) :
    good (.ofChars (plain (l.flow != 0) (l.indent + 1) l.cursor).text) := by
  obtain ⟨-, hlen, hall⟩ := plain_length (l.flow != 0) (l.indent + 1)
    (endsLine_of_suffix hs) (by rw [hr]; simp)
  have hle := hs.length_le
  rw [List.length_append, List.length_singleton] at hle
  by_cases hlt : (plain (l.flow != 0) (l.indent + 1) l.cursor).text.length < s.length
  · exact hcovers.shorter _ (by rwa [length_ofChars])
  · have hrest : l.cursor.rest = s ++ ['\n'] := hs.eq_of_length (by simp; omega)
    obtain ⟨hflow, hindent⟩ := hl.first (by omega)
    rw [hrest] at hr hlen hall
    rw [List.length_append, List.length_singleton] at hlen hall
    rcases s with _ | ⟨d, s⟩
    · cases hr
      cases hbegins
    · cases hr
      obtain hnil | ⟨htext, hgo⟩ := hall (by rw [hflow]; rfl) (by rw [hindent]; decide) (by omega)
      · rw [hnil] at hlt
        simp at hlt
      · rw [← List.append_cancel_right htext] at hgo ⊢
        refine hcovers.line ?_
        rw [hflow] at hbegins
        rw [isPlainLine, hgo, Bool.and_true, ← beginsPlain_before_break (r := [])]
        exact hbegins

lemma ahead_readPlain (hl : Ahead good s l) (hbegins : beginsPlain (l.flow != 0) c r = true)
    (h : l.readPlain = .ok l') : Ahead good s l' := by
  unfold readPlain at h
  obtain ⟨l₁, hsave, h⟩ := bind_eq_ok h
  obtain ⟨ps, rfl⟩ := saveKey_eq_ok hsave
  cases h
  obtain ⟨hspends, -⟩ := plain_length (l.flow != 0) (l.indent + 1)
    (endsLine_of_suffix hs) (by rw [hr]; simp)
  refine ⟨hspends.suffix.trans hl.suffix, fun hlen => hl.first (hlen.trans_le hspends.suffix.length_le), ?_⟩
  refine has_append hl.tokens fun u hu => ?_
  rw [List.mem_singleton] at hu
  subst hu
  intro p plain heq
  cases heq
  exact has_plain (l := l) hcovers hs hr hl hbegins

end

lemma read_blank (hr : l.cursor.rest = ' ' :: r) : l.read ' ' r = .error .malformed := by
  have hmark : ∀ m : Char, m ≠ ' ' → l.cursor.atMark m = false := by
    intro m hm
    unfold atMark
    rw [hr]
    rcases r with _ | ⟨c2, _ | ⟨c3, r⟩⟩
    · rfl
    · rfl
    · simp [Ne.symm hm]
  have hbegins : beginsPlain (l.flow != 0) ' ' r = false := by
    unfold beginsPlain
    simp [isSpace]
  unfold read
  simp only [hmark '-' (by decide), hmark '.' (by decide), hbegins, Char.reduceBEq, Bool.and_false,
    Bool.false_and, Bool.or_self, Bool.false_eq_true, if_false]

/-- **What is read next keeps the rest ahead.** -/
lemma ahead_read (hcovers : Covers good s) (hr : l.cursor.rest = c :: r) (hl : Ahead good s l)
    (h : l.read c r = .ok l') : Ahead good s l' := by
  have hne : l.cursor.rest ≠ [] := by rw [hr]; simp
  by_cases hblank : c = ' '
  · subst hblank
    rw [read_blank hr] at h
    cases h
  · have hs : l.cursor.rest <:+ s ++ ['\n'] := by
      rcases List.suffix_cons_iff.mp hl.suffix with heq | hs
      · rw [hr] at heq
        exact absurd (List.cons.inj heq).1 hblank
      · exact hs
    unfold read at h
    dsimp only at h
    obtain ⟨-, h⟩ | ⟨-, h⟩ := ite_eq_iff.mp h
    · exact (reads_directive hne h).ahead hl hs
    obtain ⟨-, h⟩ | ⟨-, h⟩ := ite_eq_iff.mp h
    · exact (reads_separator hne rfl h).ahead hl hs
    obtain ⟨-, h⟩ | ⟨-, h⟩ := ite_eq_iff.mp h
    · exact (reads_separator hne rfl h).ahead hl hs
    obtain ⟨-, h⟩ | ⟨-, h⟩ := ite_eq_iff.mp h
    · exact (reads_openFlow hne rfl h).ahead hl hs
    obtain ⟨-, h⟩ | ⟨-, h⟩ := ite_eq_iff.mp h
    · exact (reads_openFlow hne rfl h).ahead hl hs
    obtain ⟨-, h⟩ | ⟨-, h⟩ := ite_eq_iff.mp h
    · exact (reads_closeFlow hne rfl h).ahead hl hs
    obtain ⟨-, h⟩ | ⟨-, h⟩ := ite_eq_iff.mp h
    · exact (reads_closeFlow hne rfl h).ahead hl hs
    obtain ⟨-, h⟩ | ⟨-, h⟩ := ite_eq_iff.mp h
    · exact (reads_flowEntry hne h).ahead hl hs
    obtain ⟨-, h⟩ | ⟨-, h⟩ := ite_eq_iff.mp h
    · exact (reads_blockEntry hne h).ahead hl hs
    obtain ⟨-, h⟩ | ⟨-, h⟩ := ite_eq_iff.mp h
    · exact (reads_explicitKey hne h).ahead hl hs
    obtain ⟨-, h⟩ | ⟨-, h⟩ := ite_eq_iff.mp h
    · exact (reads_valueMark hne h).ahead hl hs
    obtain ⟨-, h⟩ | ⟨-, h⟩ := ite_eq_iff.mp h
    · exact (reads_name hne (fun _ => rfl) h).ahead hl hs
    obtain ⟨-, h⟩ | ⟨-, h⟩ := ite_eq_iff.mp h
    · exact (reads_name hne (fun _ => rfl) h).ahead hl hs
    obtain ⟨-, h⟩ | ⟨-, h⟩ := ite_eq_iff.mp h
    · exact (reads_tag hne h).ahead hl hs
    obtain ⟨hc, h⟩ | ⟨-, h⟩ := ite_eq_iff.mp h
    · exact (reads_block hcovers hs hr (by rintro rfl; simp at hc) h).ahead hl hs
    obtain ⟨hc, h⟩ | ⟨-, h⟩ := ite_eq_iff.mp h
    · exact (reads_block hcovers hs hr (by rintro rfl; simp at hc) h).ahead hl hs
    obtain ⟨-, h⟩ | ⟨-, h⟩ := ite_eq_iff.mp h
    · exact (reads_quoted hcovers hs hr h).ahead hl hs
    obtain ⟨hc, h⟩ | ⟨-, h⟩ := ite_eq_iff.mp h
    · exact ahead_readPlain hcovers hs hr hl hc h
    cases h

lemma spends_pastBlanks (n : Nat) (k : Cursor) : k.Spends 0 (pastBlanks n k).1 := by
  induction n generalizing k with
  | zero => exact .refl k
  | succ n ih =>
    have hto := (spends_after k (· == ' ')).trans (spends_pastComment _)
    unfold pastBlanks
    dsimp only
    split
    · exact (hto.trans (spends_skip_zero _ 1)).trans (ih _)
    · exact hto

lemma spends_toToken (l : Lexer) : l.cursor.Spends 0 l.toToken.cursor := by
  have hmark : l.cursor.Spends 0
      (if (l.cursor.index == 0 && l.cursor.at? byteOrderMark) = true then l.cursor.skip 1 else l.cursor) := by
    split
    · exact spends_skip_zero _ 1
    · exact .refl _
  exact hmark.trans (spends_pastBlanks (_ + 1) _)

lemma Ahead.toToken (h : Ahead good s l) : Ahead good s l.toToken := by
  have hspends := spends_toToken l
  exact ⟨hspends.suffix.trans h.suffix, fun hlen => h.first (hlen.trans_le hspends.suffix.length_le),
    h.tokens⟩

/-- Blocks are closed at a column only if some of the rest has been read. -/
lemma Ahead.unwind {column : Int} (h : Ahead good s l) (hcolumn : 0 ≤ column) :
    Ahead good s (l.unwind column) := by
  by_cases hlen : s.length < l.cursor.rest.length
  · obtain ⟨-, hindent⟩ := h.first hlen
    rwa [unwind_of_le (by omega)]
  · refine ⟨by rw [unwind_cursor]; exact h.suffix, fun hlt => ?_, has_unwind h.tokens⟩
    rw [unwind_cursor] at hlt
    exact absurd hlt hlen

variable (hcovers : Covers good s)
include hcovers

lemma Ahead.more (hl : Ahead good s l) (h : l.more = .ok l') : Ahead good s l' := by
  unfold Lexer.more at h
  obtain ⟨l₁, hstale, h⟩ := bind_eq_ok h
  obtain ⟨ps, rfl⟩ := dropStale_eq_ok hstale
  have hto : Ahead good s { l.toToken with pending := ps } := ⟨hl.toToken.suffix, hl.toToken.first, hl.toToken.tokens⟩
  generalize { l.toToken with pending := ps } = l₁ at h hto
  dsimp only at h
  have hin : Ahead good s (l₁.unwind l₁.column) := hto.unwind (by unfold column; omega)
  generalize l₁.unwind l₁.column = l₂ at h hin
  split at h
  · rename_i hr
    obtain ⟨l₃, hremove, h⟩ := bind_eq_ok h
    obtain ⟨ps', rfl⟩ := removeKey_eq_ok hremove
    cases h
    refine ⟨?_, fun hlt => ?_, has_unwind hin.tokens⟩
    · dsimp only
      rw [unwind_cursor]
      exact hin.suffix
    · dsimp only at hlt
      rw [unwind_cursor, hr] at hlt
      simp at hlt
  · rename_i c r hr
    exact ahead_read hcovers hr hin h

lemma Ahead.readyFrom {n : Nat} (hl : Ahead good s l) (h : l.readyFrom n = .ok l') : Ahead good s l' := by
  induction n generalizing l with
  | zero => cases h
  | succ n ih =>
    unfold Lexer.readyFrom at h
    split at h
    · cases h
      exact hl
    · split at h
      · obtain ⟨l₁, hmore, h⟩ := bind_eq_ok h
        exact ih (hl.more hcovers hmore) h
      · obtain ⟨l₁, hstale, h⟩ := bind_eq_ok h
        obtain ⟨ps, rfl⟩ := dropStale_eq_ok hstale
        have hdropped : Ahead good s { l with pending := ps } := ⟨hl.suffix, hl.first, hl.tokens⟩
        split at h
        · obtain ⟨l₂, hmore, h⟩ := bind_eq_ok h
          exact ih (hdropped.more hcovers hmore) h
        · cases h
          exact hdropped

/-- **Reading up to a token keeps the rest ahead.** -/
lemma Ahead.ready (hl : Ahead good s l) (h : l.ready = .ok l') : Ahead good s l' := by
  unfold Lexer.ready at h
  split at h
  · cases h
    exact hl
  · exact hl.readyFrom hcovers h

end Lexer

end Horn.Yaml

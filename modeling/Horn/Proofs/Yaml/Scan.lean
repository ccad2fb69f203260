import Horn.Proofs.Shape
import Horn.Proofs.Yaml.Line

/-!
What is passed of a text by reading it, and the plain scalars. Main statement: a plain scalar is shorter than
the text it is read from, and leaves nothing but a line break of it only if it stands on one line.
-/

namespace Horn.Yaml

namespace Cursor

/-- What is left at one place is the end of what is left at another, at least so many characters
further on. -/
structure Spends (k : Cursor) (n : Nat) (k' : Cursor) : Prop where
  suffix : k'.rest <:+ k.rest
  spent : n + k'.rest.length ≤ k.rest.length

variable {k k' k₂ : Cursor} {m n : Nat}

lemma Spends.refl (k : Cursor) : k.Spends 0 k := ⟨List.suffix_refl _, by omega⟩

lemma Spends.trans (h : k.Spends m k') (h' : k'.Spends n k₂) : k.Spends (m + n) k₂ := by
  refine ⟨h'.suffix.trans h.suffix, ?_⟩
  have := h.spent
  have := h'.spent
  omega

lemma Spends.mono (h : k.Spends n k') (hm : m ≤ n) : k.Spends m k' := by
  refine ⟨h.suffix, ?_⟩
  have := h.spent
  omega

/-- No more than what is left can be taken. -/
lemma spends_skip (k : Cursor) (n : Nat) : k.Spends (min n k.rest.length) (k.skip n) := by
  rw [← List.length_take]
  refine ⟨by rw [skip_rest]; exact List.drop_suffix n k.rest, ?_⟩
  rw [skip_rest, ← List.length_append, List.take_append_drop]

lemma rest_eq_of_isPrefix {s : List Char} (h : s <+: k.rest) : k.rest = s ++ (k.skip s.length).rest := by
  rw [skip_rest]
  exact (List.prefix_iff_eq_append.mp h).symm

lemma spends_skip_of_le (h : n ≤ k.rest.length) : k.Spends n (k.skip n) :=
  (spends_skip k n).mono (by omega)

lemma spends_skip_cons {c : Char} {r : List Char} (h : k.rest = c :: r) : k.Spends 1 (k.skip 1) :=
  spends_skip_of_le (by rw [h, List.length_cons]; omega)

lemma spends_skip_zero (k : Cursor) (n : Nat) : k.Spends 0 (k.skip n) :=
  (spends_skip k n).mono (Nat.zero_le _)

lemma spends_span (k : Cursor) (p : Char → Bool) : k.Spends (k.span p).1.length (k.span p).2 := by
  rw [span_eq]
  exact spends_skip_of_le (List.takeWhile_prefix p).length_le

lemma spends_after (k : Cursor) (p : Char → Bool) : k.Spends 0 (k.after p) :=
  (spends_span k p).mono (Nat.zero_le _)

lemma spends_pastComment (k : Cursor) : k.Spends 0 k.pastComment := by
  unfold pastComment
  split
  · exact spends_after k _
  · exact .refl k

/-- A line that has an end is passed with its break. -/
lemma spends_pastLine (h : k.pastLine = .ok k') : k.Spends 0 k' ∧ (k'.rest = [] ∨ k.Spends 1 k') := by
  unfold pastLine at h
  dsimp only at h
  have hto := (spends_after k (· == ' ')).trans (spends_pastComment _)
  generalize (k.after (· == ' ')).pastComment = k₁ at h hto
  split at h
  · cases h
    split
    · rename_i hbreak
      unfold atBreak at hbreak
      rcases hr : k₁.rest with _ | ⟨c, r⟩
      · rw [hr] at hbreak
        cases hbreak
      · have hone := hto.trans (spends_skip_cons hr)
        exact ⟨hone.mono (by omega), .inr hone⟩
    · rename_i hend hbreak
      refine ⟨hto, .inl ?_⟩
      unfold atBreak at hbreak
      unfold atLineEnd at hend
      rcases hr : k₁.rest with _ | ⟨c, r⟩
      · rfl
      · rw [hr] at hbreak hend
        exact absurd hend hbreak
  · cases h

end Cursor

open Cursor

variable {k k' : Cursor}

lemma length_foldBreaks_le (c : Char) (more : List Char) : (foldBreaks c more).length ≤ 1 + more.length := by
  unfold foldBreaks
  split
  · rw [List.length_cons]
    omega
  · split
    · simp
    · omega

lemma min_column_after (h : k.column = 0) (p : Char → Bool) :
    k.Spends (min 1 (k.after p).column) (k.after p) := by
  rw [after_eq]
  rcases hn : (k.rest.takeWhile p).length with _ | n
  · rw [skip_zero, h]
    exact .refl k
  · refine (spends_skip_of_le ?_).mono (by omega)
    rw [← hn]
    exact (List.takeWhile_prefix p).length_le

/-- The breaks count as no more than what they are, and a line that is indented as less. -/
lemma spends_plainBreaks (n : Nat) (h : k.column = 0) : k.Spends
    (((plainBreaks n k).1.getD []).length + min 1 (plainBreaks n k).2.column) (plainBreaks n k).2 := by
  induction n generalizing k with
  | zero =>
    unfold plainBreaks
    dsimp only
    rw [h]
    exact .refl k
  | succ n ih =>
    have hto := min_column_after h (· == ' ')
    unfold plainBreaks
    dsimp only
    split
    · rename_i c r hr
      split
      · rename_i hc
        have hone := (hto.mono (Nat.zero_le _)).trans (spends_skip_cons hr)
        obtain ⟨-, hzero⟩ := skip_break hr hc
        split
        · dsimp only
          rw [hzero]
          exact hone.mono (by simp)
        · have hmore := hone.trans (ih hzero)
          dsimp only
          refine hmore.mono ?_
          rcases (plainBreaks n ((k.after (· == ' ')).skip 1)).1 with _ | bs
          · simp
          · simp; omega
      · exact hto.mono (by simp)
    · exact hto.mono (by simp)

/-- The gap between two lines counts as no more than what it is, and as less if the second one is
indented. -/
lemma spends_gap_broken (h : (gap k).broken = true) :
    k.Spends ((gap k).text.length + min 1 (gap k).cursor.column) (gap k).cursor := by
  have hto := (spends_span k (· == ' ')).mono (Nat.zero_le _)
  unfold gap at h ⊢
  dsimp only at h ⊢
  split at h
  · rename_i c r hr
    split at h
    · rename_i hc
      rw [if_pos hc]
      have hone := hto.trans (spends_skip_cons hr)
      obtain ⟨-, hzero⟩ := skip_break hr hc
      split
      · dsimp only
        rw [hzero]
        exact hone.mono (by simp)
      · have hmore := hone.trans (spends_plainBreaks (r.length + 1) hzero)
        split
        · rename_i heq
          rw [heq] at hmore
          exact hmore.mono (by simp)
        · rename_i more k₂ heq
          rw [heq] at hmore
          refine hmore.mono ?_
          have := length_foldBreaks_le c more
          simp only [Option.getD_some]
          omega
    · cases h
  · cases h

/-- The gap between two words on a line is the blanks that stand there. -/
lemma gap_of_not_broken (h : (gap k).broken = false) :
    (gap k).text = k.rest.takeWhile (· == ' ') ∧ (gap k).cursor = k.skip (gap k).text.length := by
  unfold gap at h ⊢
  rw [span_eq] at h ⊢
  dsimp only at h ⊢
  split at h
  · split at h
    · split at h
      · cases h
      · split at h <;> cases h
    · rename_i hc
      rw [if_neg hc]
      exact ⟨rfl, rfl⟩
  · exact ⟨rfl, rfl⟩

def EndsLine (s : List Char) : Prop := ∀ c ∈ s.getLast?, c = '\n'

lemma EndsLine.of_suffix {s t : List Char} (h : EndsLine t) (hs : s <:+ t) : EndsLine s := by
  obtain ⟨u, rfl⟩ := hs
  intro c hc
  refine h c ?_
  rw [List.getLast?_append, Option.mem_def.mp hc]
  rfl

lemma isPrefix_word (flow : Bool) (s : List Char) : word flow s <+: s := by
  induction s with
  | nil => exact List.nil_prefix
  | cons c s ih =>
    unfold word
    split
    · exact List.nil_prefix
    · exact List.cons_prefix_cons.mpr ⟨rfl, ih⟩

/-- A word does not reach the end of the text. -/
lemma length_word_lt {flow : Bool} {s : List Char} (h : EndsLine s) (hs : s ≠ []) :
    (word flow s).length < s.length := by
  induction s with
  | nil => exact absurd rfl hs
  | cons c s ih =>
    unfold word
    split
    · simp
    · rename_i hgo
      rcases s with _ | ⟨d, s⟩
      · obtain rfl := h c rfl
        simp [wordEnds, isSpace, isBreak] at hgo
      · have := ih (h.of_suffix (List.suffix_cons ..)) (by simp)
        simpa using this

/-- A word before a space goes on as long as what comes after that does. -/
lemma goesOn_word {s t u : List Char} (h : word false s ++ t = s) (ht : t.head?.all isSpace = true)
    (hu : goesOn u = true) : goesOn (word false s ++ u) = true := by
  induction s with
  | nil => exact hu
  | cons c s ih =>
    unfold word at h ⊢
    by_cases hends : wordEnds false (c :: s) = true
    · rw [if_pos hends]
      exact hu
    · rw [if_neg hends] at h ⊢
      have hs : word false s ++ t = s := by simpa using h
      rw [wordEnds_cons, not_or] at hends
      obtain ⟨hsp, hcolon⟩ := hends
      have hblank : c ≠ ' ' := by
        rintro rfl
        exact hsp rfl
      rw [List.cons_append, goesOn, ih hs, Bool.and_true, if_neg hblank]
      split
      · rename_i hc
        -- the colon stands before a character of the same word
        have hnext : ¬ s.head?.all isSpace = true := fun h => hcolon ⟨hc, h⟩
        rcases hw : word false s with _ | ⟨d, w⟩
        · rw [hw, List.nil_append] at hs
          rw [hs] at ht
          exact absurd ht hnext
        · rw [hw] at hs
          rw [← hs] at hnext
          simpa using hnext
      · simpa using hsp

lemma goesOn_append_blanks {b s : List Char} (hb : ∀ c ∈ b, c = ' ')
    (hhead : s.head?.any (· != '#') = true) (hs : goesOn s = true) : goesOn (b ++ s) = true := by
  induction b with
  | nil => exact hs
  | cons c b ih =>
    obtain ⟨rfl, hblanks⟩ := List.forall_mem_cons.mp hb
    rw [List.cons_append, goesOn, if_pos rfl, ih hblanks, Bool.and_true]
    rcases b with _ | ⟨d, b⟩
    · exact hhead
    · obtain rfl := hblanks d (List.mem_cons_self ..)
      rfl

/-- The text is what stands on the line that is left, and goes on there. -/
structure IsRestOf (t s : List Char) : Prop where
  rest : s = t ++ ['\n']
  goesOn : goesOn t = true

/-- A word that leaves one character only ends with the line. -/
lemma isRestOf_word {s : List Char} (h : EndsLine s) (hlen : (word false s).length + 1 = s.length) :
    IsRestOf (word false s) s := by
  obtain ⟨t, ht⟩ := isPrefix_word false s
  obtain ⟨c, rfl⟩ : ∃ c, t = [c] := by
    rw [← List.length_eq_one_iff]
    have := congrArg List.length ht
    rw [List.length_append] at this
    omega
  obtain rfl := h c (by rw [← ht]; simp)
  refine ⟨ht.symm, ?_⟩
  have hgo := goesOn_word ht rfl (show goesOn [] = true from rfl)
  rwa [List.append_nil] at hgo

lemma spends_gap (k : Cursor) : k.Spends (gap k).text.length (gap k).cursor := by
  rcases hb : (gap k).broken with _ | _
  · obtain ⟨htext, hcursor⟩ := gap_of_not_broken hb
    rw [hcursor]
    refine spends_skip_of_le ?_
    rw [htext]
    exact (List.takeWhile_prefix _).length_le
  · exact (spends_gap_broken hb).mono (Nat.le_add_right ..)

/-- A word and blanks go on with what comes after them on the line. -/
lemma isRestOf_append {t : List Char} {g : Gap} (hg : gap (k.skip (word false k.rest).length) = g)
    (hbroken : g.broken = false) (hblank : g.text ≠ []) (hhash : g.cursor.at? '#' = false) (hne : t ≠ [])
    (ht : IsRestOf t g.cursor.rest) : IsRestOf (word false k.rest ++ (g.text ++ t)) k.rest := by
  subst hg
  obtain ⟨htext, hcursor⟩ := gap_of_not_broken hbroken
  have hword := rest_eq_of_isPrefix (isPrefix_word false k.rest)
  generalize k.skip (word false k.rest).length = k₁ at *
  have hblanks : ∀ c ∈ (gap k₁).text, c = ' ' := by
    intro c hc
    rw [htext] at hc
    simpa using List.mem_takeWhile_imp hc
  have hgap := rest_eq_of_isPrefix (k := k₁) (htext ▸ List.takeWhile_prefix _)
  rw [← hcursor, ht.rest] at hgap
  refine ⟨?_, goesOn_word hword.symm ?_ (goesOn_append_blanks hblanks ?_ ht.goesOn)⟩
  · nth_rewrite 1 [hword]
    rw [hgap, List.append_assoc, List.append_assoc]
  · rcases hb : (gap k₁).text with _ | ⟨c, b⟩
    · exact absurd hb hblank
    · obtain rfl := hblanks c (by rw [hb]; exact List.mem_cons_self ..)
      rw [hgap, hb]
      rfl
  · rcases t with _ | ⟨c, t⟩
    · exact absurd rfl hne
    · unfold at? at hhash
      rw [ht.rest] at hhash
      simpa using hhash

/-- Words are shorter than what they are read from. All but the last character of that is theirs only if
they stand on one line, unless lines are not indented. -/
structure Words (flow : Bool) (indent : Int) (k : Cursor) (t : List Char) : Prop where
  ne_nil : t ≠ []
  length_lt : t.length < k.rest.length
  isRestOf : flow = false → 1 ≤ indent → t.length + 1 = k.rest.length → IsRestOf t k.rest

section Words

variable {flow : Bool} {indent : Int} {w t : List Char} {g : Gap}

lemma Words.of_word (h : EndsLine k.rest) (hw : word flow k.rest = w) (hne : w ≠ []) :
    Words flow indent k w := by
  subst hw
  refine ⟨hne, length_word_lt h fun hnil => hne ?_, ?_⟩
  · rw [hnil]
    rfl
  · rintro rfl - hlen
    exact isRestOf_word h hlen

lemma spends_word_gap (hw : word flow k.rest = w) (hg : gap (k.skip w.length) = g) :
    k.Spends (w.length + g.text.length) g.cursor := by
  subst hw hg
  exact (spends_skip_of_le (isPrefix_word flow k.rest).length_le).trans (spends_gap _)

/-- A word, the gap after it and the words from there on. -/
lemma Words.append (hw : word flow k.rest = w) (hne : w ≠ []) (hg : gap (k.skip w.length) = g)
    (hgo : ¬ g.Ends flow indent) (ht : Words flow indent g.cursor t) :
    Words flow indent k (w ++ (g.text ++ t)) := by
  have hspent := (spends_word_gap hw hg).spent
  have hlt := ht.length_lt
  refine ⟨by simp [hne], by simp only [List.length_append]; omega, ?_⟩
  rintro rfl hindent hall
  simp only [List.length_append] at hall
  obtain ⟨hblank, hhash, hcolumn⟩ : g.text ≠ [] ∧ ¬ g.cursor.at? '#' = true ∧
      ¬ (g.cursor.column : Int) < indent := by
    simpa [Gap.Ends] using hgo
  -- a break would count as less than what it is, since the line after it is indented
  have hbroken : g.broken = false := by
    subst hw hg
    by_contra hb
    have hmore := ((spends_skip_of_le (isPrefix_word false k.rest).length_le).trans
      (spends_gap_broken (by simpa using hb))).spent
    omega
  subst hw
  exact isRestOf_append hg hbroken hblank (by simpa using hhash) ht.ne_nil
    (ht.isRestOf rfl hindent (by omega))

end Words

/-- What the words of a plain scalar add to it. -/
lemma plainFrom_words (flow : Bool) (indent : Int) {n : Nat} {q : Plain} {b : List Char}
    (h : EndsLine q.cursor.rest) : q.cursor.Spends 0 (plainFrom flow indent n q b).cursor ∧
      ((plainFrom flow indent n q b).text = q.text ∨ ∃ t, Words flow indent q.cursor t ∧
        (plainFrom flow indent n q b).text = q.text ++ b ++ t) := by
  induction n generalizing q b with
  | zero => exact ⟨.refl _, .inl rfl⟩
  | succ n ih =>
    by_cases hnone : q.cursor.at? '#' = true ∨ word flow q.cursor.rest = []
    · rw [plainFrom_none hnone]
      exact ⟨.refl _, .inl rfl⟩
    · obtain ⟨hhash, hne⟩ := not_or.mp hnone
      generalize hw : word flow q.cursor.rest = w at hne
      obtain ⟨g, hg⟩ : ∃ g, gap (q.cursor.skip w.length) = g := ⟨_, rfl⟩
      have hword : Words flow indent q.cursor w := .of_word h hw hne
      have hgap := spends_word_gap hw hg
      by_cases hends : g.Ends flow indent
      · rw [plainFrom_last (by simpa using hhash) hw hne hg hends]
        exact ⟨hgap.mono (Nat.zero_le _), .inr ⟨w, hword, rfl⟩⟩
      · rw [plainFrom_next (by simpa using hhash) hw hne hg hends]
        obtain ⟨hspends, htext⟩ := ih (q := ⟨q.text ++ b ++ w, g.cursor, g.broken⟩) (b := g.text)
          (h.of_suffix hgap.suffix)
        refine ⟨(hgap.trans hspends).mono (Nat.zero_le _), .inr ?_⟩
        rcases htext with htext | ⟨t, ht, htext⟩
        · exact ⟨w, hword, htext⟩
        · exact ⟨_, ht.append hw hne hg hends, by rw [htext, List.append_assoc, List.append_assoc]⟩

/-- **A plain scalar is shorter than what it is read from.** All but the last character of that counts
only if it stands on one line, unless lines are not indented. -/
lemma plain_length (flow : Bool) (indent : Int) (h : EndsLine k.rest) (hne : k.rest ≠ []) :
    k.Spends 0 (plain flow indent k).cursor ∧ (plain flow indent k).text.length < k.rest.length ∧
      (flow = false → 1 ≤ indent → (plain flow indent k).text.length + 1 = k.rest.length →
        (plain flow indent k).text = [] ∨ IsRestOf (plain flow indent k).text k.rest) := by
  obtain ⟨hspends, htext⟩ := plainFrom_words flow indent (n := k.rest.length + 1)
    (q := ⟨[], k, false⟩) (b := []) h
  refine ⟨hspends, ?_⟩
  rcases htext with htext | ⟨t, ht, htext⟩
  · rw [plain, htext]
    exact ⟨List.length_pos_iff.mpr hne, fun _ _ _ => .inl rfl⟩
  · rw [plain, htext]
    exact ⟨ht.length_lt, fun hflow hindent hall => .inr (ht.isRestOf hflow hindent hall)⟩

end Horn.Yaml

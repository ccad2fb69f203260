import Horn.Proofs.Yaml.Scan

/-!
Scalars in quotes and block scalars. Main statement: both are shorter than the text they are read from.
-/

namespace Horn.Yaml

open Cursor

variable {k k' : Cursor}

/-! ### Quoted scalars -/

variable {s : List Char} {p : Text.Points}

lemma spends_quotedBreaks {n : Nat} (h : quotedBreaks n k = .ok (s, k')) : k.Spends s.length k' := by
  induction n generalizing k s with
  | zero =>
    cases h
    exact .refl _
  | succ n ih =>
    unfold quotedBreaks at h
    split at h
    · cases h
    · have hto := spends_after k fun c => c == ' ' || c == '\t'
      dsimp only at h
      split at h
      · rename_i c r hr
        split at h
        · obtain ⟨⟨more, k₂⟩, hmore, h⟩ := bind_eq_ok h
          cases h
          refine ((hto.trans (spends_skip_cons hr)).trans (ih hmore)).mono ?_
          simp only [List.length_cons]
          omega
        · cases h
          exact hto
      · cases h
        exact hto

lemma spends_quotedGap (h : quotedGap k = .ok (s, k')) : k.Spends s.length k' := by
  have hto := spends_span k fun c => c == ' ' || c == '\t'
  unfold quotedGap at h
  dsimp only at h
  split at h
  · cases h
  · rename_i c r hr
    split at h
    · obtain ⟨⟨more, k₂⟩, hmore, h⟩ := bind_eq_ok h
      cases h
      refine ((hto.trans (spends_skip_cons hr)).trans (spends_quotedBreaks hmore)).mono ?_
      have := length_foldBreaks_le c more
      dsimp only
      omega
    · cases h
      exact hto

lemma length_ofChars (s : List Char) : (Text.Points.ofChars s).length = s.length := List.length_map _

/-- What a run goes on with after an escape or a quote counts as no more than what it is. -/
lemma spends_quotedRun {double : Bool} {n : Nat} (h : quotedRun double n k = .ok (p, k')) :
    k.Spends p.length k' := by
  induction n generalizing k p with
  | zero =>
    cases h
    exact .refl _
  | succ n ih =>
    have hto := spends_span k isQuotedChar
    unfold quotedRun at h
    dsimp only at h
    rw [← length_ofChars] at hto
    generalize k.span isQuotedChar = own at h hto
    obtain ⟨own, k₁⟩ := own
    have hgo : ∀ {t : Text.Points} {k₂ : Cursor}, k₁.Spends t.length k₂ →
        (quotedRun double n k₂ >>= fun r => Except.ok (Text.Points.ofChars own ++ t ++ r.1, r.2)) =
          Except.ok (p, k') → k.Spends p.length k' := by
      intro t k₂ hk h
      obtain ⟨⟨more, k₃⟩, hmore, h⟩ := bind_eq_ok h
      cases h
      refine ((hto.trans hk).trans (ih hmore)).mono ?_
      simp only [List.length_append]
      omega
    have hskip : ∀ {m : Nat}, 0 < m → k₁.rest ≠ [] → ∀ c : Nat, k₁.Spends [c].length (k₁.skip m) :=
      fun hpos hne c => (spends_skip k₁ _).mono
        (by have := List.length_pos_iff.mpr hne; rw [List.length_singleton]; omega)
    dsimp only at h
    split at h
    · rename_i hr
      exact hgo (hskip (by omega) (by rw [hr]; simp) _) h
    · rename_i hr
      exact hgo (hskip (by omega) (by rw [hr]; simp) _) h
    · rename_i hr
      exact hgo (hskip (by omega) (by rw [hr]; simp) _) h
    · rename_i hr
      exact hgo (hskip (by omega) (by rw [hr]; simp) _) h
    · rename_i hr
      have hne : k₁.rest ≠ [] := by rw [hr]; simp
      split at h
      · exact hgo (hskip (by omega) hne _) h
      · split at h
        · split at h
          · exact hgo (hskip (by omega) hne _) h
          · cases h
        · cases h
      · split at h
        · obtain ⟨⟨breaks, k₂⟩, hbreaks, h⟩ := bind_eq_ok h
          have hspends := (spends_skip_zero k₁ 2).trans (spends_quotedBreaks hbreaks)
          rw [← length_ofChars] at hspends
          exact hgo (hspends.mono (Nat.le_add_left ..)) h
        · cases h
    · cases h
    · cases h
      exact hto

lemma spends_quotedFrom {double : Bool} {n : Nat} (h : quotedFrom double n k = .ok (p, k')) :
    k.Spends (p.length + 1) k' := by
  induction n generalizing k p with
  | zero => cases h
  | succ n ih =>
    unfold quotedFrom at h
    obtain ⟨⟨own, k₁⟩, hrun, h⟩ := bind_eq_ok h
    have hto := spends_quotedRun hrun
    dsimp only at h
    generalize (if double = true then '"' else '\'') = q at h
    by_cases hq : k₁.at? q = true
    · rw [if_pos hq] at h
      cases h
      refine hto.trans (spends_skip_of_le ?_)
      unfold at? at hq
      rcases hr : k₁.rest with _ | ⟨c, r⟩
      · rw [hr] at hq
        cases hq
      · simp
    · rw [if_neg hq] at h
      obtain ⟨⟨between, k₂⟩, hgap, h⟩ := bind_eq_ok h
      obtain ⟨⟨more, k₃⟩, hmore, h⟩ := bind_eq_ok h
      cases h
      refine ((hto.trans (spends_quotedGap hgap)).trans (ih hmore)).mono ?_
      simp only [List.length_append, length_ofChars]
      omega

/-- **A quoted scalar is shorter than what it is read from**, by its quotes. -/
lemma spends_quoted {double : Bool} (hne : k.rest ≠ []) (h : quoted double k = .ok (p, k')) :
    k.Spends (p.length + 2) k' := by
  have hone : k.Spends 1 (k.skip 1) := spends_skip_of_le (List.length_pos_iff.mpr hne)
  exact (hone.trans (spends_quotedFrom h)).mono (by omega)

/-! ### Block scalars -/

lemma spends_chomping {c : Chomping} (h : chomping? k = some (c, k')) : k.Spends 0 k' := by
  unfold chomping? at h
  split at h
  · cases h
    exact spends_skip_zero k 1
  · cases h
    exact spends_skip_zero k 1
  · cases h

lemma spends_indent {i : Option Nat} (h : indent? k = .ok (i, k')) : k.Spends 0 k' := by
  unfold indent? at h
  split at h
  · split at h
    · cases h
    · split at h
      · cases h
        exact spends_skip_zero k 1
      · cases h
        exact .refl k
  · cases h
    exact .refl k

/-- A header that is not the end of the text is passed with its break. -/
lemma spends_header {h : Header} (hh : header k = .ok h) :
    k.Spends 0 h.cursor ∧ (h.cursor.rest = [] ∨ k.Spends 1 h.cursor) := by
  have hclose : ∀ h₁ : Header, k.Spends 0 h₁.cursor →
      (if (h₁.cursor.at? ' ' || h₁.cursor.atLineEnd) = true then do
        return { h₁ with cursor := ← h₁.cursor.pastLine }
      else throw .malformed) = Except.ok h →
      k.Spends 0 h.cursor ∧ (h.cursor.rest = [] ∨ k.Spends 1 h.cursor) := by
    intro h₁ hto hh
    split at hh
    · obtain ⟨k₁, hline, hh⟩ := bind_eq_ok hh
      cases hh
      obtain ⟨hpast, hend⟩ := spends_pastLine hline
      exact ⟨hto.trans hpast, hend.imp_right hto.trans⟩
    · cases hh
  unfold header at hh
  dsimp only at hh
  split at hh
  · rename_i hc
    obtain ⟨⟨i, k₁⟩, hi, hh⟩ := bind_eq_ok hh
    exact hclose _ ((spends_chomping hc).trans (spends_indent hi)) hh
  · obtain ⟨⟨i, k₁⟩, hi, hh⟩ := bind_eq_ok hh
    dsimp only at hh
    split at hh
    · rename_i hc
      exact hclose _ ((spends_indent hi).trans (spends_chomping hc)) hh
    · exact hclose _ (spends_indent hi) hh

lemma spends_firstBreaks (n deepest : Nat) (k : Cursor) :
    k.Spends (firstBreaks n k deepest).1.length (firstBreaks n k deepest).2.2 := by
  induction n generalizing k deepest with
  | zero => exact .refl k
  | succ n ih =>
    unfold firstBreaks
    split
    · rename_i c r hr
      have hone := spends_skip_cons hr
      dsimp only
      split
      · exact (hone.trans (ih _ _)).mono (by omega)
      · split
        · refine (hone.trans (ih deepest _)).mono ?_
          simp only [List.length_cons]
          omega
        · exact .refl k
    · exact .refl k

lemma spends_blockBreaks (indent n : Nat) (k : Cursor) :
    k.Spends (blockBreaks indent n k).1.length (blockBreaks indent n k).2 := by
  induction n generalizing k with
  | zero => exact .refl k
  | succ n ih =>
    have hto : k.Spends 0 (toColumn indent k) := spends_skip_zero k _
    unfold blockBreaks
    dsimp only
    split
    · rename_i c r hr
      split
      · refine ((hto.trans (spends_skip_cons hr)).trans (ih _)).mono ?_
        simp only [List.length_cons]
        omega
      · exact hto
    · exact hto

lemma spends_lineBreak (k : Cursor) : k.Spends (lineBreak k).1.length (lineBreak k).2 := by
  unfold lineBreak
  split
  · rename_i c r hr
    split
    · exact spends_skip_cons hr
    · exact .refl k
  · exact .refl k

/-- Between two lines of a block scalar stands no more than the break there. -/
lemma length_joint_le (folded flush : Bool) (ending breaks : List Char) :
    (if (folded && ending == ['\n'] && flush) = true then
      if breaks.isEmpty = true then [' '] else [] else ending).length ≤ ending.length := by
  split
  · rename_i hfold
    obtain ⟨⟨-, rfl⟩, -⟩ : (folded = true ∧ ending = ['\n']) ∧ flush = true := by simpa using hfold
    split <;> simp
  · exact Nat.le_refl _

lemma spends_blockLines {folded : Bool} {indent n : Nat} {text last trailing : List Char}
    (h : blockLines folded indent n k = (text, last, trailing, k')) :
    k.Spends (text.length + last.length + trailing.length) k' := by
  induction n generalizing k text last trailing with
  | zero =>
    cases h
    exact .refl _
  | succ n ih =>
    have hown := spends_span k fun c => !isBreak c
    unfold blockLines at h
    dsimp only at h
    generalize k.span (fun c => !isBreak c) = own at h hown
    obtain ⟨own, k₁⟩ := own
    have hending := spends_lineBreak k₁
    dsimp only at h hown
    generalize lineBreak k₁ = ending at h hending
    obtain ⟨ending, k₂⟩ := ending
    have hbreaks := spends_blockBreaks indent (k₂.rest.length + 1) k₂
    dsimp only at h hending
    generalize blockBreaks indent (k₂.rest.length + 1) k₂ = breaks at h hbreaks
    obtain ⟨breaks, k₃⟩ := breaks
    have hto := (hown.trans hending).trans hbreaks
    dsimp only at h hto
    split at h
    · rcases hmore : blockLines folded indent n k₃ with ⟨more, last', trailing', k₄⟩
      rw [hmore] at h
      cases h
      have hjoint := length_joint_le folded (!atBlank k && !atBlank k₃) ending breaks
      rw [← Bool.and_assoc] at hjoint
      refine (hto.trans (ih hmore)).mono ?_
      simp only [List.length_append]
      omega
    · cases h
      exact hto

def linesAfter (folded : Bool) (indent : Nat) (breaks : List Char) (k : Cursor) :
    List Char × List Char × List Char × Cursor :=
  if atBlockLine indent k then
    let (text, last, trailing, k) := blockLines folded indent (k.rest.length + 1) k
    (breaks ++ text, last, trailing, k)
  else ([], [], breaks, k)

def chomp (c : Chomping) : List Char × List Char × List Char × Cursor → Scanned
  | (text, last, trailing, k) => match c with
    | .strip => (text, k)
    | .clip => (text ++ last, k)
    | .keep => (text ++ last ++ trailing, k)

lemma spends_chomp {folded : Bool} {indent : Nat} {breaks : List Char} {k₁ : Cursor} {c : Chomping}
    (hk : k.Spends breaks.length k₁) (h : chomp c (linesAfter folded indent breaks k₁) = (s, k')) :
    k.Spends s.length k' := by
  rcases hlines : linesAfter folded indent breaks k₁ with ⟨text, last, trailing, k₂⟩
  have hspends : k.Spends (text.length + last.length + trailing.length) k₂ := by
    unfold linesAfter at hlines
    split at hlines
    · rcases hown : blockLines folded indent (k₁.rest.length + 1) k₁ with ⟨own, last', trailing', k₃⟩
      rw [hown] at hlines
      cases hlines
      refine (hk.trans (spends_blockLines hown)).mono ?_
      simp only [List.length_append]
      omega
    · cases hlines
      exact hk.mono (by simp)
  rw [hlines] at h
  unfold chomp at h
  rcases c
  · cases h
    exact hspends.mono (by omega)
  · cases h
    exact hspends.mono (by rw [List.length_append]; omega)
  · cases h
    exact hspends.mono (by rw [List.length_append, List.length_append])

lemma block_eq {folded : Bool} {outer : Int} : block folded outer k = (do
    let h ← header (k.skip 1)
    let least := (max (outer + 1) 1).toNat
    return match h.indent with
    | some i =>
      let (breaks, k) := blockBreaks (least + i - 1) (h.cursor.rest.length + 1) h.cursor
      chomp h.chomping (linesAfter folded (least + i - 1) breaks k)
    | none =>
      let (breaks, deepest, k) := firstBreaks (h.cursor.rest.length + 1) h.cursor 0
      chomp h.chomping (linesAfter folded (max least deepest) breaks k)) := by
  unfold block
  congr
  funext h
  rcases h.indent <;> rfl

/-- **A block scalar is shorter than what it is read from**, by its mark and a line break. -/
lemma spends_block {folded : Bool} {outer : Int} {c : Char} {r : List Char} (hend : EndsLine k.rest)
    (hr : k.rest = c :: r) (hc : c ≠ '\n') (h : block folded outer k = .ok (s, k')) :
    k.Spends 1 k' ∧ s.length + 2 ≤ k.rest.length := by
  have hone := spends_skip_cons hr
  rw [block_eq] at h
  obtain ⟨hd, hheader, h⟩ := bind_eq_ok h
  obtain ⟨hto, hpast⟩ := spends_header hheader
  have hbody : hd.cursor.Spends s.length k' := by
    replace h := Except.ok.inj h
    split at h
    all_goals dsimp only at h
    · exact spends_chomp (spends_blockBreaks ..) h
    · exact spends_chomp (spends_firstBreaks ..) h
  have hall := (hone.trans hto).trans hbody
  refine ⟨hall.mono (by omega), ?_⟩
  rcases hpast with hpast | hpast
  · -- nothing is left after the header, so that the scalar is empty
    have hspent := hbody.spent
    rw [hpast] at hspent
    rcases r with _ | ⟨d, r⟩
    · exact absurd (hend c (by rw [hr]; rfl)) hc
    · rw [hr]
      simp only [List.length_cons, List.length_nil] at hspent ⊢
      omega
  · have hspent := ((hone.trans hpast).trans hbody).spent
    omega

end Horn.Yaml

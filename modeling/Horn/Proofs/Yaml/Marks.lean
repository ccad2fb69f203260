import Mathlib.Data.List.InsertIdx
import Horn.Proofs.Yaml.Scan

/-!
The tokens other than scalars. Main statement: reading one passes part of the text, and adds no scalar to the
tokens there are.
-/

namespace Horn.Yaml

open Cursor

def Token.isScalar : Token → Bool
  | .scalar _ _ => true
  | _ => false

namespace Lexer

variable {k k' : Cursor} {t : Token}

/-! ### Names, tags and directives -/

lemma spends_name {n : String} (hne : k.rest ≠ []) (h : name k = .ok (n, k')) : k.Spends 1 k' := by
  have hone : k.Spends 1 (k.skip 1) := spends_skip_of_le (List.length_pos_iff.mpr hne)
  unfold name at h
  dsimp only at h
  split at h
  · cases h
  · cases h
    exact (hone.trans (spends_span _ _)).mono (by omega)

lemma spends_tagText {n : Nat} {s : List Char} (h : tagText n k = .ok (s, k')) : k.Spends 0 k' := by
  induction n generalizing k s with
  | zero =>
    cases h
    exact .refl _
  | succ n ih =>
    have hto := (spends_span k isTagChar).mono (Nat.zero_le _)
    unfold tagText at h
    dsimp only at h
    split at h
    · split at h
      · cases h
      · obtain ⟨⟨more, k₁⟩, hmore, h⟩ := bind_eq_ok h
        cases h
        exact (hto.trans (spends_skip_zero _ _)).trans (ih hmore)
    · cases h
      exact hto

lemma spends_tagUri {u : String} (h : tagUri k = .ok (u, k')) : k.Spends 0 k' := by
  unfold tagUri at h
  obtain ⟨⟨s, k₁⟩, hs, h⟩ := bind_eq_ok h
  dsimp only at h
  split at h
  · cases h
  · cases h
    exact spends_tagText hs

lemma spends_tagHandle {u : String} (h : tagHandle k = .ok (u, k')) : k.Spends 1 k' := by
  unfold tagHandle at h
  split at h
  · rename_i r hr
    cases h
    exact spends_skip_cons hr
  · rename_i r hr
    dsimp only at h
    split at h
    · cases h
      refine (spends_skip k _).mono ?_
      rw [hr, List.length_cons]
      omega
    · cases h
  · cases h

/-- A token is read from here: it is no scalar, and the place after it is another. -/
structure Marks (k : Cursor) (t : Token) (k' : Cursor) : Prop where
  spends : k.Spends 1 k'
  noScalar : t.isScalar = false

lemma marks_tag (hne : k.rest ≠ []) (h : tag k = .ok (t, k')) : Marks k t k' := by
  have hone : ∀ n, 0 < n → k.Spends 1 (k.skip n) := fun n hn =>
    (spends_skip k n).mono (by have := List.length_pos_iff.mpr hne; omega)
  have hclose : ∀ {h : Option String} {u : String} {k₁ : Cursor}, k.Spends 1 k₁ →
      (if atBlankEnd k₁ = true then Except.ok (Token.tag h u, k₁) else Except.error Fault.malformed) =
        .ok (t, k') → Marks k t k' := by
    intro h u k₁ hspends ht
    split at ht
    · cases ht
      exact ⟨hspends, rfl⟩
    · cases ht
  unfold tag at h
  dsimp only at h
  split at h
  · obtain ⟨⟨s, k₁⟩, hs, h⟩ := bind_eq_ok h
    dsimp only at h
    split at h
    · exact hclose (((hone 2 (by omega)).trans (spends_tagUri hs)).trans (spends_skip_zero _ _)) h
    · cases h
  · split at h
    · exact hclose (hone 1 (by omega)) h
    · split at h
      · obtain ⟨⟨u, k₁⟩, hu, h⟩ := bind_eq_ok h
        obtain ⟨⟨s, k₂⟩, hs, h⟩ := bind_eq_ok h
        exact hclose ((spends_tagHandle hu).trans (spends_tagUri hs)) h
      · obtain ⟨⟨s, k₁⟩, hs, h⟩ := bind_eq_ok h
        exact hclose ((hone 1 (by omega)).trans (spends_tagUri hs)) h

lemma spends_versionNumber {n : Nat} (h : versionNumber k = .ok (n, k')) : k.Spends 0 k' := by
  unfold versionNumber at h
  dsimp only at h
  split at h
  · cases h
  · split at h
    · cases h
    · cases h
      exact (spends_span k _).mono (Nat.zero_le _)

lemma marks_directive (hne : k.rest ≠ []) (h : directive k = .ok (t, k')) : Marks k t k' := by
  have hone : k.Spends 1 ((k.skip 1).span isNameChar).2 :=
    ((spends_skip_of_le (List.length_pos_iff.mpr hne)).trans (spends_span _ _)).mono (by omega)
  have hclose : ∀ {u : Token} {k₁ : Cursor}, k.Spends 1 k₁ → u.isScalar = false →
      (do return (u, ← k₁.pastLine)) = Except.ok (t, k') → Marks k t k' := by
    intro u k₁ hspends hu h
    obtain ⟨k₂, hline, h⟩ := bind_eq_ok h
    cases h
    exact ⟨hspends.trans (spends_pastLine hline).1, hu⟩
  unfold directive at h
  dsimp only at h
  split at h
  · cases h
  · split at h
    · obtain ⟨⟨major, k₁⟩, hmajor, h⟩ := bind_eq_ok h
      dsimp only at h
      split at h
      · cases h
      · obtain ⟨⟨minor, k₂⟩, hminor, h⟩ := bind_eq_ok h
        dsimp only at h
        split at h
        · cases h
        · exact hclose (((hone.trans (spends_after _ _)).trans (spends_versionNumber hmajor)).trans
            ((spends_skip_zero _ _).trans (spends_versionNumber hminor))) rfl h
    · obtain ⟨⟨u, k₁⟩, hu, h⟩ := bind_eq_ok h
      dsimp only at h
      split at h
      · cases h
      · obtain ⟨⟨s, k₂⟩, hs, h⟩ := bind_eq_ok h
        dsimp only at h
        split at h
        · cases h
        · exact hclose (((hone.trans (spends_after _ _)).trans ((spends_tagHandle hu).mono
            (Nat.zero_le _))).trans ((spends_after _ _).trans (spends_tagUri hs))) rfl h
    · exact hclose (hone.trans (spends_after _ _)) rfl h

end Lexer

def Token.Has (good : Text.Points → Prop) (t : Token) : Prop := ∀ p plain, t = .scalar p plain → good p

lemma Token.Has.of_isScalar {good : Text.Points → Prop} {t : Token} (h : t.isScalar = false) :
    t.Has good := by
  rintro p plain rfl
  cases h

namespace Lexer

variable {s r : List Char} {c : Char} {good : Text.Points → Prop} {l l' l₁ : Lexer} {t : Token}

def Has (good : Text.Points → Prop) (l : Lexer) : Prop := ∀ t ∈ l.tokens, t.Has good

lemma has_append {ts : List Token} (h : l.Has good) (hts : ∀ t ∈ ts, t.Has good) :
    ∀ t ∈ l.tokens ++ ts, t.Has good := by
  intro t ht
  rcases List.mem_append.mp ht with ht | ht
  · exact h t ht
  · exact hts t ht

lemma has_emit (h : l.Has good) (ht : t.Has good) : (l.emit t).Has good :=
  has_append h (by simpa using ht)

lemma has_insert {n : Nat} (h : l.Has good) (ht : t.Has good) : (l.insert n t).Has good := by
  intro u hu
  rcases List.eq_or_mem_of_mem_insertIdx hu with rfl | hu
  · exact ht
  · exact h u hu

lemma has_unwind {column : Int} (h : l.Has good) : (l.unwind column).Has good := by
  unfold unwind
  split
  · refine has_append h fun t ht => ?_
    rw [List.eq_of_mem_replicate ht]
    exact .of_isScalar rfl
  · exact h

lemma has_openBlock (h : l.Has good) (ht : t.Has good) : (l.openBlock t).Has good := by
  unfold openBlock indentTo
  split
  · rename_i heq
    split at heq
    · cases heq
      exact has_append h (by simpa using ht)
    · cases heq
  · rename_i heq
    split at heq
    · cases heq
    · cases heq
      exact h

lemma has_insertKey {p : PendingKey} (h : l.Has good) : (l.insertKey p).Has good := by
  have hkey : (l.forget.insert p.tokens .key).Has good := has_insert h (.of_isScalar rfl)
  unfold insertKey indentTo
  dsimp only
  split
  · split
    · rename_i heq
      split at heq
      · cases heq
        exact has_insert (l := { l.forget.insert p.tokens .key with keyAllowed := false }) hkey
          (.of_isScalar rfl)
      · cases heq
    · rename_i heq
      split at heq
      · cases heq
      · cases heq
        exact hkey
  · exact hkey

@[simp] lemma unwind_cursor (l : Lexer) (column : Int) : (l.unwind column).cursor = l.cursor := by
  unfold unwind
  split <;> rfl

@[simp] lemma openBlock_cursor (l : Lexer) (t : Token) : (l.openBlock t).cursor = l.cursor := by
  unfold openBlock indentTo
  by_cases h : l.indent < l.column <;> simp [h, emit]

@[simp] lemma insertKey_cursor (l : Lexer) (p : PendingKey) : (l.insertKey p).cursor = l.cursor := by
  unfold insertKey indentTo
  by_cases hflow : l.flow = 0 <;> by_cases h : l.indent < p.column <;> simp [hflow, h, insert, forget]

lemma removeKey_eq_ok (h : l.removeKey = .ok l') : ∃ ps, l' = { l with pending := ps } := by
  unfold removeKey at h
  split at h
  · cases h
  · cases h
    exact ⟨_, rfl⟩

lemma saveKey_eq_ok (h : l.saveKey = .ok l') : ∃ ps, l' = { l with pending := ps } := by
  unfold saveKey at h
  split at h
  · obtain ⟨l₁, hremove, h⟩ := bind_eq_ok h
    obtain ⟨ps, rfl⟩ := removeKey_eq_ok hremove
    cases h
    exact ⟨_, rfl⟩
  · cases h
    exact ⟨_, rfl⟩

lemma dropStale_eq_ok (h : l.dropStale = .ok l') : ∃ ps, l' = { l with pending := ps } := by
  unfold dropStale at h
  split at h
  · cases h
  · cases h
    exact ⟨_, rfl⟩

/-- Something has been read, and the tokens that came with it have good texts. -/
structure Reads (good : Text.Points → Prop) (l l' : Lexer) : Prop where
  spends : l.cursor.Spends 1 l'.cursor
  tokens : l.Has good → l'.Has good

lemma reads_mark {n : Nat} (hne : l.cursor.rest ≠ []) (hn : 0 < n) (hcursor : l₁.cursor = l.cursor)
    (hl : l.Has good → l₁.Has good) (ht : t.isScalar = false) : Reads good l (l₁.mark n t) := by
  refine ⟨?_, fun h => has_emit (l := l₁.goTo _) (hl h) (.of_isScalar ht)⟩
  change l.cursor.Spends 1 (l₁.cursor.skip n)
  rw [hcursor]
  exact (spends_skip _ n).mono (by have := List.length_pos_iff.mpr hne; omega)

lemma reads_inKey {scan : Cursor → Except Fault (Token × Cursor)}
    (hscan : ∀ t k, scan l.cursor = .ok (t, k) → l.cursor.Spends 1 k ∧ t.Has good)
    (h : l.inKey scan = .ok l') : Reads good l l' := by
  unfold inKey at h
  obtain ⟨l₁, hsave, h⟩ := bind_eq_ok h
  obtain ⟨ps, rfl⟩ := saveKey_eq_ok hsave
  obtain ⟨⟨t, k⟩, ht, h⟩ := bind_eq_ok h
  cases h
  obtain ⟨hspends, hgood⟩ := hscan t k ht
  exact ⟨hspends, fun h => has_append h (by simpa using hgood)⟩

section

variable (hne : l.cursor.rest ≠ [])
include hne

/-- A mark is read before which no key can have begun. -/
lemma reads_of_removeKey {n : Nat} {a : Bool} {b : Lexer → Bool} (hn : 0 < n)
    (hcursor : l₁.cursor = l.cursor) (hl : l.Has good → l₁.Has good) (ht : t.isScalar = false)
    (h : (do
      let l ← { l₁ with keyAllowed := a }.removeKey
      return { l with keyAllowed := b l }.mark n t) = Except.ok l') : Reads good l l' := by
  obtain ⟨l₂, hremove, h⟩ := bind_eq_ok h
  obtain ⟨ps, rfl⟩ := removeKey_eq_ok hremove
  cases h
  exact reads_mark hne hn hcursor hl ht

lemma reads_separator (ht : t.isScalar = false) (h : l.separator t = .ok l') : Reads good l l' :=
  reads_of_removeKey hne (by decide) (unwind_cursor l (-1)) has_unwind ht h

lemma reads_closeFlow (ht : t.isScalar = false) (h : l.closeFlow t = .ok l') : Reads good l l' := by
  unfold closeFlow at h
  obtain ⟨l₁, hremove, h⟩ := bind_eq_ok h
  obtain ⟨ps, rfl⟩ := removeKey_eq_ok hremove
  cases h
  exact reads_mark hne (by decide) rfl id ht

lemma reads_flowEntry (h : l.flowEntry = .ok l') : Reads good l l' :=
  reads_of_removeKey hne (by decide) rfl id rfl h

lemma reads_openFlow (ht : t.isScalar = false) (h : l.openFlow t = .ok l') : Reads good l l' := by
  unfold openFlow at h
  obtain ⟨l₁, hsave, h⟩ := bind_eq_ok h
  obtain ⟨ps, rfl⟩ := saveKey_eq_ok hsave
  cases h
  exact reads_mark hne (by decide) rfl id ht

lemma reads_blockEntry (h : l.blockEntry = .ok l') : Reads good l l' := by
  unfold blockEntry at h
  dsimp only at h
  split at h
  · split at h
    · exact reads_of_removeKey hne (by decide) (openBlock_cursor l .blockSequence)
        (fun h => has_openBlock h (.of_isScalar rfl)) rfl h
    · cases h
  · exact reads_of_removeKey hne (by decide) rfl id rfl h

lemma reads_explicitKey (h : l.explicitKey = .ok l') : Reads good l l' := by
  unfold explicitKey at h
  dsimp only at h
  split at h
  · split at h
    · exact reads_of_removeKey hne (by decide) (openBlock_cursor l .blockMapping)
        (fun h => has_openBlock h (.of_isScalar rfl)) rfl h
    · cases h
  · exact reads_of_removeKey hne (by decide) rfl id rfl h

lemma reads_valueMark (h : l.valueMark = .ok l') : Reads good l l' := by
  unfold valueMark at h
  split at h
  · cases h
    exact reads_mark hne (by decide) (insertKey_cursor l _) has_insertKey rfl
  · dsimp only at h
    split at h
    · split at h
      · exact reads_of_removeKey hne (by decide) (openBlock_cursor l .blockMapping)
          (fun h => has_openBlock h (.of_isScalar rfl)) rfl h
      · cases h
    · exact reads_of_removeKey hne (by decide) rfl id rfl h

lemma reads_directive (h : l.readDirective = .ok l') : Reads good l l' := by
  unfold readDirective at h
  obtain ⟨l₁, hremove, h⟩ := bind_eq_ok h
  obtain ⟨ps, rfl⟩ := removeKey_eq_ok hremove
  obtain ⟨⟨t, k⟩, ht, h⟩ := bind_eq_ok h
  cases h
  dsimp only at ht
  rw [unwind_cursor] at ht
  have hmarks := marks_directive hne ht
  exact ⟨hmarks.spends, fun h => has_append (l := l.unwind (-1)) (has_unwind h)
    (by simpa using .of_isScalar hmarks.noScalar)⟩

lemma reads_name {mk : String → Token} (hmk : ∀ n, (mk n).isScalar = false)
    (h : l.inKey (fun k => do
      let (n, k) ← name k
      return (mk n, k)) = .ok l') : Reads good l l' := by
  refine reads_inKey (fun t k ht => ?_) h
  obtain ⟨⟨n, k₁⟩, hname, ht⟩ := bind_eq_ok ht
  cases ht
  exact ⟨spends_name hne hname, .of_isScalar (hmk n)⟩

lemma reads_tag (h : l.inKey tag = .ok l') : Reads good l l' :=
  reads_inKey (fun _ _ ht => ⟨(marks_tag hne ht).spends, .of_isScalar (marks_tag hne ht).noScalar⟩) h

end

end Lexer

end Horn.Yaml

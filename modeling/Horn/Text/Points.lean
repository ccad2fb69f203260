import Horn.Text.Utf8

/-!
Texts by their code points. Unlike a string, such a text can hold one half of a surrogate pair, which
is a code point but no character.
-/

namespace Horn.Text

/-- A text by its code points. -/
abbrev Points := List Nat

namespace Points

def ofChars (s : List Char) : Points := s.map Char.toNat

def areChars (p : Points) : Bool := p.all fun n => decide n.isValidChar

/-- The code points as characters, with U+FFFD for those that are none. -/
def chars (p : Points) : List Char :=
  p.map fun n => if n.isValidChar then Char.ofNat n else replacement

theorem areChars_ofChars (s : List Char) : areChars (ofChars s) = true := by
  simp only [areChars, ofChars, List.all_map, List.all_eq_true, Function.comp_apply,
    decide_eq_true_eq]
  exact fun c _ => c.valid

theorem chars_ofChars (s : List Char) : chars (ofChars s) = s := by
  induction s with
  | nil => rfl
  | cons c s ih =>
    have h : c.toNat.isValidChar := c.valid
    simp only [ofChars, chars, List.map_cons, List.map_map, if_pos h, Char.ofNat_toNat] at ih ⊢
    rw [ih]

theorem ofChars_chars {p : Points} (h : p.areChars = true) : ofChars p.chars = p := by
  induction p with
  | nil => rfl
  | cons n p ih =>
    rw [areChars, List.all_cons, Bool.and_eq_true, decide_eq_true_eq] at h
    have hn : (Char.ofNat n).toNat = n := by
      rw [Char.ofNat, dif_pos h.1]
      rfl
    rw [chars, List.map_cons, if_pos h.1, ofChars, List.map_cons, hn]
    exact congrArg _ (ih h.2)

end Points

end Horn.Text

import Mathlib.Tactic.Lemma
import Horn.Witness

/-!
Markers. A marker is a text as a rule, and may be any value. Main statement: with what a name can be
compared.
-/

namespace Horn

def Text.Points.Begins (p : Points) (n : String) : Prop := p <+: Points.ofChars n.toList

instance (p : Text.Points) (n : String) : Decidable (p.Begins n) :=
  inferInstanceAs (Decidable (p <+: Text.Points.ofChars n.toList))

namespace Value

/-- A text, whether or not all its code points are characters. -/
def IsText (m : Value) : Prop := (∃ a, m = .text a) ∨ ∃ p, m = .points p

lemma isText_iff {m : Value} : m.IsText ↔ ∃ p, m.points? = some p := by
  unfold IsText
  cases m <;> simp [points?]

lemma points?_ofPoints (p : Text.Points) : (ofPoints p).points? = some p := by
  unfold ofPoints
  split
  · rw [points?, String.toList_ofList, Text.Points.ofChars_chars ‹_›]
  · rfl

/-- **What a name can be compared with**: a text, or a pair of texts, of which the second does not matter
if the name begins with the first. -/
inductive Compares (n : String) : Value → Prop where
  | text {m : Value} (h : m.IsText) : Compares n m
  | first {a b : Value} {p : Text.Points} (ha : a.points? = some p) (hp : p.Begins n) :
    Compares n (.pair a b)
  | second {a b : Value} (ha : a.IsText) (hb : b.IsText) : Compares n (.pair a b)

variable {m : Value} {p : Text.Points} {n : String}

lemma beginsAlone?_of_points (h : m.points? = some p) (n : String) :
    m.beginsAlone? n = some (decide (p.Begins n)) := by
  rw [beginsAlone?, h, Option.map_some, Option.some.injEq, Bool.eq_iff_iff, decide_eq_true_eq,
    List.isPrefixOf_iff_prefix]
  rfl

lemma beginsAlone?_eq_none_iff : m.beginsAlone? n = none ↔ ¬ m.IsText := by
  rw [isText_iff, beginsAlone?, Option.map_eq_none_iff, ← Option.isSome_iff_exists, Bool.not_eq_true,
    Option.isSome_eq_false_iff, Option.isNone_iff_eq_none]

lemma begins?_of_ne (h : ∀ a b, m ≠ .pair a b) (n : String) : m.begins? n = m.beginsAlone? n := by
  cases m with
  | pair a b => exact absurd rfl (h a b)
  | _ => rfl

lemma begins?_of_points (h : m.points? = some p) (n : String) :
    m.begins? n = some (decide (p.Begins n)) := by
  rw [begins?_of_ne, beginsAlone?_of_points h]
  rintro a b rfl
  cases h

/-- A pair of which the first part is a text is compared with a name like its second part, if that part
matters. -/
lemma begins?_pair {a b : Value} (ha : a.points? = some p) :
    (Value.pair a b).begins? n = none ↔ ¬ p.Begins n ∧ ¬ b.IsText := by
  rw [begins?, beginsAlone?_of_points ha, ← beginsAlone?_eq_none_iff (n := n)]
  by_cases hp : p.Begins n <;> simp [hp]

lemma begins?_eq_none_iff : m.begins? n = none ↔ ¬ m.Compares n := by
  by_cases hm : ∃ a b, m = .pair a b
  · obtain ⟨a, b, rfl⟩ := hm
    have hpair : ¬ (Value.pair a b).IsText := by simp [IsText]
    rcases ha : a.points? with _ | p
    · have hna : ¬ a.IsText := by simp [isText_iff, ha]
      rw [begins?, beginsAlone?_eq_none_iff.mpr hna]
      refine ⟨fun _ h => ?_, fun _ => rfl⟩
      cases h with
      | text h => exact hpair h
      | first ha' _ => rw [ha] at ha'; cases ha'
      | second h _ => exact hna h
    · rw [begins?_pair ha, ← not_or]
      refine not_congr ⟨?_, ?_⟩
      · rintro (hp | hb)
        · exact .first ha hp
        · exact .second (isText_iff.mpr ⟨p, ha⟩) hb
      · intro h
        cases h with
        | text h => exact absurd h hpair
        | first ha' hp =>
          cases ha.symm.trans ha'
          exact .inl hp
        | second _ hb => exact .inr hb
  · rw [begins?_of_ne fun a b h => hm ⟨a, b, h⟩, beginsAlone?_eq_none_iff]
    refine not_congr ⟨.text, fun h => ?_⟩
    cases h with
    | text h => exact h
    | first _ _ => exact absurd ⟨_, _, rfl⟩ hm
    | second _ _ => exact absurd ⟨_, _, rfl⟩ hm

end Value

end Horn

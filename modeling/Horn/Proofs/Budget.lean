import Mathlib.Data.List.Infix
import Horn.Engine.Basic

/-!
Messages about a spent budget. Main statement: they are the ones in which one of four words occurs, in
letters of either case.
-/

namespace Horn

def HoldsWord (s : List Char) (w : String) : Prop := ∃ u, u <:+: s ∧ u.map Char.toLower = w.toList

/-- The message holds a word that an engine uses when it runs out of its budget. -/
def SpeaksOfBudget (message : String) : Prop :=
  ∃ w ∈ ["canceled", "resource", "timeout", "rlimit"], HoldsWord message.toList w

lemma occursIn_iff {w s : List Char} : occursIn w s = true ↔ w <:+: s := by
  induction s with
  | nil => simp [occursIn]
  | cons c s ih => simp [occursIn, ih, List.infix_cons_iff]

/-- A word of ASCII letters which no lower-case form of another letter can help to spell: it has no `k`,
and no `i` at its end. -/
structure PlainWord (w : List Char) : Prop where
  letters : ∀ c ∈ w, c.toNat < 128 ∧ c ≠ 'k'
  last : w.getLast? ≠ some 'i'

instance (w : List Char) : Decidable (PlainWord w) :=
  decidable_of_iff ((w.all fun c => decide (c.toNat < 128 ∧ c ≠ 'k')) = true ∧
      w.getLast? ≠ some 'i') <| by
    simp only [List.all_eq_true, decide_eq_true_eq]
    exact ⟨fun h => ⟨h.1, h.2⟩, fun h => ⟨h.letters, h.last⟩⟩

lemma PlainWord.tail {a : Char} {w : List Char} (h : PlainWord (a :: w)) : PlainWord w where
  letters c hc := h.letters c (.tail _ hc)
  last hl := h.last (by rw [List.getLast?_cons, hl]; rfl)

lemma PlainWord.not_prefix_dot {w s : List Char} (h : PlainWord w) (hne : w ≠ []) :
    ¬ w <+: Char.ofNat 0x307 :: s := by
  intro hp
  obtain ⟨b, w, rfl⟩ := List.exists_cons_of_ne_nil hne
  have hb := (h.letters b (.head _)).1
  rw [(List.cons_prefix_cons.mp hp).1] at hb
  exact absurd hb (by decide)

lemma toLower_of_not_ascii {c : Char} (h : 128 ≤ c.toNat) : c.toLower = c := by
  have hne : ¬ (c.val ≥ 'A'.val ∧ c.val ≤ 'Z'.val) := by
    rintro ⟨-, hz⟩
    have : c.toNat ≤ 90 := hz
    omega
  exact dif_neg hne

/-- The lower-case form of a letter: two of them have forms with ASCII letters of their own. -/
lemma lowerCase_cases (c : Char) :
    (128 ≤ c.toNat ∧ lowerCase c = ['k']) ∨
      (128 ≤ c.toNat ∧ lowerCase c = ['i', Char.ofNat 0x307]) ∨ lowerCase c = [c.toLower] := by
  unfold lowerCase
  split
  · subst c
    exact .inl ⟨by decide, rfl⟩
  · split
    · subst c
      exact .inr (.inl ⟨by decide, rfl⟩)
    · exact .inr (.inr rfl)

/-- A plain word begins the lower-case form of a text only where its letters stand in the text. -/
lemma prefix_lowerCase_iff {w s : List Char} (hw : PlainWord w) :
    w <+: s.flatMap lowerCase ↔ w <+: s.map Char.toLower := by
  induction s generalizing w with
  | nil => simp
  | cons c s ih =>
    rcases w with _ | ⟨a, w⟩
    · simp
    · obtain ⟨ha, hk⟩ := hw.letters a (.head _)
      rw [List.flatMap_cons, List.map_cons, List.cons_prefix_cons]
      rcases lowerCase_cases c with ⟨hc, hl⟩ | ⟨hc, hl⟩ | hl
      · have hne : a ≠ c.toLower := by rintro rfl; rw [toLower_of_not_ascii hc] at ha; omega
        rw [hl, List.singleton_append, List.cons_prefix_cons]
        simp [hk, hne]
      · have hne : a ≠ c.toLower := by rintro rfl; rw [toLower_of_not_ascii hc] at ha; omega
        -- an `i` of the word is followed by another letter of it, the form by a dot
        have hdot : a = 'i' → ¬ w <+: Char.ofNat 0x307 :: s.flatMap lowerCase := by
          rintro rfl
          exact hw.tail.not_prefix_dot (by rintro rfl; exact hw.last rfl)
        rw [hl, List.cons_append, List.singleton_append, List.cons_prefix_cons]
        exact ⟨fun h => absurd h.2 (hdot h.1), fun h => absurd h.1 hne⟩
      · rw [hl, List.singleton_append, List.cons_prefix_cons, ih hw.tail]

lemma infix_lowerCase_iff {w s : List Char} (hw : PlainWord w) (hne : w ≠ []) :
    w <:+: s.flatMap lowerCase ↔ w <:+: s.map Char.toLower := by
  induction s with
  | nil => simp
  | cons c s ih =>
    have hpre := prefix_lowerCase_iff (s := c :: s) hw
    rw [List.map_cons, List.infix_cons_iff, ← List.map_cons, ← hpre, ← ih, List.flatMap_cons]
    rcases lowerCase_cases c with ⟨-, hl⟩ | ⟨-, hl⟩ | hl
    · rw [hl, List.singleton_append, List.infix_cons_iff]
    · rw [hl, List.cons_append, List.singleton_append, List.infix_cons_iff, List.infix_cons_iff]
      simp [hw.not_prefix_dot hne]
    · rw [hl, List.singleton_append, List.infix_cons_iff]

/-- **A message is about a spent budget** if and only if one of the four words occurs in it. -/
theorem isResourceMessage_iff {message : String} :
    isResourceMessage message = true ↔ SpeaksOfBudget message := by
  have hword : ∀ w ∈ ["canceled", "resource", "timeout", "rlimit"],
      (occursIn w.toList (message.toList.flatMap lowerCase) = true ↔ HoldsWord message.toList w) := by
    intro w hw
    have hplain : PlainWord w.toList ∧ w.toList ≠ [] := by
      simp only [List.mem_cons, List.not_mem_nil, or_false] at hw
      rcases hw with rfl | rfl | rfl | rfl <;> exact ⟨by decide, by decide⟩
    rw [occursIn_iff, infix_lowerCase_iff hplain.1 hplain.2, List.infix_map_iff]
    simp only [HoldsWord, eq_comm]
  unfold isResourceMessage SpeaksOfBudget
  rw [List.any_eq_true]
  change (∃ w ∈ ["canceled", "resource", "timeout", "rlimit"].map String.toList, _) ↔ _
  constructor
  · rintro ⟨u, hu, ho⟩
    obtain ⟨w, hw, rfl⟩ := List.mem_map.mp hu
    exact ⟨w, hw, (hword w hw).mp ho⟩
  · rintro ⟨w, hw, ho⟩
    exact ⟨_, List.mem_map_of_mem hw, (hword w hw).mpr ho⟩

/-- A message about a spent budget is not empty. -/
lemma SpeaksOfBudget.ne_empty {message : String} (h : SpeaksOfBudget message) : message ≠ "" := by
  rintro rfl
  obtain ⟨w, hw, u, hu, hm⟩ := h
  rw [show "".toList = [] from rfl, List.infix_nil] at hu
  subst hu
  simp only [List.mem_cons, List.not_mem_nil, or_false] at hw
  rcases hw with rfl | rfl | rfl | rfl <;> exact absurd hm (by decide)

end Horn

import Horn.Proofs.Yaml.Entries
import Horn.Proofs.Yaml.Values

/-!
Lines of which the last one may have any text for a value. Main statement: the texts that such a file can
say are those of the other lines, texts shorter than that of the last value, and that one if it may stand on
one line.
-/

namespace Horn.Yaml

open Lexer

structure Line.Has (good : Text.Points → Prop) (e : Line) : Prop where
  isKey : IsKey e.1
  isPlainLine : isPlainLine e.2 = true
  key : good (.ofChars e.1)
  value : good (.ofChars e.2)

/-- The places of reading a text of lines: on a line before the last value, or ahead of the rest of that. -/
inductive OnLines (good : Text.Points → Prop) (text key s : List Char) : Lexer → Prop
  | start {n : Nat} : OnLines good text key s ⟨.start text, [], n, false, [], -1, [], 0, true⟩
  | line {k : Cursor} {n : Nat} {ts : List Token} {es : List Line}
      (hes : ∀ e ∈ es, e.Has good) (hk : k.rest = (es ++ [(key, s)]).flatMap Line.text)
      (hcolumn : k.column = 0) (hts : ∀ t ∈ ts, t.Has good) : OnLines good text key s (onLine k n ts)
  | value {k : Cursor} {n : Nat} {ts : List Token} {es : List Line} {v : List Char}
      (hes : ∀ e ∈ es, e.Has good) (hv : isPlainLine v = true) (hgood : good (.ofChars v))
      (hk : k.rest = ' ' :: v ++ '\n' :: (es ++ [(key, s)]).flatMap Line.text)
      (hts : ∀ t ∈ ts, t.Has good) : OnLines good text key s (onValue k n ts)
  | ahead {l : Lexer} (h : Ahead good s l) : OnLines good text key s l

namespace OnLines

variable {good : Text.Points → Prop} {text key s : List Char} {l l' : Lexer}

lemma has_scalar {p : List Char} (h : good (.ofChars p)) : (Token.scalar (.ofChars p) true).Has good := by
  intro q plain heq
  cases heq
  exact h

lemma has_key {p : List Char} (h : good (.ofChars p)) :
    ∀ t ∈ [Token.key, .scalar (.ofChars p) true, .value], t.Has good := by
  simp only [List.forall_mem_cons]
  exact ⟨.of_isScalar rfl, has_scalar h, .of_isScalar rfl, by simp⟩

lemma has (h : OnLines good text key s l) : l.Has good := by
  rcases h with _ | ⟨-, -, -, hts⟩ | ⟨-, -, -, -, hts⟩ | h
  · intro t ht
    cases ht
  · exact hts
  · exact hts
  · exact h.tokens

lemma take (h : OnLines good text key s l) : OnLines good text key s l.take := by
  rcases h with _ | ⟨hes, hk, hcolumn, hts⟩ | ⟨hes, hv, hgood, hk, hts⟩ | h
  · exact .start
  · exact .line hes hk hcolumn fun t ht => hts t (List.mem_of_mem_tail ht)
  · exact .value hes hv hgood hk fun t ht => hts t (List.mem_of_mem_tail ht)
  · exact .ahead ⟨h.suffix, h.first, fun t ht => h.tokens t (List.mem_of_mem_tail ht)⟩

variable (text) in
/-- After a key its value comes, whether the line is the last one or not. -/
lemma exists_key {k : Cursor} {es : List Line} (hes : ∀ e ∈ es, e.Has good) (hkey : IsKey key)
    (hgood : good (.ofChars key)) (hk : k.rest = (es ++ [(key, s)]).flatMap Line.text) :
    ∃ key' r, k.rest = key' ++ ':' :: ' ' :: r ∧ IsKey key' ∧ good (.ofChars key') ∧
      ∀ n ts, (∀ t ∈ ts, t.Has good) →
        OnLines good text key s (onValue (k.skip (key'.length + 1)) n ts) := by
  have hrest : ∀ {key' r : List Char}, k.rest = key' ++ ':' :: ' ' :: r →
      (k.skip (key'.length + 1)).rest = ' ' :: r := by
    intro key' r h
    rw [← Cursor.skip_skip, Cursor.skip_rest, Cursor.skip_rest, h, List.drop_left]
    rfl
  rcases es with _ | ⟨⟨key', v⟩, es⟩
  · have hline : k.rest = key ++ ':' :: ' ' :: (s ++ ['\n']) := by simpa [Line.text] using hk
    refine ⟨key, _, hline, hkey, hgood, fun n ts hts => .ahead ⟨?_, fun _ => ⟨rfl, rfl⟩, hts⟩⟩
    change (k.skip (key.length + 1)).rest <:+ _
    exact (hrest hline).symm ▸ List.suffix_refl _
  · obtain ⟨he, hes⟩ := List.forall_mem_cons.mp hes
    have hline : k.rest = key' ++ ':' :: ' ' :: (v ++ '\n' :: (es ++ [(key, s)]).flatMap Line.text) := by
      rw [hk]
      simp [Line.text]
    exact ⟨key', _, hline, he.isKey, he.key, fun n ts hts =>
      .value hes he.isPlainLine he.value (hrest hline) hts⟩

lemma beginsLine_lines {es : List Line} (hes : ∀ e ∈ es, e.Has good) (hkey : IsKey key) :
    beginsLine ((es ++ [(key, s)]).flatMap Line.text) = true := by
  rcases es with _ | ⟨e, es⟩
  · rw [List.nil_append, List.flatMap_cons, Line.text, List.append_assoc]
    exact beginsLine_append hkey.head _
  · rw [List.cons_append, List.flatMap_cons, Line.text, List.append_assoc]
    exact beginsLine_append (hes e (List.mem_cons_self ..)).isKey.head _

variable {c : List Char} {es : List Line} (hkey : IsKey key) (hgood : good (.ofChars key))
  (hc : Cursor.isLine c = true) (hes : ∀ e ∈ es, e.Has good)
include hkey hgood hc hes

/-- The first line is met after the line of comment. -/
lemma ready_start {n : Nat} (hl : Lexer.ready ⟨.start (linesText c (es ++ [(key, s)])), [], n, false, [],
    -1, [], 0, true⟩ = .ok l') : OnLines good (linesText c (es ++ [(key, s)])) key s l' := by
  have hstart : (Cursor.start (linesText c (es ++ [(key, s)]))).rest =
      '#' :: c ++ '\n' :: (es ++ [(key, s)]).flatMap Line.text := rfl
  obtain ⟨hnext, hzero⟩ := Cursor.skip_to_next hstart
  obtain ⟨key', r, hline, hkey', hgood', hvalue⟩ :=
    exists_key (linesText c (es ++ [(key, s)])) hes hkey hgood hnext
  have hbegins := beginsToken_of_beginsLine (beginsLine_lines (s := s) hes hkey)
  generalize linesText c (es ++ [(key, s)]) = text at *
  have htok : toToken ⟨.start text, [], n, false, [], -1, [], 0, true⟩ =
      ⟨(Cursor.start text).skip (c.length + 2), [], n, false, [], -1, [], 0, true⟩ :=
    toToken_of_comment hstart hc hbegins rfl
  have hready := ready_key (by rw [hstart]; simp) htok hline hkey' hzero (by decide)
  rw [hready] at hl
  cases hl
  exact hvalue n _ (List.forall_mem_cons.mpr ⟨.of_isScalar rfl, has_key hgood'⟩)

/-- **Reading up to a token leads from one of these places to another.** -/
lemma ready (hcovers : Covers good s) (h : OnLines good (linesText c (es ++ [(key, s)])) key s l)
    (hl : l.ready = .ok l') : OnLines good (linesText c (es ++ [(key, s)])) key s l' := by
  rcases h with @n | @⟨k, n, ts, es, hes, hk, hcolumn, hts⟩ | @⟨k, n, ts, es, v, hes, hv, hgoodv, hk, hts⟩ | h
  · exact ready_start hkey hgood hc hes hl
  · rcases ts with _ | ⟨t, ts⟩
    · obtain ⟨key', r, hline, hkey', hgood', hvalue⟩ := exists_key _ hes hkey hgood hk
      rw [ready_onLine hline hkey' hcolumn] at hl
      cases hl
      exact hvalue n _ (has_key hgood')
    · rw [ready_of_tokens rfl (by simp [onLine])] at hl
      cases hl
      exact .line hes hk hcolumn hts
  · rcases ts with _ | ⟨t, ts⟩
    · obtain ⟨hnext, hzero⟩ := Cursor.skip_to_next hk
      rw [ready_onValue hk hv (beginsLine_lines hes hkey)] at hl
      cases hl
      exact .line hes hnext hzero (by simpa using has_scalar hgoodv)
    · rw [ready_of_tokens rfl (by simp [onValue])] at hl
      cases hl
      exact .value hes hv hgoodv hk hts
  · exact .ahead (h.ready hcovers hl)

end OnLines

/-- **What a text of lines can say**, whatever stands on the last one: its nodes have the texts of the other
lines, texts shorter than the last value, or that one if it may stand on one line. -/
theorem nodesHave_of_lines {good : Text.Points → Prop} {c key s : List Char} {es : List Line} {d : Document}
    (hcovers : Covers good s) (hnil : good []) (hkey : IsKey key) (hgood : good (.ofChars key))
    (hc : Cursor.isLine c = true) (hes : ∀ e ∈ es, e.Has good)
    (h : Document.ofChars (linesText c (es ++ [(key, s)])) = .ok (some d)) : NodesHave good d.nodes :=
  Document.nodesHave ⟨OnLines.ready hkey hgood hc hes hcovers, OnLines.take, OnLines.has⟩ .start hnil h

/-! ### The text -/

lemma unifyBreaks_append {s t : List Char} (h : '\r' ∉ s) : unifyBreaks (s ++ t) = s ++ unifyBreaks t := by
  induction s with
  | nil => rfl
  | cons c s ih =>
    have hc : c ≠ '\r' := fun heq => h (by rw [heq]; exact List.mem_cons_self ..)
    have hs : '\r' ∉ s := fun hs => h (List.mem_cons_of_mem _ hs)
    have hcons : unifyBreaks (c :: (s ++ t)) = c :: unifyBreaks (s ++ t) := by
      rw [unifyBreaks]
      · exact fun r heq => absurd heq hc
      · exact fun heq => absurd heq hc
    rw [List.cons_append, hcons, ih hs, List.cons_append]

/-- The last line of a text ends with a line feed, and it is no longer than it was. -/
lemma unifyBreaks_line (m : List Char) :
    ∃ s, unifyBreaks (m ++ ['\n']) = s ++ ['\n'] ∧ s.length ≤ m.length ∧ '\r' ∉ s := by
  fun_induction unifyBreaks m with
  | case1 r ih =>
    obtain ⟨s, hs, hlen, hr⟩ := ih
    refine ⟨'\n' :: s, ?_, by simp only [List.length_cons]; omega, by simpa using hr⟩
    rw [List.cons_append, List.cons_append, unifyBreaks, hs]
    rfl
  | case2 r hne ih =>
    obtain ⟨s, hs, hlen, hr⟩ := ih
    rcases r with _ | ⟨c, r⟩
    · exact ⟨[], rfl, by simp, by simp⟩
    · have hc : c ≠ '\n' := fun heq => hne r (by rw [heq])
      refine ⟨'\n' :: s, ?_, by simp only [List.length_cons] at hlen ⊢; omega, by simpa using hr⟩
      rw [List.cons_append, unifyBreaks, hs]
      · rfl
      · intro r' heq
        exact hc (List.cons.inj heq).1
  | case3 c r h1 h2 ih =>
    obtain ⟨s, hs, hlen, hr⟩ := ih
    have hc : c ≠ '\r' := fun heq => h2 heq
    refine ⟨c :: s, ?_, by simp only [List.length_cons]; omega, by simp [hr, hc.symm]⟩
    have happend := unifyBreaks_append (s := [c]) (t := r ++ ['\n']) (by simpa using hc.symm)
    rw [hs] at happend
    exact happend
  | case4 => exact ⟨[], rfl, by simp, by simp⟩

/-- A document is read only from characters that may stand in it. -/
lemma ofText_eq_ok {s : List Char} {o : Option Document} (h : Document.ofText s = .ok o) :
    Document.ofChars s = .ok o ∧ ∀ c ∈ s, isAllowed c = true := by
  unfold Document.ofText at h
  dsimp only at h
  split at h
  · rename_i hlen
    have hlen : (readable s).length = s.length := by simpa using hlen
    have hle : (s.takeWhile isAllowed).length ≤ s.length := (List.takeWhile_prefix _).length_le
    have hall : (s.takeWhile isAllowed).length = s.length := by
      by_contra hne
      have hshort : (readable s).length < s.length := by
        unfold readable
        dsimp only
        rw [if_neg (by simpa using hne)]
        split
        · rw [List.length_nil]
          omega
        · have := Nat.div_mul_le_self (s.takeWhile isAllowed).length chunk
          rw [List.length_take]
          omega
      omega
    have hself : s.takeWhile isAllowed = s := (List.takeWhile_prefix _).eq_of_length hall
    have hchars : ∀ c ∈ s, isAllowed c = true := List.takeWhile_eq_self_iff.mp hself
    exact ⟨h, hchars⟩
  · split at h <;> cases h

/-- **What a text of lines can say**, whatever stands on the last one. The value there is covered as it is
read, with a line feed for every other break and no character that may not stand in a text. -/
theorem content_has {good : Text.Points → Prop} {text : String} {c key m : List Char} {es : List Line}
    {content : Content} (htext : text.toList = linesText c (es ++ [(key, m)]))
    (hcovers : ∀ s : List Char, s.length ≤ m.length → (∀ d ∈ s, isAllowed d = true ∧ d ≠ '\r') → Covers good s)
    (hnil : good []) (hkey : IsKey key) (hgood : good (.ofChars key)) (hc : Cursor.isLine c = true)
    (hes : ∀ e ∈ es, e.Has good) (hlines : '\r' ∉ linesText c es) (hreturn : '\r' ∉ key)
    (h : Content.ofText text = .ok (some content)) : ∀ e ∈ content.graph, e.2.Has good := by
  obtain ⟨s, hs, hlen, hr⟩ := unifyBreaks_line m
  have hunified : unifyBreaks text.toList = linesText c (es ++ [(key, s)]) := by
    have hsplit : ∀ v : List Char, linesText c (es ++ [(key, v)]) =
        (linesText c es ++ (key ++ [':', ' '])) ++ (v ++ ['\n']) := by
      intro v
      simp [linesText, Line.text]
    rw [htext, hsplit, hsplit, unifyBreaks_append, hs]
    simp [hlines, hreturn]
  unfold Content.ofText at h
  rw [hunified] at h
  obtain ⟨o, ho, h⟩ := bind_eq_ok h
  obtain ⟨hdocument, hallowed⟩ := ofText_eq_ok ho
  rcases o with _ | d
  · cases h
  · obtain ⟨content', hcontent, h⟩ := bind_eq_ok h
    cases h
    have hs : ∀ d ∈ s, isAllowed d = true ∧ d ≠ '\r' := by
      refine fun d hd => ⟨hallowed d ?_, fun heq => hr (heq ▸ hd)⟩
      simp [linesText, Line.text, hd]
    exact Document.graph_has hnil (nodesHave_of_lines (hcovers s hlen hs) hnil hkey hgood hc hes hdocument) hcontent

end Horn.Yaml

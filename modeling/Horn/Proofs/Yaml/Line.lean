import Horn.Proofs.Yaml.Plain

/-!
The tokens of a dictionary whose entries stand on one line each. Main statements: the start of a line is
read as a key and its colon, what follows the colon as a plain scalar, and the end of the text as the end
of the dictionary.
-/

namespace Horn.Yaml

@[simp] lemma ok_bind {α β : Type} (a : α) (f : α → Except Fault β) : (Except.ok a >>= f) = f a := rfl

/-- The first part of a computation has been done. -/
lemma bind_run {σ α β : Type} {x : StateT σ (Except Fault) α} {f : α → StateT σ (Except Fault) β}
    {s t : σ} {a : α} (h : x s = .ok (a, t)) : (x >>= f) s = f a t := by
  change (x s >>= fun p => f p.1 p.2) = _
  rw [h]
  rfl

lemma bind_run_error {σ α β : Type} {x : StateT σ (Except Fault) α} {f : α → StateT σ (Except Fault) β}
    {s : σ} {e : Fault} (h : x s = .error e) : (x >>= f) s = .error e := by
  change (x s >>= fun p => f p.1 p.2) = _
  rw [h]
  rfl

lemma map_run {σ α β : Type} {x : StateT σ (Except Fault) α} {f : α → β} {s t : σ} {a : α}
    (h : x s = .ok (a, t)) : (f <$> x) s = .ok (f a, t) := by
  change (x s >>= fun p => Except.ok (f p.1, p.2)) = _
  rw [h]
  rfl

lemma map_run_error {σ α β : Type} {x : StateT σ (Except Fault) α} {f : α → β} {s : σ} {e : Fault}
    (h : x s = .error e) : (f <$> x) s = .error e := by
  change (x s >>= fun p => Except.ok (f p.1, p.2)) = _
  rw [h]
  rfl

namespace Lexer

/-- A line of an open dictionary begins here, after the given tokens. -/
def onLine (k : Cursor) (n : Nat) (ts : List Token) : Lexer := ⟨k, ts, n, false, [], 0, [-1], 0, true⟩

/-- A value stands here, after the given tokens and the colon of its entry. -/
def onValue (k : Cursor) (n : Nat) (ts : List Token) : Lexer :=
  ⟨k, ts, n, false, [], 0, [-1], 0, false⟩

@[simp] lemma take_onLine (k : Cursor) (n : Nat) (t : Token) (ts : List Token) :
    (onLine k n (t :: ts)).take = onLine k (n + 1) ts := rfl

@[simp] lemma take_onValue (k : Cursor) (n : Nat) (t : Token) (ts : List Token) :
    (onValue k n (t :: ts)).take = onValue k (n + 1) ts := rfl

/-! ### The way to the next token -/

def beginsToken (r : List Char) : Bool :=
  r.head?.all fun c => !isSpace c && c != '#'

lemma beginsToken_of_beginsLine {r : List Char} (h : beginsLine r = true) : beginsToken r = true := by
  obtain rfl | ⟨c, r, rfl, hc⟩ := beginsLine_cases h
  · rfl
  · obtain ⟨hsp, hhash, -⟩ := isAlphanum_ne hc
    simp [beginsToken, hsp, hhash]

lemma pastBlanks_of_blanks {k : Cursor} {b r : List Char} {n : Nat} (h : k.rest = b ++ r)
    (hb : ∀ d ∈ b, d = ' ') (hr : beginsToken r = true) :
    pastBlanks (n + 1) k = (k.skip b.length, false) := by
  have htake : k.rest.takeWhile (· == ' ') = b := by
    rw [h, List.takeWhile_append_of_pos (by simpa using hb)]
    rcases r with _ | ⟨c, r⟩
    · simp
    · have hne : c ≠ ' ' := by
        rintro rfl
        simp [beginsToken, isSpace] at hr
      rw [List.takeWhile_cons_of_neg (by simpa using hne), List.append_nil]
  have hrest : (k.skip b.length).rest = r := by rw [Cursor.skip_rest, h, List.drop_left]
  have hat : (k.skip b.length).at? '#' = false ∧ (k.skip b.length).atBreak = false := by
    unfold Cursor.at? Cursor.atBreak
    rw [hrest]
    rcases r with _ | ⟨c, r⟩
    · exact ⟨rfl, rfl⟩
    · obtain ⟨hsp, hhash⟩ : isSpace c = false ∧ c ≠ '#' := by simpa [beginsToken] using hr
      exact ⟨by simpa using hhash, not_isBreak_of_not_isSpace hsp⟩
  unfold pastBlanks Cursor.pastComment
  rw [Cursor.after_eq, htake, hat.1, if_neg Bool.false_ne_true]
  dsimp only
  rw [hat.2, if_neg Bool.false_ne_true]

/-- Blanks are passed on the way to the next token. -/
lemma toToken_of_blanks {l : Lexer} {b r : List Char} (h : l.cursor.rest = b ++ r)
    (hmark : l.cursor.at? byteOrderMark = false) (hb : ∀ d ∈ b, d = ' ')
    (hr : beginsToken r = true) : l.toToken = l.goTo (l.cursor.skip b.length) := by
  unfold toToken
  rw [hmark, Bool.and_false, if_neg Bool.false_ne_true]
  dsimp only
  rw [pastBlanks_of_blanks h hb hr]
  simp [goTo]

/-- A first line that is a comment is passed on the way to the first token. -/
lemma toToken_of_comment {l : Lexer} {s r : List Char} (h : l.cursor.rest = '#' :: s ++ '\n' :: r)
    (hs : Cursor.isLine s = true) (hr : beginsToken r = true) (hk : l.keyAllowed = true) :
    l.toToken = l.goTo (l.cursor.skip (s.length + 2)) := by
  have hmark : l.cursor.at? byteOrderMark = false := Cursor.at?_of_ne h (by decide)
  have hblank : l.cursor.after (· == ' ') = l.cursor := Cursor.after_of_head (by rw [h]; rfl)
  have hcomment : l.cursor.pastComment = l.cursor.skip (s.length + 1) := by
    have htake : l.cursor.rest.takeWhile (fun c => !isBreak c) = '#' :: s := by
      rw [h, List.takeWhile_append_of_pos, List.takeWhile_cons_of_neg (by decide), List.append_nil]
      rintro d (_ | ⟨_, hd⟩)
      · rfl
      · exact List.all_eq_true.mp hs d hd
    unfold Cursor.pastComment
    rw [if_pos (by unfold Cursor.at?; rw [h]; rfl), Cursor.after_eq, htake, List.length_cons]
  have hrest : (l.cursor.skip (s.length + 1)).rest = '\n' :: r := by
    rw [Cursor.skip_rest, h, ← List.length_cons (a := '#'), List.drop_left]
  have hbreak : (l.cursor.skip (s.length + 1)).atBreak = true := by
    unfold Cursor.atBreak
    rw [hrest]
    rfl
  have hnext : pastBlanks l.cursor.rest.length (l.cursor.skip (s.length + 2)) =
      (l.cursor.skip (s.length + 2), false) := by
    rw [h, List.length_append, List.length_cons (a := '#'), Nat.add_right_comm]
    refine pastBlanks_of_blanks (b := []) (r := r) ?_ (by simp) hr
    rw [← Cursor.skip_skip l.cursor (s.length + 1) 1, Cursor.skip_rest, hrest]
    rfl
  unfold toToken
  rw [hmark, Bool.and_false, if_neg Bool.false_ne_true]
  unfold pastBlanks
  dsimp only
  rw [hblank, hcomment, hbreak, if_pos rfl, Cursor.skip_skip, hnext]
  simp [goTo, hk]

/-! ### Plain scalars -/

lemma beq_of_not_isIndicator {c : Char} (h : isIndicator c = false) :
    ∀ d ∈ ['-', '?', ':', ',', '[', ']', '{', '}', '#', '&', '*', '!', '|', '>', '\'', '"', '%', '@'],
      (c == d) = false := by
  simp only [isIndicator, Bool.or_eq_false_iff, String.contains_char_eq, decide_eq_false_iff_not] at h
  intro d hd
  rw [beq_eq_false_iff_ne]
  rintro rfl
  exact h.1 hd

/-- A plain scalar is read where one may begin, on the first column where a letter or a digit does. -/
lemma read_of_beginsPlain {l : Lexer} {c : Char} {r : List Char} (hrest : l.cursor.rest = c :: r)
    (hflow : l.flow = 0) (hc : beginsPlain false c r = true)
    (hcolumn : l.cursor.column = 0 → c.isAlphanum = true) : l.read c r = l.readPlain := by
  have hmark : ∀ m : Char, m.isAlphanum = false → (l.cursor.column == 0 && l.cursor.atMark m) = false := by
    intro m hm
    rw [Bool.and_eq_false_iff, beq_eq_false_iff_ne]
    by_cases h0 : l.cursor.column = 0
    · right
      have hne : c ≠ m := by
        rintro rfl
        rw [hcolumn h0] at hm
        cases hm
      unfold Cursor.atMark
      rw [hrest]
      rcases r with _ | ⟨c2, _ | ⟨c3, r⟩⟩
      · rfl
      · rfl
      · simp [hne]
    · exact .inl h0
  have hdash := hmark '-' rfl
  have hdot := hmark '.' rfl
  unfold read
  simp only [hflow, bne_self_eq_false, hdash, hdot, hc]
  have hcase : (isSpace c = false ∧ isIndicator c = false) ∨
      (r.head?.all isSpace = false ∧ (c = '-' ∨ c = '?' ∨ c = ':')) := by
    simpa [beginsPlain] using hc
  obtain ⟨-, hi⟩ | ⟨hbefore, rfl | rfl | rfl⟩ := hcase
  · have hne := beq_of_not_isIndicator hi
    simp only [List.forall_mem_cons] at hne
    obtain ⟨h1, h2, h3, h4, h5, h6, h7, h8, -, h10, h11, h12, h13, h14, h15, h16, h17, -⟩ := hne
    simp only [h1, h2, h3, h4, h5, h6, h7, h8, h10, h11, h12, h13, h14, h15, h16, h17,
      Bool.false_and, Bool.or_false, Bool.false_eq_true, if_false, if_true]
  · simp [hbefore]
  · simp [hbefore]
  · simp [hbefore]

/-! ### The key of a line -/

variable {k : Cursor} {n : Nat} {i : Int} {outer : List Int} {key r : List Char}

/-- The text may stand as a key on a line of its own: it begins with a letter or a digit and holds no
blank. -/
structure IsKey (key : List Char) : Prop where
  head : key.head?.any Char.isAlphanum = true
  goesOn : goesOn key = true
  noBlank : ' ' ∉ key
  short : key.length ≤ maxKeyLength

def afterKey (k : Cursor) (n : Nat) (i : Int) (outer : List Int) (key : List Char) : Lexer :=
  ⟨k.skip key.length, [.scalar (.ofChars key) true], n, false,
    [(0, ⟨n, i == 0, k.index, k.line, 0⟩)], i, outer, 0, false⟩

lemma openBlocks_of_le {column : Int} (h : i ≤ column) : openBlocks column i outer = (0, i, outer) := by
  rcases outer with _ | ⟨j, outer⟩
  · rfl
  · unfold openBlocks
    rw [if_neg (by omega)]

lemma unwind_of_le {l : Lexer} {column : Int} (h : l.indent ≤ column) : l.unwind column = l := by
  unfold unwind
  rw [openBlocks_of_le h]
  simp

lemma dropStale_of_none {l : Lexer} (h : l.pending = []) : l.dropStale = .ok l := by
  obtain ⟨k, ts, n, d, ps, i, o, f, a⟩ := l
  cases h
  rfl

lemma beginsPlain_of_isAlphanum {c : Char} (h : c.isAlphanum = true) : beginsPlain false c r = true := by
  obtain ⟨hsp, -⟩ := isAlphanum_ne h
  have hindicator : isIndicator c = false := by
    by_contra hi
    simp only [isIndicator, Bool.not_eq_false, Bool.or_eq_true, String.contains_char_eq,
      decide_eq_true_eq, beq_iff_eq] at hi
    have hnone : ("-?:,[]\x7b\x7d#&*!|>'\"%@".toList.all fun d => !d.isAlphanum) = true := by decide
    rcases hi with hi | rfl
    · have hc := List.all_eq_true.mp hnone c hi
      rw [h] at hc
      cases hc
    · cases h
  unfold beginsPlain
  rw [hsp, hindicator]
  rfl

lemma isPlainLine_of_isAlphanum {s : List Char} (hhead : s.head?.any Char.isAlphanum = true)
    (hgo : Yaml.goesOn s = true) : isPlainLine s = true := by
  obtain ⟨c, s, rfl, hc⟩ := exists_cons_of_head hhead
  change (beginsPlain false c s && Yaml.goesOn (c :: s)) = true
  rw [beginsPlain_of_isAlphanum hc, hgo]
  rfl

/-- The words of a key end at its colon. -/
lemma plain_key {indent : Int} (hr : k.rest = key ++ ':' :: ' ' :: r) (hkey : IsKey key) :
    plain false indent k = ⟨key, k.skip key.length, false⟩ := by
  have hgap : gap (k.skip key.length) = ⟨[], k.skip key.length, false⟩ := by
    refine gap_of_blanks (b := []) (c := ':') (r := ' ' :: r) ?_ (by simp) rfl
    rw [Cursor.skip_rest, hr, List.drop_left]
    rfl
  have hfirst : key.head?.any (fun c => !isSpace c && c != '#') = true := by
    obtain ⟨c, s, rfl, hc⟩ := exists_cons_of_head hkey.head
    obtain ⟨hsp, hhash, -⟩ := isAlphanum_ne hc
    simp [hsp, hhash]
  unfold plain
  rw [plainFrom_append hr hkey.goesOn hfirst (fun h => absurd h hkey.noBlank) rfl
    (by rw [hr, List.length_append]; omega) (.inl (by rw [hgap])), hgap]
  rfl

/-- The key of a line is read first. -/
lemma more_key {l : Lexer} (hl : l.toToken = ⟨k, [], n, false, [], i, outer, 0, true⟩)
    (hr : k.rest = key ++ ':' :: ' ' :: r) (hkey : IsKey key) (hcolumn : k.column = 0)
    (hi : i ≤ 0) : l.more = .ok (afterKey k n i outer key) := by
  obtain ⟨c, key', rfl, hc⟩ := exists_cons_of_head hkey.head
  unfold more
  rw [hl, dropStale_of_none rfl, ok_bind]
  dsimp only
  rw [unwind_of_le (by simpa [column, hcolumn] using hi), hr, List.cons_append]
  dsimp only
  rw [read_of_beginsPlain (by exact hr) rfl (beginsPlain_of_isAlphanum hc) (fun _ => hc)]
  have hsave : saveKey ⟨k, [], n, false, [], i, outer, 0, true⟩ =
      .ok ⟨k, [], n, false, [(0, ⟨n, i == 0, k.index, k.line, 0⟩)], i, outer, 0, true⟩ := by
    have hremove : removeKey ⟨k, [], n, false, [], i, outer, 0, true⟩ =
        .ok ⟨k, [], n, false, [], i, outer, 0, true⟩ := rfl
    unfold saveKey
    rw [if_pos rfl, hremove, ok_bind]
    simp only [column, hcolumn]
    rfl
  unfold readPlain
  rw [hsave, ok_bind]
  dsimp only
  rw [show ((0 : Nat) != 0) = false from rfl, plain_key hr hkey]
  rfl

/-- The colon of a key stands where the key can still have begun. -/
lemma dropStale_afterKey (hr : k.rest = key ++ ':' :: ' ' :: r) (hkey : IsKey key) :
    (afterKey k n i outer key).dropStale = .ok (afterKey k n i outer key) := by
  obtain ⟨hline, hindex, -⟩ := Cursor.skip_line hr (isLine_of_goesOn hkey.goesOn)
  have hshort := hkey.short
  have hstale : (afterKey k n i outer key).isStale ⟨n, i == 0, k.index, k.line, 0⟩ = false := by
    unfold isStale afterKey
    simp only [hline, hindex, bne_self_eq_false, Bool.false_or, decide_eq_false_iff_not]
    omega
  unfold dropStale
  have hpending : (afterKey k n i outer key).pending = [(0, ⟨n, i == 0, k.index, k.line, 0⟩)] := rfl
  simp only [hpending, List.any_cons, hstale, Bool.false_and, List.any_nil, Bool.or_self,
    Bool.false_eq_true, if_false, List.filter_cons, Bool.not_false, if_true, List.filter_nil]
  rfl

/-- A colon before a blank is the mark of a value. -/
lemma read_colon {l : Lexer} (hrest : l.cursor.rest = ':' :: ' ' :: r) :
    l.read ':' (' ' :: r) = l.valueMark := by
  have hmark : ∀ m : Char, m ≠ ':' → l.cursor.atMark m = false := by
    intro m hm
    unfold Cursor.atMark
    rw [hrest]
    rcases r with _ | ⟨c, r⟩
    · rfl
    · simp [Ne.symm hm]
  have hspace : List.head? (' ' :: r) |>.all isSpace := rfl
  unfold read
  simp only [hmark '-' (by decide), hmark '.' (by decide), hspace, Bool.and_false, Bool.or_true,
    Bool.and_true, Char.reduceBEq, Bool.false_and, Bool.false_eq_true,
    if_false, if_true]

/-- The marks of a key are put in before it, and the mark of a dictionary if none is open. -/
lemma insertKey_afterKey (hi : i ≤ 0) :
    (afterKey k n i outer key).insertKey ⟨n, i == 0, k.index, k.line, 0⟩ =
      { onValue (k.skip key.length) n
          ((if i < 0 then [.blockMapping] else []) ++ [.key, .scalar (.ofChars key) true]) with
        outer := if i < 0 then i :: outer else outer } := by
  by_cases hneg : i < 0
  · simp [insertKey, indentTo, forget, insert, afterKey, onValue, hneg]
  · have h0 : i = 0 := by omega
    simp [insertKey, indentTo, forget, insert, afterKey, onValue, h0]

/-- The colon of a key is read next. -/
lemma more_colon (hr : k.rest = key ++ ':' :: ' ' :: r) (hkey : IsKey key) (hi : i ≤ 0) :
    (afterKey k n i outer key).more = .ok { onValue (k.skip (key.length + 1)) n
        ((if i < 0 then [.blockMapping] else []) ++ [.key, .scalar (.ofChars key) true, .value]) with
      outer := if i < 0 then i :: outer else outer } := by
  have hrest : (k.skip key.length).rest = ':' :: ' ' :: r := by rw [Cursor.skip_rest, hr, List.drop_left]
  have htok : (afterKey k n i outer key).toToken = afterKey k n i outer key := by
    rw [toToken_of_blanks (b := []) (by exact hrest) (Cursor.at?_of_ne hrest (by decide)) (by simp) rfl]
    rfl
  have hcolumn : i ≤ (afterKey k n i outer key).column := by
    unfold column
    omega
  unfold more
  rw [htok, dropStale_afterKey hr hkey, ok_bind]
  dsimp only
  rw [unwind_of_le hcolumn, show (afterKey k n i outer key).cursor.rest = _ from hrest]
  dsimp only
  rw [read_colon (by exact hrest)]
  have hpending : (afterKey k n i outer key).pendingKey? = some ⟨n, i == 0, k.index, k.line, 0⟩ := rfl
  unfold valueMark
  rw [hpending]
  dsimp only
  rw [insertKey_afterKey hi]
  simp only [mark, goTo, emit, onValue, Cursor.skip_skip, List.append_assoc, List.cons_append,
    List.nil_append]
  rfl

/-! ### Reading up to a token -/

lemma ready_of_tokens {l : Lexer} (hp : l.pending = []) (ht : l.tokens ≠ []) : l.ready = .ok l := by
  unfold ready
  rw [if_pos (by simp [hp, ht])]

lemma readyFrom_of_tokens {l : Lexer} {m : Nat} (hp : l.pending = []) (ht : l.tokens ≠ []) :
    readyFrom (m + 1) l = .ok l := by
  unfold readyFrom
  split
  · rfl
  · rw [if_neg (by simpa using ht), dropStale_of_none hp, ok_bind, mayBeKey, hp]
    rfl

lemma readyFrom_of_more {l l' : Lexer} {m : Nat} (hd : l.done = false) (ht : l.tokens = [])
    (h : l.more = .ok l') : readyFrom (m + 1) l = readyFrom m l' := by
  rw [readyFrom, hd, if_neg Bool.false_ne_true, ht,
    if_pos (show ([] : List Token).isEmpty = true from rfl), h, ok_bind]

/-- **The start of a line is read as a key and its colon.** -/
lemma ready_key {k₀ : Cursor} (hk : k₀.rest ≠ [])
    (htok : toToken ⟨k₀, [], n, false, [], i, outer, 0, true⟩ =
      ⟨k, [], n, false, [], i, outer, 0, true⟩)
    (hr : k.rest = key ++ ':' :: ' ' :: r) (hkey : IsKey key) (hcolumn : k.column = 0)
    (hi : i ≤ 0) : ready ⟨k₀, [], n, false, [], i, outer, 0, true⟩ =
      .ok { onValue (k.skip (key.length + 1)) n
          ((if i < 0 then [.blockMapping] else []) ++ [.key, .scalar (.ofChars key) true, .value]) with
        outer := if i < 0 then i :: outer else outer } := by
  obtain ⟨m, hm⟩ : ∃ m, k₀.rest.length + 2 = m + 3 :=
    Nat.exists_eq_add_of_le' (by have := List.length_pos_iff.mpr hk; omega)
  unfold ready
  rw [if_neg (by simp)]
  dsimp only
  rw [hm, readyFrom_of_more rfl rfl (more_key htok hr hkey hcolumn hi)]
  have hmay : (afterKey k n i outer key).mayBeKey = true := by simp [mayBeKey, afterKey]
  rw [readyFrom, if_neg (show ¬ (afterKey k n i outer key).done = true from Bool.false_ne_true),
    if_neg (show ¬ (afterKey k n i outer key).tokens.isEmpty = true from Bool.false_ne_true),
    dropStale_afterKey hr hkey, ok_bind, if_pos hmay, more_colon hr hkey hi, ok_bind]
  exact readyFrom_of_tokens rfl (by simp [onValue])

/-- A line of an open dictionary is read as a key and its colon. -/
lemma ready_onLine (hr : k.rest = key ++ ':' :: ' ' :: r) (hkey : IsKey key) (hcolumn : k.column = 0) :
    (onLine k n []).ready =
      .ok (onValue (k.skip (key.length + 1)) n [.key, .scalar (.ofChars key) true, .value]) := by
  obtain ⟨c, key', rfl, hc⟩ := exists_cons_of_head hkey.head
  obtain ⟨hsp, hhash, -, -, hmark⟩ := isAlphanum_ne hc
  have hbegins : beginsToken k.rest = true := by
    rw [hr]
    simp [beginsToken, hsp, hhash]
  exact ready_key (by simp [hr])
    (toToken_of_blanks (b := []) rfl (Cursor.at?_of_ne hr hmark) (by simp) hbegins) hr hkey hcolumn
    (Int.le_refl 0)

/-- **The end of the text ends the dictionary.** -/
lemma ready_end (hr : k.rest = []) (hcolumn : k.column = 0) :
    (onLine k n []).ready = .ok ⟨k, [.blockEnd], n, true, [], -1, [], 0, false⟩ := by
  have htok : (onLine k n []).toToken = onLine k n [] := by
    rw [toToken_of_blanks (b := []) (r := []) (by exact hr) (Cursor.at?_of_nil hr _) (by simp) rfl]
    rfl
  have hmore : (onLine k n []).more = .ok ⟨k, [.blockEnd], n, true, [], -1, [], 0, false⟩ := by
    unfold more
    rw [htok, dropStale_of_none rfl, ok_bind]
    dsimp only
    rw [unwind_of_le (by simp [column, onLine, hcolumn]), show (onLine k n []).cursor.rest = _ from hr]
    rfl
  unfold ready
  rw [if_neg (by simp [onLine]), show (onLine k n []).cursor.rest = _ from hr]
  change readyFrom 2 (onLine k n []) = _
  rw [readyFrom_of_more rfl rfl hmore]
  rfl

/-! ### The value of a line -/

/-- The end of a line counts as a blank after the first character of a scalar. -/
lemma beginsPlain_before_break {flow : Bool} {c : Char} {s : List Char} :
    beginsPlain flow c (s ++ '\n' :: r) = beginsPlain flow c s := by
  unfold beginsPlain
  rcases s with _ | ⟨d, s⟩ <;> rfl

/-- A plain scalar on one line begins with a character that begins one, also before the end of its
line. -/
lemma beginsPlain_append {c : Char} {s : List Char} (h : isPlainLine (c :: s) = true) :
    beginsPlain false c (s ++ '\n' :: r) = true ∧ isSpace c = false ∧ c ≠ '#' := by
  obtain ⟨hbegins, -⟩ : beginsPlain false c s = true ∧ goesOn (c :: s) = true := by
    simpa [isPlainLine] using h
  have hcase : (isSpace c = false ∧ isIndicator c = false) ∨
      (s.head?.all isSpace = false ∧ (c = '-' ∨ c = '?' ∨ c = ':')) := by
    simpa [beginsPlain] using hbegins
  refine ⟨by rwa [beginsPlain_before_break], ?_⟩
  obtain ⟨hsp, hi⟩ | ⟨-, rfl | rfl | rfl⟩ := hcase
  · have hhash := beq_of_not_isIndicator hi '#' (by simp)
    exact ⟨hsp, by simpa using hhash⟩
  all_goals exact ⟨rfl, by decide⟩

lemma exists_cons_of_isPlainLine {v : List Char} (h : isPlainLine v = true) : ∃ c s, v = c :: s := by
  rcases v with _ | ⟨c, s⟩
  · cases h
  · exact ⟨c, s, rfl⟩

/-- The words of a plain scalar end with its line, if what follows is not indented. -/
lemma plain_line {v : List Char} (hr : k.rest = v ++ '\n' :: r) (hv : isPlainLine v = true)
    (hcolumn : 1 ≤ k.column) (hnext : beginsLine r = true) :
    plain false 1 k = ⟨v, k.skip (v.length + 1), true⟩ := by
  obtain ⟨c, s, rfl⟩ := exists_cons_of_isPlainLine hv
  obtain ⟨-, hsp, hhash⟩ := beginsPlain_append (r := r) hv
  have hgo : goesOn (c :: s) = true := by
    rw [isPlainLine, Bool.and_eq_true] at hv
    exact hv.2
  have hrest : (k.skip (c :: s).length).rest = '\n' :: r := by rw [Cursor.skip_rest, hr, List.drop_left]
  have hgap : gap (k.skip (c :: s).length) = ⟨[' '], k.skip ((c :: s).length + 1), true⟩ := by
    rw [gap_of_break hrest hnext, Cursor.skip_skip]
  obtain ⟨-, hzero⟩ := Cursor.skip_to_next hr
  unfold plain
  rw [plainFrom_append hr hgo (by simp [hsp, hhash]) (fun _ => by omega) rfl
    (by rw [hr, List.length_append]; omega) (.inr (.inr ⟨rfl, by rw [hgap]; dsimp only; omega⟩)), hgap]
  rfl

/-- **What follows the colon is read as a plain scalar**, if it may stand as one on one line. -/
lemma ready_onValue {v : List Char} (hr : k.rest = ' ' :: v ++ '\n' :: r)
    (hv : isPlainLine v = true) (hnext : beginsLine r = true) :
    (onValue k n []).ready = .ok (onLine (k.skip (v.length + 2)) n [.scalar (.ofChars v) true]) := by
  obtain ⟨c, s, rfl⟩ := exists_cons_of_isPlainLine hv
  obtain ⟨hbegins, hsp, hhash⟩ := beginsPlain_append (r := r) hv
  have hrest : (k.skip 1).rest = c :: s ++ '\n' :: r := by
    rw [Cursor.skip_rest, hr]
    rfl
  have hcolumn : 1 ≤ (k.skip 1).column := by
    have hskip : k.skip 1 = k.past ' ' := Cursor.skip_cons hr 0
    rw [hskip]
    change 1 ≤ k.column + 1
    omega
  have htok : (onValue k n []).toToken = onValue (k.skip 1) n [] := by
    have hmark : k.at? byteOrderMark = false := Cursor.at?_of_ne hr (by decide)
    rw [toToken_of_blanks (b := [' ']) (r := c :: s ++ '\n' :: r) (by exact hr) hmark (by simp)
      (by simp [beginsToken, hsp, hhash])]
    rfl
  have hmore : (onValue k n []).more =
      .ok (onLine (k.skip ((c :: s).length + 2)) n [.scalar (.ofChars (c :: s)) true]) := by
    unfold more
    rw [htok, dropStale_of_none rfl, ok_bind]
    dsimp only
    rw [unwind_of_le (by simp [column, onValue]), show (onValue (k.skip 1) n []).cursor.rest = _ from hrest,
      List.cons_append]
    dsimp only
    rw [read_of_beginsPlain (by exact hrest) rfl hbegins
      (fun h0 => by change (k.skip 1).column = 0 at h0; omega)]
    unfold readPlain
    have hsave : (onValue (k.skip 1) n []).saveKey = .ok (onValue (k.skip 1) n []) := rfl
    rw [hsave, ok_bind]
    dsimp only [onValue]
    rw [show ((0 : Nat) != 0) = false from rfl, show (0 : Int) + 1 = 1 from rfl,
      plain_line hrest hv hcolumn hnext, Cursor.skip_skip,
      show 1 + ((c :: s).length + 1) = (c :: s).length + 2 by omega]
    rfl
  unfold ready
  rw [if_neg (by simp [onValue]), readyFrom_of_more rfl rfl hmore]
  exact readyFrom_of_tokens rfl (by simp [onLine])

/-- No value before the end of the text ends the dictionary. -/
lemma ready_onValue_end (hr : k.rest = [' ', '\n']) :
    (onValue k n []).ready = .ok ⟨k.skip 2, [.blockEnd], n, true, [], -1, [], 0, false⟩ := by
  have htok : (onValue k n []).toToken = { onValue (k.skip 2) n [] with keyAllowed := true } := by
    have hmark : k.at? byteOrderMark = false := Cursor.at?_of_ne hr (by decide)
    have hblank : (k.after (· == ' ')).pastComment = k.skip 1 := by
      have hafter : k.after (· == ' ') = k.skip 1 := by
        rw [Cursor.after_eq, hr]
        rfl
      unfold Cursor.pastComment Cursor.at?
      rw [hafter, Cursor.skip_rest, hr]
      rfl
    have hbreak : (k.skip 1).atBreak = true := by
      unfold Cursor.atBreak
      rw [Cursor.skip_rest, hr]
      rfl
    have hnext : pastBlanks 2 (k.skip 2) = (k.skip 2, false) :=
      pastBlanks_of_blanks (b := []) (r := []) (by rw [Cursor.skip_rest, hr]; rfl) (by simp) rfl
    unfold toToken onValue
    dsimp only
    rw [hmark, Bool.and_false, if_neg Bool.false_ne_true, hr]
    unfold pastBlanks
    dsimp only [List.length_cons, List.length_nil]
    rw [hblank, hbreak, if_pos rfl, Cursor.skip_skip, hnext]
    rfl
  have hrest : (onValue (k.skip 2) n []).cursor.rest = [] := by
    change (k.skip 2).rest = []
    rw [Cursor.skip_rest, hr]
    rfl
  have hmore : (onValue k n []).more = .ok ⟨k.skip 2, [.blockEnd], n, true, [], -1, [], 0, false⟩ := by
    unfold more
    rw [htok, dropStale_of_none rfl, ok_bind]
    dsimp only
    rw [unwind_of_le (by simp [column, onValue]), hrest]
    rfl
  unfold ready
  rw [if_neg (by simp [onValue]), readyFrom_of_more rfl rfl hmore]
  rfl

end Lexer

end Horn.Yaml

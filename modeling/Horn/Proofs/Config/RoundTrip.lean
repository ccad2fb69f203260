import Horn.Proofs.Config.Entries
import Horn.Proofs.Yaml.Display
import Horn.Proofs.Yaml.LastLine

/-!
Settings written to a file and loaded again. Main statement: settings whose marker may stand as a plain
scalar on one line come back if and only if the marker is the text of what it stands for, and of all others
only such can whose marker is written like bytes, a list or a dictionary.
-/

namespace Horn.Config

open Yaml

def keyOf (s : Setting) : List Char := s.spellings.1.toList

def limitLines (n : Int) (t : Option Int) : List Line :=
  (keyOf .resourceLimit, Decimal.ofInt n) :: (t.map fun t => (keyOf .timeout, Decimal.ofInt t)).toList

def lines (n : Int) (t : Option Int) (m : List Char) : List Line :=
  limitLines n t ++ [(keyOf .marker, m)]

def ofInts (n : Int) (t : Option Int) (m : String) : Config := ⟨.int n, t.map .int, .text m⟩

/-- The limits are positive integers that fit. -/
structure Limits (n : Int) (t : Option Int) : Prop where
  resource : 0 < n ∧ Decimal.fits n = true
  timeout : ∀ i ∈ t, 0 < i ∧ Decimal.fits i = true

def title : List Char := " .chc.yml: CHC session configuration".toList

variable {n : Int} {t : Option Int} {m : String}

/-- The file holds a line for each setting, after a line of comment. -/
lemma fileText_ofInts (h : Limits n t) : ∃ s, (ofInts n t m).fileText = .ok s ∧
    s.toList = linesText title (lines n t m.toList) := by
  obtain ⟨⟨-, hn⟩, ht⟩ := h
  have hfits : ((ofInts n t m).resourceLimit.fits && (ofInts n t m).timeout.all Value.fits &&
      (ofInts n t m).marker.fits) = true := by
    rcases t with _ | i
    · simp [ofInts, Value.fits, hn]
    · simp [ofInts, Value.fits, hn, (ht i rfl).2]
  unfold fileText
  rw [if_pos hfits]
  refine ⟨_, rfl, ?_⟩
  unfold linesText title lines limitLines keyOf
  rcases t with _ | i
  · simp [ofInts, Setting.spellings, Line.text, Value.display, Value.literal, Decimal.text]
  · simp [ofInts, Setting.spellings, Line.text, Value.display, Value.literal, Decimal.text]

/-! ### The lines -/

lemma isKey_keyOf (s : Setting) : Lexer.IsKey (keyOf s) := by
  have hall : ((keyOf s).head?.any Char.isAlphanum && goesOn (keyOf s) && !(keyOf s).contains ' ' &&
      decide ((keyOf s).length ≤ Lexer.maxKeyLength)) = true := by
    cases s <;> decide
  obtain ⟨⟨⟨hhead, hgo⟩, hblank⟩, hlen⟩ : (((keyOf s).head?.any Char.isAlphanum = true ∧
      goesOn (keyOf s) = true) ∧ ' ' ∉ keyOf s) ∧ (keyOf s).length ≤ Lexer.maxKeyLength := by
    simpa using hall
  exact ⟨hhead, hgo, hblank, hlen⟩

/-- What holds of the line of each limit holds of all their lines. -/
lemma forall_limitLines {p : Line → Prop} (hlimit : p (keyOf .resourceLimit, Decimal.ofInt n))
    (htimeout : ∀ i ∈ t, p (keyOf .timeout, Decimal.ofInt i)) : ∀ e ∈ limitLines n t, p e := by
  rcases t with _ | i
  · simp [limitLines, hlimit]
  · simp [limitLines, hlimit, htimeout i rfl]

lemma forall_lines {p : Line → Prop} (hlimits : ∀ e ∈ limitLines n t, p e)
    (hmarker : p (keyOf .marker, m.toList)) : ∀ e ∈ lines n t m.toList, p e := by
  intro e he
  rcases List.mem_append.mp he with he | he
  · exact hlimits e he
  · rw [List.mem_singleton] at he
    rwa [he]

lemma fit_lines (h : Limits n t) (hm : isPlainLine m.toList = true ∨ m.toList = []) :
    Line.Fit (lines n t m.toList) := by
  have hmarker : Line.Fit [(keyOf .marker, m.toList)] :=
    ⟨isKey_keyOf _, hm.imp_right fun h => ⟨h, rfl⟩, trivial⟩
  have hlimit : ∀ (s : Setting) {i : Int} {es : List Line}, 0 < i → Line.Fit es →
      Line.Fit ((keyOf s, Decimal.ofInt i) :: es) := fun s i es hi hes =>
    ⟨isKey_keyOf s, .inl (isPositive_ofInt hi).isPlainLine, hes⟩
  rcases t with _ | i
  · exact hlimit _ h.resource.1 hmarker
  · exact hlimit _ h.resource.1 (hlimit _ (h.timeout i rfl).1 hmarker)

lemma implicitTag_keyOf (s : Setting) : implicitTag (.ofChars (keyOf s)) = textTag := by
  cases s <;> decide

lemma hasTextKey_lines : ∀ e ∈ lines n t m.toList, e.HasTextKey :=
  forall_lines (forall_limitLines (implicitTag_keyOf _) fun _ _ => implicitTag_keyOf _) (implicitTag_keyOf _)

/-- The lines have keys of different settings. -/
lemma keyValue_lines : ((lines n t m.toList).map Line.keyValue).Pairwise
    fun k l => k.sameKey l = false := by
  rcases t with _ | i
  · simp [lines, limitLines, Line.keyValue, keyOf, sameKey_text, Setting.spellings]
  · simp [lines, limitLines, Line.keyValue, keyOf, sameKey_text, Setting.spellings]

lemma isRead_keyOf (s : Setting) : ∀ c ∈ keyOf s, IsRead c := by
  intro c hc
  have hall : ((keyOf s).all fun c => isAllowed c && c != '\r') = true := by
    cases s <;> decide
  simpa [IsRead] using List.all_eq_true.mp hall c hc

lemma isRead_text {e : Line} (hkey : ∀ c ∈ e.1, IsRead c) (hvalue : ∀ c ∈ e.2, IsRead c) :
    ∀ c ∈ e.text, IsRead c := by
  intro c hc
  simp only [Line.text, List.mem_append, List.mem_cons, List.not_mem_nil, or_false] at hc
  rcases hc with hc | rfl | rfl | hc | rfl
  · exact hkey c hc
  · exact ⟨by decide, by decide⟩
  · exact ⟨by decide, by decide⟩
  · exact hvalue c hc
  · exact ⟨by decide, by decide⟩

lemma isRead_lines {es : List Line} (hes : ∀ e ∈ es, ∀ c ∈ e.text, IsRead c) :
    ∀ c ∈ linesText title es, IsRead c := by
  have htitle : (('#' :: title ++ ['\n']).all fun c => isAllowed c && c != '\r') = true := by decide
  intro c hc
  rw [linesText, List.append_cons, List.mem_append, List.mem_flatMap] at hc
  obtain hc | ⟨e, he, hc⟩ := hc
  · simpa [IsRead] using List.all_eq_true.mp htitle c hc
  · exact hes e he c hc

lemma isRead_limitLines : ∀ e ∈ limitLines n t, ∀ c ∈ e.text, IsRead c :=
  forall_limitLines (isRead_text (isRead_keyOf _) (inline_ofInt n).allowed)
    fun i _ => isRead_text (isRead_keyOf _) (inline_ofInt i).allowed

lemma allowed_lines (hm : Inline m.toList) :
    ∀ c ∈ linesText title (lines n t m.toList), IsRead c :=
  isRead_lines (forall_lines isRead_limitLines (isRead_text (isRead_keyOf _) hm.allowed))

/-! ### Loading -/

def markerId (t : Option Int) : Nat := if t.isSome then 6 else 4

def parts (n : Int) (t : Option Int) (v : Value) : List (Value × Part) :=
  (.text Setting.resourceLimit.spellings.1, .leaf (.int n)) ::
    (t.map fun i => (.text Setting.timeout.spellings.1, .leaf (.int i))).toList ++
      [(.text Setting.marker.spellings.1, .leaf v)]

lemma keyValue_keyOf (s : Setting) (v : List Char) :
    Line.keyValue (keyOf s, v) = .text s.spellings.1 := by
  rw [Line.keyValue, keyOf, String.ofList_toList]

/-- The limits stand for themselves, and the marker for what its text says. -/
lemma entries_lines (h : Limits n t) : Line.entries 1 (lines n t m.toList) = (do
    let v ← plainValue (markerId t) m.toList
    return parts n t v) := by
  have hn : ∀ id, plainValue id (Decimal.ofInt n) = .ok (.int n) := fun id =>
    plainValue_ofInt id h.resource.1 h.resource.2
  rcases t with _ | i
  · rw [show markerId none = 4 from rfl]
    simp only [lines, limitLines, Option.map_none, Option.toList_none, List.cons_append, List.nil_append, Line.entries,
      hn, ok_bind, keyValue_keyOf]
    rcases plainValue 4 m.toList with f | v <;> rfl
  · have hi : ∀ id, plainValue id (Decimal.ofInt i) = .ok (.int i) := fun id =>
      plainValue_ofInt id (h.timeout i rfl).1 (h.timeout i rfl).2
    rw [show markerId (some i) = 6 from rfl]
    simp only [lines, limitLines, Option.map_some, Option.toList_some, List.cons_append, List.nil_append, Line.entries,
      hn, hi, ok_bind, keyValue_keyOf]
    rcases plainValue 6 m.toList with f | v <;> rfl

def entries (n : Int) (t : Option Int) (v : Value) : List (Value × Value) :=
  (.text Setting.resourceLimit.spellings.1, .int n) ::
    (t.map fun i => (.text Setting.timeout.spellings.1, .int i)).toList ++
      [(.text Setting.marker.spellings.1, v)]

lemma given?_entries (v : Value) : given? (entries n t v) .resourceLimit = some (.int n) ∧
    given? (entries n t v) .timeout = t.map .int ∧ given? (entries n t v) .marker = some v := by
  rcases t with _ | i
  · simp [entries, given?, Value.lookup, Setting.spellings]
  · simp [entries, given?, Value.lookup, Setting.spellings]

lemma entriesOf_parts (v : Value) :
    entriesOf ⟨.ref 0, [(0, .dict (parts n t v))]⟩ = .ok (entries n t v) := by
  have hsetting : ∀ s : Setting, isSetting (.text s.spellings.1) = true := by
    intro s
    cases s <;> decide
  unfold entriesOf
  dsimp only [List.lookup]
  rcases t with _ | i
  · simp [parts, entries, hsetting, Graph.unroll, Graph.unrollIn]
  · simp [parts, entries, hsetting, Graph.unroll, Graph.unrollIn]

/-- The settings that these entries make. -/
lemma ofEntries_entries (h : Limits n t) (v : Value) : ofEntries (entries n t v) =
    if v.fits then .ok ⟨.int n, t.map .int, v.toText⟩ else .error .tooManyDigits := by
  have hchecked : checked ⟨.int n, t.map .int, v.toText⟩ = .ok ⟨.int n, t.map .int, v.toText⟩ :=
    checked_eq_ok_iff.mpr ⟨⟨h.resource.1, fun i hi => (h.timeout i hi).1⟩, rfl⟩
  obtain ⟨hn, ht, hv⟩ := given?_entries (n := n) (t := t) v
  have htimeout : (timeoutOf ((t.map Value.int).getD .null)).mapM limit =
      (.ok (t.map .int) : Except ConfigError (Option Value)) := by
    rcases t with _ | i <;> rfl
  unfold ofEntries
  rw [hn, ht, hv, htimeout]
  change (if v.fits = true then checked ⟨.int n, t.map .int, v.toText⟩ else .error .tooManyDigits) = _
  rw [hchecked]

def ofSettings (es : List (Value × Value)) : Except LoadError Config :=
  match ofEntries es with
  | .ok c => .ok c
  | .error e => .error (.config e)

/-- What is loaded if the marker stands for a value, or for none. -/
def ofMarker (n : Int) (t : Option Int) : Except Fault Value → Except LoadError Config
  | .error f => .error (.document f)
  | .ok v => if v.fits then .ok ⟨.int n, t.map .int, v.toText⟩ else .error (.config .tooManyDigits)

/-- **What is loaded from a file whose marker stands on one line**: the marker is what its text says. -/
theorem load_of_inline (h : Limits n t) (hm : Inline m.toList) {s : String}
    (hs : (ofInts n t m).fileText = .ok s) :
    load [(".chc.yml", s)] = ofMarker n t (plainValue (markerId t) m.toList) := by
  obtain ⟨s', hs', htext⟩ := fileText_ofInts (m := m) h
  obtain rfl : s = s' := Except.ok.inj (hs.symm.trans hs')
  have hcontent := content_of_text htext (allowed_lines hm) (by decide) (by simp [lines, limitLines])
    (fit_lines h hm.plain) hasTextKey_lines keyValue_lines
  rw [entries_lines h] at hcontent
  change ofFile s = _
  unfold ofFile ofMarker
  rcases hv : plainValue (markerId t) m.toList with f | v
  · rw [hcontent, hv]
    rfl
  · rw [hcontent, hv]
    change (entriesOf ⟨.ref 0, [(0, .dict (parts n t v))]⟩ >>= ofSettings) = _
    rw [entriesOf_parts]
    change ofSettings (entries n t v) = _
    unfold ofSettings
    rw [ofEntries_entries h]
    dsimp only
    by_cases hfits : v.fits = true
    · rw [if_pos hfits, if_pos hfits]
    · rw [if_neg hfits, if_neg hfits]

/-- The settings come back from a file that they are written to. -/
def RoundTrips (c : Config) : Prop :=
  ∃ s d, c.fileText = .ok s ∧ load [(".chc.yml", s)] = .ok d ∧ c.same d = true

lemma same_ofInts (u : Value) : (ofInts n t m).same ⟨.int n, t.map .int, u⟩ = true ↔
    (Value.text m).same u = true := by
  have hint : ∀ i : Int, (Value.int i).same (.int i) = true := fun i => by
    simp [Value.same, Value.sameLeaf, Value.asNumber?, Value.sameNumber]
  have htimeout : ((t.map Value.int).getD .null).same ((t.map Value.int).getD .null) = true := by
    rcases t with _ | i
    · simp [Value.same, Value.sameLeaf]
    · exact hint i
  unfold same ofInts
  rw [hint, htimeout, Bool.true_and, Bool.true_and]

lemma same_toText (v : Value) : (Value.text m).same v.toText = true ↔ v.toText = .text m := by
  have htext : ∀ a : String, (Value.text m).same (.text a) = true ↔ Value.text a = .text m := by
    intro a
    have hsame : (Value.text m).same (.text a) = (m == a) := by simp [Value.same, Value.sameLeaf]
    rw [hsame, beq_iff_eq, Value.text.injEq]
    exact eq_comm
  have hpoints : ∀ p, (Value.text m).same (.points p) = false := by
    intro p
    simp [Value.same, Value.sameLeaf, Value.asNumber?]
  unfold Value.toText
  split
  · rw [hpoints]
    simp
  · exact htext _

/-- **Settings whose marker stands on one line come back if and only if the marker is the text of what it
stands for.** -/
theorem roundTrips_of_inline (h : Limits n t) (hm : Inline m.toList) : RoundTrips (ofInts n t m) ↔
    ∃ v, plainValue (markerId t) m.toList = .ok v ∧ v.fits = true ∧ v.toText = .text m := by
  constructor
  · rintro ⟨s, d, hs, hload, hsame⟩
    rw [load_of_inline h hm hs] at hload
    rcases hv : plainValue (markerId t) m.toList with f | v
    · rw [hv] at hload
      cases hload
    · rw [hv, ofMarker] at hload
      split_ifs at hload with hfits
      obtain rfl := Except.ok.inj hload
      exact ⟨v, rfl, hfits, (same_toText v).mp ((same_ofInts _).mp hsame)⟩
  · rintro ⟨v, hv, hfits, htext⟩
    obtain ⟨s, hs, -⟩ := fileText_ofInts (m := m) h
    refine ⟨s, _, hs, ?_, (same_ofInts v.toText).mpr ((same_toText v).mpr htext)⟩
    rw [load_of_inline h hm hs, hv, ofMarker, if_pos hfits]

/-! ### Any marker -/

/-- The text is the marker only if that may stand on one line. -/
def Good (m : List Char) (p : Text.Points) : Prop := p = .ofChars m → Inline m

lemma ofChars_injective {a b : List Char} (h : Text.Points.ofChars a = .ofChars b) : a = b := by
  rw [← Text.Points.chars_ofChars a, h, Text.Points.chars_ofChars]

lemma good_of_inline {a b : List Char} (h : Inline a) : Good b (.ofChars a) := by
  intro heq
  rwa [← ofChars_injective heq]

/-- A text is read as the marker only where that may stand on one line. -/
lemma covers_marker {s a : List Char} (hlen : s.length ≤ a.length) (hs : ∀ c ∈ s, IsRead c) :
    Lexer.Covers (Good a) s := by
  refine ⟨fun p hp heq => ?_, fun hline => good_of_inline ⟨.inl hline, hs⟩⟩
  rw [heq, length_ofChars] at hp
  omega

lemma inline_keyOf (s : Setting) : Inline (keyOf s) :=
  ⟨.inl (Lexer.isPlainLine_of_isAlphanum (isKey_keyOf s).head (isKey_keyOf s).goesOn), isRead_keyOf s⟩

lemma has_limitLines (h : Limits n t) (a : List Char) : ∀ e ∈ limitLines n t, e.Has (Good a) := by
  have hline : ∀ (s : Setting) {i : Int}, 0 < i → Line.Has (Good a) (keyOf s, Decimal.ofInt i) := fun s i hi =>
    ⟨isKey_keyOf s, (isPositive_ofInt hi).isPlainLine, good_of_inline (inline_keyOf s),
      good_of_inline (inline_ofInt i)⟩
  exact forall_limitLines (hline _ h.resource.1) fun i hi => hline _ (h.timeout i hi).1

section

variable {good : Text.Points → Prop}

/-- A list or a dictionary of a document is no text. -/
lemma valueHas_unroll {g : Yaml.Graph} {p : Part} (hp : p.Has good) : ValueHas good (g.unroll p) := by
  rcases p with v | id
  · exact hp v rfl
  · intro s hs
    unfold Graph.unroll Graph.unrollIn at hs
    rw [if_neg (by simp)] at hs
    dsimp only at hs
    split at hs <;> cases hs

lemma valueHas_entriesOf {c : Content} {es : List (Value × Value)} (hc : ∀ e ∈ c.graph, e.2.Has good)
    (h : entriesOf c = .ok es) : ∀ e ∈ es, ValueHas good e.2 := by
  unfold entriesOf at h
  split at h
  · split at h
    · cases h
    · cases h
      simp
  · split at h
    · rename_i id _ _ fs hfs
      cases h
      obtain ⟨_, _, hgraph, -⟩ := List.lookup_eq_some_iff.mp hfs
      intro e he
      obtain ⟨f, hf, rfl⟩ := List.mem_map.mp he
      exact valueHas_unroll (hc (id, .dict fs) (by rw [hgraph]; simp) fs rfl f (List.mem_of_mem_filter hf))
    · split at h
      · cases h
        simp
      · cases h
    · cases h
      simp

lemma mem_of_lookup {es : List (Value × Value)} {key : String} {v : Value}
    (h : Value.lookup es key = some v) : ∃ e ∈ es, e.2 = v := by
  obtain ⟨e, he, rfl⟩ := Option.map_eq_some_iff.mp h
  exact ⟨e, List.mem_of_find?_eq_some he, rfl⟩

lemma valueHas_marker {es : List (Value × Value)} (hes : ∀ e ∈ es, ValueHas good e.2)
    (hdefault : ValueHas good default.marker) :
    ValueHas good ((given? es .marker).getD default.marker) := by
  rcases h : given? es .marker with _ | v
  · exact hdefault
  · rcases Option.or_eq_some_iff.mp h with h | ⟨-, h⟩
    all_goals
      obtain ⟨e, he, rfl⟩ := mem_of_lookup h
      exact hes e he

lemma marker_ofEntries {es : List (Value × Value)} {d : Config} (h : ofEntries es = .ok d) :
    d.marker = ((given? es .marker).getD default.marker).toText := by
  obtain ⟨n, t, -, -, -, -, rfl⟩ := ofEntries_eq_ok_iff.mp h
  rfl

/-- The marker that is loaded is the text of a value that the file says, or the one by default. -/
lemma marker_of_load {s : String} {d : Config}
    (hcontent : ∀ c, Content.ofText s = .ok (some c) → ∀ e ∈ c.graph, e.2.Has good)
    (hdefault : ValueHas good default.marker) (h : load [(".chc.yml", s)] = .ok d) :
    ∃ v, ValueHas good v ∧ d.marker = v.toText := by
  change ofFile s = .ok d at h
  unfold ofFile at h
  rcases ho : Content.ofText s with f | o
  · rw [ho] at h
    cases h
  · rw [ho] at h
    obtain ⟨es, hes, h⟩ := bind_eq_ok h
    have hhas : ∀ e ∈ es, ValueHas good e.2 := by
      rcases o with _ | c
      · cases hes
        simp
      · exact valueHas_entriesOf (hcontent c ho) hes
    rcases hd : ofEntries es with e | d'
    · rw [hd] at h
      cases h
    · rw [hd] at h
      cases h
      exact ⟨_, valueHas_marker hhas hdefault, marker_ofEntries hd⟩

end

lemma good_default (a : List Char) : ValueHas (Good a) default.marker := by
  intro s hs
  cases hs
  exact good_of_inline (inline_of_isAlphanum (by decide))

/-- **Which settings come back.** A marker that may stand on one line comes back if and only if it is the text
of what it stands for as a plain scalar. Of all others only such can come back as bytes, a list or a
dictionary are written. -/
theorem roundTrips_marker (h : Limits n t) :
    (Inline m.toList → (RoundTrips (ofInts n t m) ↔
      ∃ v, plainValue (markerId t) m.toList = .ok v ∧ v.fits = true ∧ v.toText = .text m)) ∧
    (RoundTrips (ofInts n t m) → Inline m.toList ∨ ∃ v, isMarked v = true ∧ v.display = m) := by
  refine ⟨roundTrips_of_inline h, fun hr => ?_⟩
  obtain ⟨s, d, hs, hload, hsame⟩ := hr
  obtain ⟨s', hs', htext⟩ := fileText_ofInts (m := m) h
  obtain rfl : s = s' := Except.ok.inj (hs.symm.trans hs')
  have hkey := good_of_inline (b := m.toList) (inline_keyOf .marker)
  have hreturn : '\r' ∉ linesText title (limitLines n t) := fun hmem =>
    (isRead_lines isRead_limitLines _ hmem).2 rfl
  have hcontent : ∀ c, Content.ofText s = .ok (some c) → ∀ e ∈ c.graph, e.2.Has (Good m.toList) := fun c hc =>
    content_has htext (fun _ => covers_marker) (good_of_inline (a := []) ⟨.inr rfl, by simp⟩)
      (isKey_keyOf .marker) hkey (by decide) (has_limitLines h _) hreturn
      (fun hmem => (isRead_keyOf .marker _ hmem).2 rfl) hc
  obtain ⟨v, hv, hmarker⟩ := marker_of_load hcontent (good_default _) hload
  have hwritten : v.toText = .text m := by
    rw [same, Bool.and_eq_true, hmarker] at hsame
    exact (same_toText v).mp hsame.2
  have hpoints : ∀ p, v ≠ .points p := by
    rintro p rfl
    cases hwritten
  have hdisplay : v.display = m := by
    unfold Value.toText at hwritten
    split at hwritten
    · cases hwritten
    · exact Value.text.inj hwritten
  by_cases htextual : ∃ a, v = .text a
  · obtain ⟨a, rfl⟩ := htextual
    obtain rfl : a = m := hdisplay
    exact .inl (hv a rfl rfl)
  · rcases hmarked : isMarked v
    · rw [← hdisplay]
      exact .inl (inline_display hmarked (fun a ha => htextual ⟨a, ha⟩) hpoints)
    · exact .inr ⟨v, hmarked, hdisplay⟩

/-- A marker of letters comes back. -/
theorem roundTrips_summary : Limits 1000000 (some 5000) ∧ Inline "summary".toList ∧
    RoundTrips (ofInts 1000000 (some 5000) "summary") := by
  have h : Limits 1000000 (some 5000) :=
    ⟨⟨by decide, by decide +kernel⟩, fun i hi => by cases hi; exact ⟨by decide, by decide +kernel⟩⟩
  have hm : Inline "summary".toList := inline_of_isAlphanum (by decide)
  exact ⟨h, hm, ((roundTrips_marker h).1 hm).mpr ⟨.text "summary", rfl, rfl, rfl⟩⟩

/-- A marker that stands for a truth value comes back as another text. -/
theorem truth_marker_lost : ¬ RoundTrips (ofInts 1000000 none "yes") := by
  have h : Limits 1000000 none := ⟨⟨by decide, by decide +kernel⟩, fun i hi => by cases hi⟩
  rw [roundTrips_of_inline h (inline_of_isAlphanum (by decide))]
  rintro ⟨v, hv, -, htext⟩
  obtain rfl : Value.bool true = v := Except.ok.inj hv
  exact absurd (Value.text.inj htext) (by decide)

end Horn.Config

import Horn.Proofs.Yaml.Line
import Horn.Yaml.Node

/-!
The nodes of a dictionary whose entries stand on one line each. Main statement: a text of such lines, after
a line of comment, spells a dictionary with a plain scalar for each key and each value.
-/

namespace Horn.Yaml

open Lexer

namespace Reading

variable {β : Type} {r : Reader} {l : Lexer}

lemma head?_run (h : r.lexer.ready = .ok l) :
    head? r = .ok (l.tokens.head?, { r with lexer := l }) := by
  have hlift : (liftM r.lexer.ready : Reading Lexer) r = .ok (l, r) := by
    change (r.lexer.ready >>= fun l => Except.ok (l, r)) = _
    rw [h]
    rfl
  unfold head?
  rw [bind_run (show (get : Reading Reader) r = .ok (r, r) from rfl), bind_run hlift]
  rfl

lemma sees_run {ts : List Token} (h : r.lexer.ready = .ok l) :
    sees ts r = .ok (l.tokens.head?.any ts.contains, { r with lexer := l }) := by
  unfold sees
  rw [bind_run (head?_run h)]
  rfl

lemma take_bind {f : Unit → Reading β} :
    (Reading.take >>= f) r = f () { r with lexer := r.lexer.take } := rfl

end Reading

open Yaml.Reading

def Node.ofPlain (s : List Char) : Node := ⟨implicitTag (.ofChars s), .scalar (.ofChars s)⟩

variable {r : Reader} {l : Lexer} {s : List Char} {ts : List Token}

/-- A plain scalar that comes next is read as its node. -/
lemma Node.read_plain {inBlock inDict : Bool} {n : Nat} (h : r.lexer.ready = .ok l)
    (hp : l.pending = []) (ht : l.tokens = .scalar (.ofChars s) true :: ts) :
    Node.read inBlock inDict (n + 1) r = .ok (r.nodes.size,
      { r with lexer := l.take, nodes := r.nodes.push (.ofPlain s) }) := by
  have hready : l.ready = .ok l := ready_of_tokens hp (by simp [ht])
  have hhead : ∀ r' : Reader, r'.lexer = l → head? r' = .ok (some (.scalar (.ofChars s) true), r') := by
    rintro r' rfl
    rw [head?_run hready, ht]
    rfl
  have hprops : ∀ r' : Reader, r'.lexer = l → Properties.read r' = .ok (⟨none, none⟩, r') := by
    intro r' hr'
    unfold Properties.read
    rw [bind_run (hhead r' hr')]
    rfl
  have hl : head? r = .ok (some (.scalar (.ofChars s) true), { r with lexer := l }) := by
    rw [head?_run h, ht]
    rfl
  unfold Node.read
  rw [bind_run hl]
  dsimp only
  rw [bind_run (hprops _ rfl), bind_run (hhead _ rfl)]
  rfl

/-- The tokens that may stand in place of a value. -/
def stopTokens : List Token := [.key, .value, .blockEnd]

lemma part_of_not_sees {m : Reading Nat} (h : r.lexer.ready = .ok l)
    (ht : l.tokens.head?.any ts.contains = false) :
    Node.part ts m r = m { r with lexer := l } := by
  unfold Node.part
  rw [bind_run (sees_run h), ht]
  rfl

variable {k : Cursor} {n m : Nat} {key v t : List Char}

/-- The key of an entry is read, and its colon. -/
lemma entries_key (h : r.lexer.ready = .ok (onValue k n [.key, .scalar (.ofChars key) true, .value])) :
    Node.entries (m + 2) r = (do
      let v ← Node.part stopTokens (Node.read true true (m + 1))
      return (r.nodes.size, v) :: (← Node.entries (m + 1)))
      { r with lexer := onValue k (n + 3) [], nodes := r.nodes.push (.ofPlain key) } := by
  have hready : ∀ n t ts, (onValue k n (t :: ts)).ready = .ok (onValue k n (t :: ts)) := fun n t ts =>
    ready_of_tokens rfl (by simp [onValue])
  have hkey : ∀ ns : Array Node, Node.part stopTokens (Node.read true true (m + 1))
      { r with lexer := onValue k (n + 1) [.scalar (.ofChars key) true, .value], nodes := ns } =
      .ok (ns.size,
        { r with lexer := onValue k (n + 2) [.value], nodes := ns.push (.ofPlain key) }) := by
    intro ns
    rw [part_of_not_sees (hready _ _ _) rfl, Node.read_plain (hready _ _ _) rfl rfl, take_onValue]
  rw [Node.entries, bind_run (sees_run h)]
  dsimp only
  rw [if_pos (by rfl), take_bind]
  dsimp only
  rw [take_onValue, ← stopTokens, bind_run (hkey r.nodes), Node.valueOf]
  simp only [bind_assoc]
  rw [bind_run (sees_run (hready _ _ _)), if_pos (by rfl), bind_assoc, take_bind]
  rfl

/-- **An entry on one line is read as two nodes.** -/
lemma entries_line (h : r.lexer.ready = .ok (onValue k n [.key, .scalar (.ofChars key) true, .value]))
    (hk : k.rest = ' ' :: v ++ '\n' :: t) (hv : isPlainLine v = true) (ht : beginsLine t = true) :
    Node.entries (m + 2) r = (do return (r.nodes.size, r.nodes.size + 1) :: (← Node.entries (m + 1)))
      { r with lexer := onLine (k.skip (v.length + 2)) (n + 4) []
               nodes := (r.nodes.push (.ofPlain key)).push (.ofPlain v) } := by
  have hready := ready_onValue (n := n + 3) hk hv ht
  rw [entries_key h, bind_run (a := r.nodes.size + 1) ?_]
  rw [part_of_not_sees hready rfl, Node.read_plain (ready_of_tokens rfl (by simp [onLine])) rfl rfl]
  simp

/-! ### Several lines -/

abbrev Line := List Char × List Char

namespace Line

/-- Each line holds a key and a value, but the last one may hold no value. -/
def Fit : List Line → Prop
  | [] => True
  | e :: es => IsKey e.1 ∧ (isPlainLine e.2 = true ∨ e.2 = [] ∧ es = []) ∧ Fit es

def text (e : Line) : List Char := e.1 ++ ':' :: ' ' :: (e.2 ++ ['\n'])

def nodes (es : List Line) : List Node := es.flatMap fun e => [.ofPlain e.1, .ofPlain e.2]

def numbers : Nat → List Line → List (Nat × Nat)
  | _, [] => []
  | n, _ :: es => (n, n + 1) :: numbers (n + 2) es

lemma beginsLine_text {es : List Line} (h : Fit es) : beginsLine (es.flatMap text) = true := by
  rcases es with _ | ⟨⟨key, v⟩, es⟩
  · rfl
  · rw [List.flatMap_cons, text, List.append_assoc]
    exact beginsLine_append h.1.head _

lemma length_le_text (es : List Line) : es.length ≤ (es.flatMap text).length := by
  induction es with
  | nil => exact Nat.le_refl 0
  | cons e es ih =>
    rw [List.flatMap_cons, List.length_append, List.length_cons]
    have : 1 ≤ e.text.length := by simp [text]; omega
    omega

end Line

structure Lexer.Ended (l : Lexer) : Prop where
  done : l.done = true
  tokens : l.tokens = []

lemma Lexer.Ended.ready (h : l.Ended) : l.ready = .ok l := by
  unfold Lexer.ready
  rw [h.done, Bool.true_or, if_pos rfl]

/-- The end of the dictionary is read. -/
lemma entries_end (h : r.lexer.ready = .ok ⟨k, [.blockEnd], n, true, [], -1, [], 0, false⟩) :
    Node.entries (m + 1) r =
      .ok ([], { r with lexer := ⟨k, [], n + 1, true, [], -1, [], 0, false⟩ }) := by
  rw [Node.entries, bind_run (sees_run h)]
  dsimp only
  rw [if_neg (by simp)]
  unfold expect
  rw [bind_run (t := { r with lexer := ⟨k, [], n + 1, true, [], -1, [], 0, false⟩ }) (a := ())]
  · rfl
  · rw [bind_run (sees_run rfl)]
    rfl

/-- A last entry without a value is read as two nodes, of which the second is empty. -/
lemma entries_none (h : r.lexer.ready = .ok (onValue k n [.key, .scalar (.ofChars key) true, .value]))
    (hk : k.rest = [' ', '\n']) : Node.entries (m + 2) r = .ok ([(r.nodes.size, r.nodes.size + 1)],
      { r with lexer := ⟨k.skip 2, [], n + 4, true, [], -1, [], 0, false⟩
               nodes := (r.nodes.push (.ofPlain key)).push (.ofPlain []) }) := by
  have hpart : Node.part stopTokens (Node.read true true (m + 1))
      { r with lexer := onValue k (n + 3) [], nodes := r.nodes.push (.ofPlain key) } =
      .ok (r.nodes.size + 1, { r with lexer := ⟨k.skip 2, [.blockEnd], n + 3, true, [], -1, [], 0, false⟩
                                      nodes := (r.nodes.push (.ofPlain key)).push (.ofPlain []) }) := by
    unfold Node.part
    rw [bind_run (sees_run (ready_onValue_end hk)), if_pos (by rfl)]
    change Except.ok ((r.nodes.push (.ofPlain key)).size, _) = _
    rw [Array.size_push]
    rfl
  rw [entries_key h, bind_run hpart, bind_run (entries_end rfl)]
  rfl

/-- **A dictionary is read line by line.** -/
lemma entries_lines {es : List Line} (hes : Line.Fit es) (hl : r.lexer = onLine k n [])
    (hk : k.rest = es.flatMap Line.text) (hcolumn : k.column = 0) (hm : es.length ≤ m) :
    ∃ l', l'.Ended ∧ Node.entries (m + 2) r = .ok (Line.numbers r.nodes.size es,
      { r with lexer := l', nodes := r.nodes ++ (Line.nodes es).toArray }) := by
  induction es generalizing r k n m with
  | nil =>
    have hready : r.lexer.ready = .ok ⟨k, [.blockEnd], n, true, [], -1, [], 0, false⟩ := by
      rw [hl]
      exact ready_end hk hcolumn
    refine ⟨⟨k, [], n + 1, true, [], -1, [], 0, false⟩, ⟨rfl, rfl⟩, ?_⟩
    rw [entries_end hready]
    simp [Line.nodes, Line.numbers]
  | cons e es ih =>
    obtain ⟨key, v⟩ := e
    obtain ⟨he, hv, hes⟩ := hes
    obtain ⟨m, rfl⟩ : ∃ m', m = m' + 1 := Nat.exists_eq_add_of_le' (by simp at hm; omega)
    have hrest : k.rest = key ++ ':' :: ' ' :: (v ++ '\n' :: es.flatMap Line.text) := by
      rw [hk]
      simp [Line.text]
    have hready : r.lexer.ready =
        .ok (onValue (k.skip (key.length + 1)) n [.key, .scalar (.ofChars key) true, .value]) := by
      rw [hl]
      exact ready_onLine hrest he hcolumn
    have hvalue : (k.skip (key.length + 1)).rest = ' ' :: v ++ '\n' :: es.flatMap Line.text := by
      rw [← Cursor.skip_skip, Cursor.skip_rest, Cursor.skip_rest, hrest, List.drop_left]
      rfl
    rcases hv with hv | ⟨rfl, rfl⟩
    · obtain ⟨hnext, hzero⟩ := Cursor.skip_to_next hvalue
      obtain ⟨l', hend, hread⟩ := ih (r := { r with
        lexer := onLine ((k.skip (key.length + 1)).skip (v.length + 2)) (n + 4) []
        nodes := (r.nodes.push (.ofPlain key)).push (.ofPlain v) }) hes rfl hnext hzero
        (m := m) (by simpa using hm)
      refine ⟨l', hend, ?_⟩
      rw [entries_line hready hvalue hv (Line.beginsLine_text hes), bind_run hread]
      simp [Line.nodes, Line.numbers]
      rfl
    · refine ⟨⟨(k.skip (key.length + 1)).skip 2, [], n + 4, true, [], -1, [], 0, false⟩, ⟨rfl, rfl⟩, ?_⟩
      rw [entries_none hready hvalue]
      simp [Line.nodes, Line.numbers]
      rfl

/-! ### The document -/

lemma collect_run {x : Node} {parts : Reading Body} {b : Body} {r' : Reader}
    (hdepth : r.depth < Node.maxDepth)
    (h : parts { r with depth := r.depth + 1, nodes := r.nodes.push x } = .ok (b, r')) :
    Node.collect ⟨none, none⟩ x parts r = .ok (r.nodes.size, { r' with
      depth := r'.depth - 1
      nodes := r'.nodes.modify r.nodes.size fun x => { x with body := b } }) := by
  unfold Node.collect
  rw [bind_run (t := { r with nodes := r.nodes.push x }) (a := r.nodes.size) rfl,
    bind_run (show (get : Reading Reader) _ = .ok (_, _) from rfl)]
  dsimp only
  rw [if_neg (by omega)]
  rw [bind_run (a := ()) (t := { r with depth := r.depth + 1, nodes := r.nodes.push x }) rfl,
    bind_run h]
  rfl

/-- A dictionary that comes next is read with its entries. -/
lemma read_dict {es : List (Nat × Nat)} {r' : Reader} {inDict : Bool}
    (h : r.lexer.ready = .ok l) (hp : l.pending = []) (ht : l.tokens = .blockMapping :: ts)
    (hdepth : r.depth < Node.maxDepth)
    (hread : Node.entries m { r with
        lexer := l.take
        depth := r.depth + 1
        nodes := r.nodes.push ⟨dictTag, .dict []⟩ } = .ok (es, r')) :
    Node.read true inDict (m + 1) r = .ok (r.nodes.size, { r' with
      depth := r'.depth - 1
      nodes := r'.nodes.modify r.nodes.size fun x => { x with body := .dict es } }) := by
  have hready : l.ready = .ok l := ready_of_tokens hp (by simp [ht])
  have hhead : head? { r with lexer := l } = .ok (some .blockMapping, { r with lexer := l }) := by
    rw [head?_run hready, ht]
    rfl
  have hl : head? r = .ok (some .blockMapping, { r with lexer := l }) := by
    rw [head?_run h, ht]
    rfl
  have hprops : Properties.read { r with lexer := l } = .ok (⟨none, none⟩, { r with lexer := l }) := by
    unfold Properties.read
    rw [bind_run hhead]
    rfl
  unfold Node.read
  rw [bind_run hl]
  dsimp only
  rw [bind_run hprops, bind_run hhead]
  dsimp only
  rw [if_pos rfl]
  refine collect_run hdepth ?_
  exact map_run hread

/-- Nothing may follow the end of a document. -/
lemma finish_run (h : r.lexer.Ended) : Reading.finish (m + 1) n r = .ok ((), r) := by
  unfold Reading.finish
  rw [bind_run (head?_run h.ready), h.tokens]
  rfl

/-- A document that begins with a dictionary holds no directives. -/
lemma document_run {x : Nat} {r' : Reader} (h : r.lexer.ready = .ok l) (hp : l.pending = [])
    (ht : l.tokens = .blockMapping :: ts)
    (hread : Node.read true false (m + 1) { r with lexer := l, handles := coreHandles } = .ok (x, r'))
    (hend : r'.lexer.Ended) : Reading.document (m + 1) r = .ok (some x, r') := by
  have hhead : head? { r with lexer := l } = .ok (some .blockMapping, { r with lexer := l }) := by
    rw [head?_run (ready_of_tokens hp (by simp [ht])), ht]
    rfl
  have hl : head? r = .ok (some .blockMapping, { r with lexer := l }) := by
    rw [head?_run h, ht]
    rfl
  have hdirective : seesDirective { r with lexer := l } = .ok (false, { r with lexer := l }) := by
    unfold seesDirective
    rw [bind_run hhead]
    rfl
  have hstart : sees [.documentStart] { r with lexer := l } = .ok (false, { r with lexer := l }) := by
    unfold sees
    rw [bind_run hhead]
    rfl
  unfold Reading.document
  rw [bind_run hl]
  dsimp only [Option.isNone]
  rw [if_neg Bool.false_ne_true, bind_run hdirective, bind_run hstart, Bool.or_self,
    if_neg Bool.false_ne_true]
  rw [bind_run (a := ()) (t := { r with lexer := l, handles := coreHandles }) rfl, bind_run hread,
    bind_run (finish_run hend)]
  rfl

/-- The document that begins where the first key does. -/
lemma document_lines {k₀ : Cursor} {e : Line} {es : List Line} (hk₀ : k₀.rest ≠ [])
    (htok : toToken ⟨k₀, [], 0, false, [], -1, [], 0, true⟩ = ⟨k, [], 0, false, [], -1, [], 0, true⟩)
    (hk : k.rest = (e :: es).flatMap Line.text) (hcolumn : k.column = 0) (hfit : Line.Fit (e :: es))
    (hne : es ≠ []) (hm : es.length ≤ m) :
    ∃ r', Reading.document (m + 4) ⟨⟨k₀, [], 0, false, [], -1, [], 0, true⟩, 0, #[], [], []⟩ =
        .ok (some 0, r') ∧
      r'.nodes = #[⟨dictTag, .dict (Line.numbers 1 (e :: es))⟩] ++ (Line.nodes (e :: es)).toArray := by
  obtain ⟨key, v⟩ := e
  obtain ⟨he, hv, hfit⟩ := hfit
  replace hv := hv.resolve_right fun h => hne h.2
  have hrest : k.rest = key ++ ':' :: ' ' :: (v ++ '\n' :: es.flatMap Line.text) := by
    rw [hk]
    simp [Line.text]
  have hvalue : (k.skip (key.length + 1)).rest = ' ' :: v ++ '\n' :: es.flatMap Line.text := by
    rw [← Cursor.skip_skip, Cursor.skip_rest, Cursor.skip_rest, hrest, List.drop_left]
    rfl
  obtain ⟨hnext, hzero⟩ := Cursor.skip_to_next hvalue
  have hready : ready ⟨k₀, [], 0, false, [], -1, [], 0, true⟩ = .ok (onValue (k.skip (key.length + 1)) 0
      [.blockMapping, .key, .scalar (.ofChars key) true, .value]) :=
    ready_key hk₀ htok hrest he hcolumn (by decide)
  obtain ⟨l, hend, hlines⟩ := entries_lines (r := ⟨onLine ((k.skip (key.length + 1)).skip (v.length + 2)) 5 [],
    1, #[⟨dictTag, .dict []⟩, .ofPlain key, .ofPlain v], [], coreHandles⟩) hfit rfl hnext hzero hm
  have hentries : Node.entries (m + 2 + 1) ⟨onValue (k.skip (key.length + 1)) 1
      [.key, .scalar (.ofChars key) true, .value], 1, #[⟨dictTag, .dict []⟩], [], coreHandles⟩ =
      .ok (Line.numbers 1 ((key, v) :: es), ⟨l, 1, #[⟨dictTag, .dict []⟩, .ofPlain key, .ofPlain v] ++
        (Line.nodes es).toArray, [], coreHandles⟩) :=
    (entries_line (ready_of_tokens rfl (by simp [onValue])) hvalue hv
      (Line.beginsLine_text hfit)).trans (bind_run hlines)
  refine ⟨_, document_run hready rfl rfl (read_dict (ready_of_tokens rfl (by simp [onValue])) rfl rfl
    (show 0 < Node.maxDepth by decide) hentries) hend, ?_⟩
  apply Array.ext'
  simp [Line.nodes]

/-- **Lines after a line of comment spell a dictionary**, with a plain scalar for each key and value. -/
theorem document_of_lines {c : List Char} {es : List Line} (hc : Cursor.isLine c = true)
    (hlen : 1 < es.length) (hes : Line.Fit es) :
    Document.ofChars ('#' :: c ++ '\n' :: es.flatMap Line.text) =
      .ok (some ⟨#[⟨dictTag, .dict (Line.numbers 1 es)⟩] ++ (Line.nodes es).toArray, 0⟩) := by
  obtain ⟨e, es, rfl⟩ := List.exists_cons_of_length_pos (by omega : 0 < es.length)
  have hne : es ≠ [] := by
    rintro rfl
    simp at hlen
  have hstart : (Cursor.start ('#' :: c ++ '\n' :: (e :: es).flatMap Line.text)).rest =
      '#' :: c ++ '\n' :: (e :: es).flatMap Line.text := rfl
  obtain ⟨hnext, hzero⟩ := Cursor.skip_to_next hstart
  obtain ⟨m, hm, hle⟩ : ∃ m, 16 * ('#' :: c ++ '\n' :: (e :: es).flatMap Line.text).length + 64 =
      m + 4 ∧ es.length ≤ m := by
    refine ⟨_, rfl, ?_⟩
    have := Line.length_le_text es
    simp only [List.flatMap_cons, List.length_append, List.length_cons]
    omega
  have hbegins := beginsToken_of_beginsLine (Line.beginsLine_text hes)
  obtain ⟨r', hread, hnodes⟩ := document_lines (by rw [hstart]; simp)
    (toToken_of_comment (l := Lexer.start _) hstart hc hbegins rfl) hnext hzero hes hne hle
  unfold Document.ofChars
  dsimp only
  rw [hm]
  rw [show StateT.run (Reading.document (m + 4)) ⟨Lexer.start _, 0, #[], [], []⟩ = _ from hread, ok_bind,
    hnodes]
  rfl

end Horn.Yaml

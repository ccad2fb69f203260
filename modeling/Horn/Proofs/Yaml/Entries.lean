import Horn.Proofs.Yaml.Block
import Horn.Yaml.Content

/-!
The value of a dictionary whose entries stand on one line each. Main statement: its keys are the texts that
they are, and its values are what their texts stand for as plain scalars.
-/

namespace Horn.Yaml

open Making

def plainValue (id : Nat) (s : List Char) : Except Fault Value :=
  match ScalarKind.ofTag? (implicitTag (.ofChars s)) with
  | some k => k.value id (.ofChars s)
  | none => .error .malformed

namespace Line

/-- The key is a text and not one of the keys with a meaning of their own. -/
def HasTextKey (e : Line) : Prop := implicitTag (.ofChars e.1) = textTag

def keyValue (e : Line) : Value := .text (String.ofList e.1)

def entries : Nat → List Line → Except Fault (List (Value × Part))
  | _, [] => .ok []
  | n, e :: es => do
    let v ← plainValue (n + 1) e.2
    return (e.keyValue, .leaf v) :: (← entries (n + 2) es)

end Line

/-- No tag that a text has by itself is one of lists or dictionaries. -/
lemma implicitTag_not_collection (s : List Char) :
    collectionTags.contains (implicitTag (.ofChars s)) = false := by
  have htag : ∀ t : List Char, collectionTags.contains (tagOfForm t) = false := by
    intro t
    unfold tagOfForm
    dsimp only
    split_ifs <;> decide
  unfold implicitTag
  split
  · decide
  · exact htag _

variable {m : Making} {id : Nat} {s : List Char}

lemma node_run (m : Making) (id : Nat) : node id m = .ok ((m.nodes[id]?).getD .empty, m) := rfl

lemma scalar_run {k : ScalarKind} (hnode : m.nodes[id]? = some (.ofPlain s)) :
    Making.scalar k id m = (do return (← k.value id (.ofChars s), m)) := by
  have hat : node id m = .ok (.ofPlain s, m) := by rw [node_run, hnode]; rfl
  have htext : text (m.nodes.size + 1) id m = .ok (.ofChars s, m) := by
    unfold text
    rw [bind_run hat]
    rfl
  unfold Making.scalar
  rw [bind_run (show (get : Step Making) m = .ok (m, m) from rfl), bind_run htext, bind_run hat]
  rcases k <;> rfl

/-- A plain scalar that has not been met yet is made into its value. -/
lemma part_plain (hnode : m.nodes[id]? = some (.ofPlain s)) (hnew : m.made.lookup id = none) :
    Making.part id m = (do
      let v ← plainValue id s
      return (.leaf v, { m with made := (id, .leaf v) :: m.made })) := by
  have hat : node id m = .ok (.ofPlain s, m) := by rw [node_run, hnode]; rfl
  have htag : (Node.ofPlain s).tag = implicitTag (.ofChars s) := rfl
  unfold Making.part plainValue
  rw [← htag, bind_run (show (get : Step Making) m = .ok (m, m) from rfl)]
  dsimp only
  rw [hnew]
  dsimp only
  rw [bind_run hat]
  rcases ScalarKind.ofTag? (Node.ofPlain s).tag with _ | k
  · dsimp only
    rw [if_neg (by rw [htag, implicitTag_not_collection]; exact Bool.false_ne_true)]
    rfl
  · dsimp only
    rcases hv : k.value id (.ofChars s) with f | v
    · have hscalar : Making.scalar k id m = .error f := by rw [scalar_run hnode, hv]; rfl
      rw [bind_run_error (map_run_error hscalar)]
      rfl
    · have hscalar : Making.scalar k id m = .ok (v, m) := by rw [scalar_run hnode, hv]; rfl
      rw [bind_run (map_run hscalar)]
      rfl

/-! ### The entries -/

/-- The lines have the nodes from the given number on, of which none has been met yet. -/
structure Awaited (m : Making) (n : Nat) (es : List Line) : Prop where
  nodes : m.nodes.toList.drop n = Line.nodes es
  fresh : ∀ id, n ≤ id → m.made.lookup id = none

variable {n : Nat} {e : Line} {es : List Line} {acc : List (Value × Part)}

lemma Awaited.head (h : Awaited m n (e :: es)) :
    m.nodes[n]? = some (.ofPlain e.1) ∧ m.nodes[n + 1]? = some (.ofPlain e.2) := by
  have hat : ∀ i, m.nodes[n + i]? = (m.nodes.toList.drop n)[i]? := by
    intro i
    rw [List.getElem?_drop, Array.getElem?_toList]
  have hkey := hat 0
  have hvalue := hat 1
  rw [h.nodes] at hkey hvalue
  exact ⟨hkey, hvalue⟩

lemma Awaited.tail (h : Awaited m n (e :: es)) (p q : Part) :
    Awaited { m with made := (n + 1, p) :: (n, q) :: m.made } (n + 2) es := by
  refine ⟨?_, ?_⟩
  · change m.nodes.toList.drop (n + 2) = _
    rw [← List.drop_drop, h.nodes]
    rfl
  · intro id hid
    change List.lookup id ((n + 1, p) :: (n, q) :: m.made) = none
    rw [List.lookup_cons, List.lookup_cons, show (id == n + 1) = false by simp; omega,
      show (id == n) = false by simp; omega]
    exact h.fresh id (by omega)

/-- The key of a line is made into its text. -/
lemma key_run (h : Awaited m n (e :: es)) (htext : e.HasTextKey) :
    Making.key n m = .ok (e.keyValue, { m with made := (n, .leaf e.keyValue) :: m.made }) := by
  have hvalue : plainValue n e.1 = .ok e.keyValue := by
    unfold plainValue
    rw [show implicitTag (.ofChars e.1) = textTag from htext]
    change Except.ok (Value.ofPoints (.ofChars e.1)) = _
    rw [Value.ofPoints, Text.Points.areChars_ofChars, Text.Points.chars_ofChars]
    rfl
  have hpart : Making.part n m = .ok (.leaf e.keyValue,
      { m with made := (n, .leaf e.keyValue) :: m.made }) := by
    rw [part_plain h.head.1 (h.fresh n (Nat.le_refl n)), hvalue]
    rfl
  unfold Making.key
  rw [bind_run hpart]
  rfl

def addEntry (acc : List (Value × Part)) (e : Nat × Nat) : Step (List (Value × Part)) := do
  let k ← Making.key e.1
  return withEntry acc k (← Making.part e.2)

lemma withEntry_of_new {k : Value} {p : Part} (h : ∀ x ∈ acc, x.1.sameKey k = false) :
    withEntry acc k p = acc ++ [(k, p)] := by
  unfold withEntry
  rw [if_neg]
  rw [Bool.not_eq_true, List.any_eq_false]
  intro x hx
  rw [h x hx]
  exact Bool.false_ne_true

lemma addEntry_run (h : Awaited m n (e :: es)) (htext : e.HasTextKey)
    (hnew : ∀ x ∈ acc, x.1.sameKey e.keyValue = false) :
    addEntry acc (n, n + 1) m = (do
      let v ← plainValue (n + 1) e.2
      return (acc ++ [(e.keyValue, .leaf v)],
        { m with made := (n + 1, .leaf v) :: (n, .leaf e.keyValue) :: m.made })) := by
  have hvalue : Making.part (n + 1) { m with made := (n, .leaf e.keyValue) :: m.made } = (do
      let v ← plainValue (n + 1) e.2
      return (.leaf v, { m with made := (n + 1, .leaf v) :: (n, .leaf e.keyValue) :: m.made })) := by
    refine part_plain h.head.2 ?_
    change List.lookup (n + 1) ((n, _) :: m.made) = none
    rw [List.lookup_cons, show (n + 1 == n) = false by simp]
    exact h.fresh _ (by omega)
  unfold addEntry
  rw [bind_run (key_run h htext)]
  rcases hv : plainValue (n + 1) e.2 with f | v
  · rw [bind_run_error (by rw [hvalue, hv]; rfl)]
    rfl
  · rw [bind_run (t := { m with made := (n + 1, .leaf v) :: (n, .leaf e.keyValue) :: m.made })
      (a := .leaf v) (by rw [hvalue, hv]; rfl), withEntry_of_new hnew]
    rfl

/-- **The entries are made line by line**, if no two keys are equal. -/
lemma addEntries_run (acc : List (Value × Part)) (h : Awaited m n es) (htext : ∀ e ∈ es, e.HasTextKey)
    (hnodup : (es.map Line.keyValue).Pairwise fun k l => k.sameKey l = false)
    (hnew : ∀ x ∈ acc, ∀ e ∈ es, x.1.sameKey e.keyValue = false) :
    (∃ ps made, Line.entries n es = .ok ps ∧
      (Line.numbers n es).foldlM addEntry acc m = .ok (acc ++ ps, { m with made := made })) ∨
    ∃ f, Line.entries n es = .error f ∧ (Line.numbers n es).foldlM addEntry acc m = .error f := by
  induction es generalizing m n acc with
  | nil => exact .inl ⟨[], m.made, rfl, by rw [List.append_nil]; rfl⟩
  | cons e es ih =>
    obtain ⟨he, htext⟩ := List.forall_mem_cons.mp htext
    obtain ⟨hdistinct, hnodup⟩ := List.pairwise_cons.mp hnodup
    have hentry := addEntry_run h he fun x hx => hnew x hx e (List.mem_cons_self ..)
    rcases hv : plainValue (n + 1) e.2 with f | v
    · refine .inr ⟨f, by rw [Line.entries, hv]; rfl, ?_⟩
      rw [Line.numbers, List.foldlM_cons, bind_run_error (by rw [hentry, hv]; rfl)]
    · have hnew' : ∀ x ∈ acc ++ [(e.keyValue, Part.leaf v)], ∀ e' ∈ es,
          x.1.sameKey e'.keyValue = false := by
        intro x hx e' he'
        rcases List.mem_append.mp hx with hx | hx
        · exact hnew x hx e' (List.mem_cons_of_mem _ he')
        · rw [List.mem_singleton] at hx
          subst hx
          exact hdistinct _ (List.mem_map_of_mem he')
      have hrest := ih _ (h.tail (.leaf v) (.leaf e.keyValue)) htext hnodup hnew'
      rw [Line.numbers, List.foldlM_cons, bind_run (a := acc ++ [(e.keyValue, .leaf v)])
        (t := { m with made := (n + 1, .leaf v) :: (n, .leaf e.keyValue) :: m.made })
        (by rw [hentry, hv]; rfl), Line.entries, hv]
      obtain ⟨ps, made, hps, hfold⟩ | ⟨f, hf, hfold⟩ := hrest
      · refine .inl ⟨(e.keyValue, .leaf v) :: ps, made, by rw [ok_bind, hps]; rfl, ?_⟩
        rw [hfold, List.append_assoc]
        rfl
      · exact .inr ⟨f, by rw [ok_bind, hf]; rfl, hfold⟩

/-! ### The dictionary -/

lemma modify_eq_self {a : Array Node} {f : Node → Node} (h : ∀ x, a[id]? = some x → f x = x) :
    a.modify id f = a := by
  apply Array.ext_getElem?
  intro i
  rw [Array.getElem?_modify]
  split
  · rename_i hi
    subst hi
    rcases hx : a[id]? with _ | x
    · rfl
    · rw [Option.map_some, h x hx]
  · rfl

/-- The keys of lines have the nodes that the lines give them. -/
lemma key_node {ns : List Node} (h : ns.drop n = Line.nodes es) {p : Nat × Nat}
    (hp : p ∈ Line.numbers n es) : ∃ e ∈ es, ns[p.1]? = some (.ofPlain e.1) := by
  induction es generalizing n with
  | nil => cases hp
  | cons e es ih =>
    rcases hp with _ | ⟨_, hp⟩
    · refine ⟨e, List.mem_cons_self .., ?_⟩
      have hhead : (ns.drop n)[0]? = ns[n + 0]? := List.getElem?_drop
      rw [h] at hhead
      exact hhead.symm
    · have hdrop : ns.drop (n + 2) = Line.nodes es := by
        rw [← List.drop_drop, h]
        rfl
      obtain ⟨e', he', hnode⟩ := ih hdrop hp
      exact ⟨e', List.mem_cons_of_mem _ he', hnode⟩

def NoKeyTagged (m : Making) (tag : String) (ps : List (Nat × Nat)) : Prop :=
  ∀ p ∈ ps, ((m.nodes[p.1]?).getD .empty).tag ≠ tag

lemma firstTagged_run {tag : String} {ps : List (Nat × Nat)} (h : NoKeyTagged m tag ps) :
    firstTagged tag ps m = .ok (none, m) := by
  induction ps with
  | nil => rfl
  | cons p ps ih =>
    obtain ⟨hp, hps⟩ := List.forall_mem_cons.mp h
    unfold firstTagged
    rw [bind_run (node_run m p.1)]
    rw [if_neg (by simpa using hp)]
    exact ih hps

lemma asText_run {ps : List (Nat × Nat)} (h : NoKeyTagged m valueTag ps) :
    ps.forM (fun p => asText p.1) m = .ok ((), m) := by
  induction ps with
  | nil => rfl
  | cons p ps ih =>
    obtain ⟨hp, hps⟩ := List.forall_mem_cons.mp h
    have hone : asText p.1 m = .ok ((), m) := by
      have hself : m.nodes.modify p.1 (fun x => if x.tag == valueTag then { x with tag := textTag } else x) =
          m.nodes := by
        refine modify_eq_self fun x hx => ?_
        rw [hx] at hp
        rw [if_neg (by simpa using hp)]
      change Except.ok ((), { m with nodes := m.nodes.modify p.1 _ }) = _
      rw [hself]
    change (asText p.1 >>= fun _ => ps.forM fun p => asText p.1) m = _
    rw [bind_run hone]
    exact ih hps

/-- A dictionary without merge keys keeps its entries. -/
lemma flattened_run {tag : String} {ps : List (Nat × Nat)} (fuel : Nat)
    (hnode : m.nodes[id]? = some ⟨tag, .dict ps⟩) (hmerge : NoKeyTagged m mergeTag ps)
    (hvalue : NoKeyTagged m valueTag ps) : flattened (fuel + 2) id m = .ok (ps, m) := by
  have hentries : Making.entries id m = .ok (ps, m) := by
    unfold Making.entries
    rw [bind_run (node_run m id), hnode]
    rfl
  have hmerged : merged (fuel + 1) id m = .ok ([], m) := by
    unfold merged
    rw [bind_run hentries, bind_run (firstTagged_run hmerge)]
    rfl
  have hset : setBody id (.dict ps) m = .ok ((), m) := by
    have hself : m.nodes.modify id (fun x => { x with body := .dict ps }) = m.nodes := by
      refine modify_eq_self fun x hx => ?_
      rw [hnode] at hx
      cases hx
      rfl
    change Except.ok ((), { m with nodes := m.nodes.modify id _ }) = _
    rw [hself]
  unfold flattened
  rw [bind_run hmerged, bind_run hentries, bind_run (asText_run hvalue), List.nil_append,
    bind_run hset]
  rfl

lemma dict_eq (id : Nat) : Making.dict id = (do
    let m ← get
    (← flattened (2 * entryCount m.nodes + 2) id).foldlM addEntry []) := rfl

variable {ns : Array Node}

/-- The dictionary of a document of lines is made of what its lines are made of. -/
lemma shape_run (hroot : ns[0]? = some ⟨dictTag, .dict (Line.numbers 1 es)⟩)
    (hlist : ns.toList.drop 1 = Line.nodes es) (htext : ∀ e ∈ es, e.HasTextKey)
    (hnodup : (es.map Line.keyValue).Pairwise fun k l => k.sameKey l = false) :
    (∃ ps made, Line.entries 1 es = .ok ps ∧
      Making.shape 0 ⟨ns, [(0, .ref 0)], [], []⟩ = .ok (.dict ps, ⟨ns, made, [], []⟩)) ∨
    ∃ f, Line.entries 1 es = .error f ∧
      Making.shape 0 ⟨ns, [(0, .ref 0)], [], []⟩ = .error f := by
  have hkeys : ∀ tag, tag ≠ textTag →
      NoKeyTagged ⟨ns, [(0, .ref 0)], [], []⟩ tag (Line.numbers 1 es) := by
    intro tag htag p hp
    obtain ⟨e, he, hnode⟩ := key_node hlist hp
    rw [Array.getElem?_toList] at hnode
    rw [hnode]
    exact fun h => htag (h.symm.trans (htext e he))
  have hat : node 0 ⟨ns, [(0, .ref 0)], [], []⟩ =
      .ok (⟨dictTag, .dict (Line.numbers 1 es)⟩, ⟨ns, [(0, .ref 0)], [], []⟩) := by
    rw [node_run]
    dsimp only
    rw [hroot]
    rfl
  have hflat := flattened_run (2 * entryCount ns) hroot (hkeys _ (by decide))
    (hkeys _ (by decide))
  have hawaited : Awaited ⟨ns, [(0, .ref 0)], [], []⟩ 1 es := by
    refine ⟨hlist, fun id hid => ?_⟩
    rw [List.lookup_cons, show (id == 0) = false by simp; omega]
    rfl
  have hrun := addEntries_run [] hawaited htext hnodup (fun x hx => nomatch hx)
  have hdict : Making.dict 0 ⟨ns, [(0, .ref 0)], [], []⟩ =
      (Line.numbers 1 es).foldlM addEntry [] ⟨ns, [(0, .ref 0)], [], []⟩ := by
    rw [dict_eq, bind_run (show (get : Step Making) _ = .ok (_, _) from rfl), bind_run hflat]
  unfold Making.shape
  rw [bind_run hat]
  dsimp only
  rw [if_pos (by decide)]
  obtain ⟨ps, made, hps, hfold⟩ | ⟨f, hf, hfold⟩ := hrun
  · refine .inl ⟨ps, made, hps, ?_⟩
    rw [bind_run (hdict.trans hfold)]
    rfl
  · refine .inr ⟨f, hf, ?_⟩
    rw [bind_run_error (hdict.trans hfold)]

/-- **What a document of lines says.** -/
theorem content_of_lines (htext : ∀ e ∈ es, e.HasTextKey)
    (hnodup : (es.map Line.keyValue).Pairwise fun k l => k.sameKey l = false) :
    Document.content ⟨#[⟨dictTag, .dict (Line.numbers 1 es)⟩] ++ (Line.nodes es).toArray, 0⟩ = (do
      return ⟨.ref 0, [(0, .dict (← Line.entries 1 es))]⟩) := by
  set ns : Array Node := #[⟨dictTag, .dict (Line.numbers 1 es)⟩] ++ (Line.nodes es).toArray with hns
  have hlist : ns.toList.drop 1 = Line.nodes es := by
    rw [hns]
    simp
  have hroot : ns[0]? = some ⟨dictTag, .dict (Line.numbers 1 es)⟩ := by
    rw [hns]
    simp
  have hpart : Making.part 0 ⟨ns, [], [], []⟩ = .ok (.ref 0, ⟨ns, [(0, .ref 0)], [0], []⟩) := by
    have hat : node 0 ⟨ns, [], [], []⟩ = .ok (⟨dictTag, .dict (Line.numbers 1 es)⟩, ⟨ns, [], [], []⟩) := by
      rw [node_run]
      dsimp only
      rw [hroot]
      rfl
    unfold Making.part
    rw [bind_run (show (get : Step Making) _ = .ok (_, _) from rfl)]
    dsimp only [List.lookup]
    rw [bind_run hat]
    rfl
  have hqueue : ∀ (made : List (Nat × Part)) (q : List Nat) (g : Graph),
      (get : Step Making) ⟨ns, made, q, g⟩ = .ok (⟨ns, made, q, g⟩, ⟨ns, made, q, g⟩) := fun _ _ _ => rfl
  have htake : ∀ k : Unit → Step Unit, (modify (fun m : Making => { m with queue := [] }) >>= k)
      ⟨ns, [(0, .ref 0)], [0], []⟩ = k () ⟨ns, [(0, .ref 0)], [], []⟩ := fun _ => rfl
  have hfill : (∃ ps made, Line.entries 1 es = .ok ps ∧ Making.fill (ns.size + 2)
        ⟨ns, [(0, .ref 0)], [0], []⟩ = .ok ((), ⟨ns, made, [], [(0, .dict ps)]⟩)) ∨
      ∃ f, Line.entries 1 es = .error f ∧
        Making.fill (ns.size + 2) ⟨ns, [(0, .ref 0)], [0], []⟩ = .error f := by
    unfold Making.fill
    rw [bind_run (hqueue _ _ _)]
    dsimp only
    rw [htake]
    obtain ⟨ps, made, hps, hshape⟩ | ⟨f, hf, hshape⟩ := shape_run hroot hlist htext hnodup
    · refine .inl ⟨ps, made, hps, ?_⟩
      rw [bind_run hshape]
      rfl
    · refine .inr ⟨f, hf, ?_⟩
      rw [bind_run_error hshape]
  unfold Document.content
  dsimp only
  change ((Making.part 0 >>= fun root => Making.fill (ns.size + 2) >>= fun _ => pure root)
    ⟨ns, [], [], []⟩ >>= fun p => Except.ok (⟨p.1, p.2.graph⟩ : Content)) = _
  rw [bind_run hpart]
  obtain ⟨ps, made, hps, hfill⟩ | ⟨f, hf, hfill⟩ := hfill
  · rw [hps, bind_run hfill]
    rfl
  · rw [hf, bind_run_error hfill]
    rfl

/-! ### The text -/

lemma unifyBreaks_eq_self (h : '\r' ∉ s) : unifyBreaks s = s := by
  fun_induction unifyBreaks s with
  | case1 r ih => exact absurd (List.mem_cons_self ..) h
  | case2 r _ ih => exact absurd (List.mem_cons_self ..) h
  | case3 c r _ _ ih => rw [ih fun hr => h (List.mem_cons_of_mem _ hr)]
  | case4 => rfl

lemma readable_eq_self (h : ∀ c ∈ s, isAllowed c = true) : readable s = s := by
  unfold readable
  rw [List.takeWhile_eq_self_iff.mpr h]
  simp

def linesText (c : List Char) (es : List Line) : List Char := '#' :: c ++ '\n' :: es.flatMap Line.text

/-- **What a text of lines says**, if it holds no character that is read as another or not at all. -/
theorem content_of_text {text : String} {c : List Char} (htext : text.toList = linesText c es)
    (hallowed : ∀ d ∈ linesText c es, isAllowed d = true ∧ d ≠ '\r')
    (hc : Cursor.isLine c = true) (hlen : 1 < es.length) (hes : Line.Fit es)
    (hkeys : ∀ e ∈ es, e.HasTextKey)
    (hnodup : (es.map Line.keyValue).Pairwise fun k l => k.sameKey l = false) :
    Content.ofText text = (do
      return some ⟨.ref 0, [(0, .dict (← Line.entries 1 es))]⟩) := by
  have hreturn : '\r' ∉ linesText c es := fun h => (hallowed _ h).2 rfl
  have hdocument : Document.ofText (linesText c es) =
      .ok (some ⟨#[⟨dictTag, .dict (Line.numbers 1 es)⟩] ++ (Line.nodes es).toArray, 0⟩) := by
    unfold Document.ofText
    rw [readable_eq_self fun d hd => (hallowed d hd).1]
    dsimp only
    rw [if_pos (by simp)]
    exact document_of_lines hc hlen hes
  unfold Content.ofText
  rw [htext, unifyBreaks_eq_self hreturn, hdocument, ok_bind]
  dsimp only
  rw [content_of_lines hkeys hnodup]
  rcases Line.entries 1 es with f | ps <;> rfl

end Horn.Yaml

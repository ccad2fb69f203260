import Horn.Proofs.Yaml.Nodes
import Horn.Yaml.Content

/-!
The texts among the values of a document. Main statement: what holds of the texts of all nodes holds of the
texts in its dictionaries.
-/

namespace Horn.Yaml

open Making

def ValueHas (good : Text.Points → Prop) (v : Value) : Prop := ∀ s : String, v = .text s → good (.ofChars s.toList)

def Part.Has (good : Text.Points → Prop) (p : Part) : Prop := ∀ v, p = .leaf v → ValueHas good v

def Shape.Has (good : Text.Points → Prop) (s : Shape) : Prop := ∀ es, s = .dict es → ∀ e ∈ es, e.2.Has good

variable {good : Text.Points → Prop}

lemma ofChars_chars {p : Text.Points} (h : p.areChars = true) : Text.Points.ofChars p.chars = p := by
  unfold Text.Points.ofChars Text.Points.chars
  rw [List.map_map]
  refine (List.map_congr_left fun n hn => ?_).trans (List.map_id p)
  have hvalid : n.isValidChar := by
    simpa using List.all_eq_true.mp h n hn
  rw [Function.comp_apply, if_pos hvalid, Char.ofNat, dif_pos hvalid]
  rfl

lemma orFault_eq_ok {α : Type} {f : Fault} {o : Option α} {a : α} (h : ScalarValue.orFault f o = .ok a) :
    o = some a := by
  rcases o with _ | b
  · cases h
  · cases h
    rfl

/-- Nothing but a text makes a text. -/
lemma value_ne_text {k : ScalarKind} {id : Nat} {p : Text.Points} {s : String} (hk : k ≠ .text) :
    k.value id p ≠ .ok (.text s) := by
  intro h
  unfold ScalarKind.value at h
  rcases k
  · cases h
  · dsimp only at h
    unfold ScalarValue.ofBool at h
    dsimp only at h
    split at h
    · cases h
    · split at h <;> cases h
  · dsimp only at h
    unfold ScalarValue.ofInt at h
    dsimp only at h
    split at h
    · cases h
    · obtain ⟨n, -, h⟩ := bind_eq_ok h
      cases h
  · dsimp only at h
    unfold ScalarValue.ofFloat at h
    dsimp only at h
    split at h
    · cases h
    · obtain ⟨x, -, h⟩ := bind_eq_ok h
      cases h
  · dsimp only at h
    unfold ScalarValue.ofBinary at h
    split at h
    · obtain ⟨bs, -, h⟩ := Option.map_eq_some_iff.mp (orFault_eq_ok h)
      cases h
    · cases h
  · dsimp only at h
    unfold ScalarValue.ofTime ScalarValue.ofWrittenTime at h
    obtain ⟨t, -, h⟩ := bind_eq_ok h
    dsimp only at h
    split at h
    · split at h <;> cases h
    · split at h <;> cases h
  · exact hk rfl

/-- A value that is a text is the text that it is made of. -/
lemma valueHas_of_value {k : ScalarKind} {id : Nat} {p : Text.Points} {v : Value} (hp : good p)
    (h : k.value id p = .ok v) : ValueHas good v := by
  rintro s rfl
  by_cases hk : k = .text
  · subst hk
    have hs : Value.ofPoints p = .text s := Except.ok.inj h
    unfold Value.ofPoints at hs
    split at hs
    · rename_i hchars
      cases hs
      rwa [String.toList_ofList, ofChars_chars hchars]
    · cases hs
  · exact absurd h (value_ne_text hk)

/-! ### Making values -/

structure Making.Good (good : Text.Points → Prop) (m : Making) : Prop where
  nodes : NodesHave good m.nodes
  made : ∀ e ∈ m.made, e.2.Has good
  graph : ∀ e ∈ m.graph, e.2.Has good

namespace Making

variable (hnil : good [])
include hnil

lemma preserves_node (id : Nat) : Preserves (Good good) (node id) (Node.Has good) := by
  refine preserves_bind preserves_get fun m hm => preserves_pure ?_
  rcases hx : m.nodes[id]? with _ | x
  · exact Node.has_empty hnil
  · exact hm.nodes id x hx

omit hnil in
lemma keeps_setBody {id : Nat} {b : Body} (hb : Node.IsPlural b) : Keeps (Good good) (setBody id b) :=
  keeps_modify fun _ hm => ⟨hm.nodes.modify id fun _ _ => Node.has_of_isPlural hb, hm.made, hm.graph⟩

omit hnil in
lemma keeps_asText (id : Nat) : Keeps (Good good) (asText id) := by
  refine keeps_modify fun m hm => ⟨hm.nodes.modify id fun x hx => ?_, hm.made, hm.graph⟩
  split
  · exact hx
  · exact hx

lemma keeps_firstTagged (tag : String) (es : List (Nat × Nat)) : Keeps (Good good) (firstTagged tag es) := by
  induction es with
  | nil => exact keeps_pure
  | cons e es ih =>
    refine preserves_bind (preserves_node hnil e.1) fun x _ => ?_
    split
    · exact keeps_pure
    · exact ih

lemma preserves_text (n id : Nat) : Preserves (Good good) (text n id) good := by
  induction n generalizing id with
  | zero => exact preserves_throw
  | succ n ih =>
    unfold text
    refine preserves_bind (preserves_node hnil id) fun x hx => ?_
    split
    · rename_i s hs
      exact preserves_pure (hx s hs)
    · exact preserves_throw
    · refine preserves_bind (keeps_firstTagged hnil _ _) fun e _ => ?_
      split
      · exact ih _
      · exact preserves_throw

lemma preserves_scalar (k : ScalarKind) (id : Nat) :
    Preserves (Good good) (Making.scalar k id) (ValueHas good) := by
  unfold Making.scalar
  refine preserves_bind preserves_get fun m _ => preserves_bind (preserves_text hnil _ _) fun s hs =>
    preserves_bind (preserves_node hnil id) fun x _ => ?_
  split
  · exact preserves_throw
  · exact preserves_lift fun v hv => valueHas_of_value hs hv

omit hnil in
/-- A part that has been made is remembered. -/
lemma preserves_remember (id : Nat) {p : Part} (hp : p.Has good) : Preserves (Good good) (do
    modify fun m : Making => { m with made := (id, p) :: m.made }
    return p) (Part.Has good) := by
  refine preserves_bind (keeps_modify fun m hm => ⟨hm.nodes, ?_, hm.graph⟩) fun _ _ => preserves_pure hp
  exact List.forall_mem_cons.mpr ⟨hp, hm.made⟩

lemma preserves_part (id : Nat) : Preserves (Good good) (Making.part id) (Part.Has good) := by
  unfold Making.part
  refine preserves_bind preserves_get fun m hm => ?_
  split
  · rename_i p hp
    obtain ⟨es, fs, hmade, -⟩ := List.lookup_eq_some_iff.mp hp
    exact preserves_pure (hm.made (id, p) (by rw [hmade]; simp))
  · refine preserves_bind (preserves_node hnil id) fun x _ => ?_
    dsimp only
    split
    · refine preserves_bind (q := Part.Has good) (preserves_map (preserves_scalar hnil _ id)
        fun v hv w hw => ?_) fun p hp => preserves_remember id hp
      cases hw
      exact hv
    · split
      · refine preserves_bind (keeps_modify fun m hm => ⟨hm.nodes, hm.made, hm.graph⟩) fun _ _ =>
          preserves_remember id fun v hv => ?_
        cases hv
      · exact preserves_bind (q := fun _ => False) preserves_throw fun _ hfalse => hfalse.elim

lemma keeps_entries (id : Nat) : Keeps (Good good) (Making.entries id) := by
  refine preserves_bind (preserves_node hnil id) fun x _ => ?_
  split
  · exact keeps_pure
  · exact preserves_throw

/-- Merging with so much fuel keeps the texts of nodes good. -/
structure MergeKeeps (good : Text.Points → Prop) (n : Nat) : Prop where
  merged : ∀ id, Keeps (Good good) (merged n id)
  flattened : ∀ id, Keeps (Good good) (flattened n id)

lemma keeps_merged {n : Nat} (h : MergeKeeps good n) (id : Nat) : Keeps (Good good) (merged (n + 1) id) := by
  have hrest : ∀ own : List (Nat × Nat), Keeps (Good good) (do
      return own ++ (← merged n id)) := fun own =>
    preserves_bind (h.merged id) fun _ _ => keeps_pure
  unfold merged
  refine preserves_bind (keeps_entries hnil id) fun es _ => preserves_bind (keeps_firstTagged hnil _ _) fun e _ => ?_
  split
  · exact keeps_pure
  · refine preserves_bind (keeps_setBody (Node.isPlural_dict _)) fun _ _ =>
      preserves_bind (preserves_node hnil _) fun x _ => ?_
    dsimp only
    split
    · exact preserves_bind (h.flattened _) fun own _ => hrest own
    · exact preserves_bind (preserves_mapM fun x => h.flattened x) fun parts _ => hrest _
    · exact preserves_bind (q := fun _ => False) preserves_throw fun _ hfalse => hfalse.elim

lemma keeps_flattened {n : Nat} (h : MergeKeeps good n) (id : Nat) :
    Keeps (Good good) (flattened (n + 1) id) := by
  unfold flattened
  exact preserves_bind (h.merged id) fun new _ => preserves_bind (keeps_entries hnil id) fun old _ =>
    preserves_bind (keeps_forM fun e => keeps_asText e.1) fun _ _ =>
      preserves_bind (keeps_setBody (Node.isPlural_dict _)) fun _ _ => keeps_pure

lemma mergeKeeps (n : Nat) : MergeKeeps good n := by
  induction n with
  | zero =>
    refine ⟨fun id => ?_, fun id => ?_⟩
    · unfold merged; exact preserves_throw
    · unfold flattened; exact preserves_throw
  | succ n ih => exact ⟨keeps_merged hnil ih, keeps_flattened hnil ih⟩

lemma keeps_key (id : Nat) : Keeps (Good good) (Making.key id) := by
  refine preserves_bind (preserves_part hnil id) fun p _ => ?_
  split
  · exact keeps_pure
  · exact preserves_throw

omit hnil in
lemma has_withEntry {es : List (Value × Part)} {k : Value} {p : Part} (hes : ∀ e ∈ es, e.2.Has good)
    (hp : p.Has good) : ∀ e ∈ withEntry es k p, e.2.Has good := by
  unfold withEntry
  split
  · intro e he
    obtain ⟨e₀, he₀, rfl⟩ := List.mem_map.mp he
    split
    · exact hp
    · exact hes e₀ he₀
  · intro e he
    rcases List.mem_append.mp he with he | he
    · exact hes e he
    · rw [List.mem_singleton] at he
      subst he
      exact hp

lemma preserves_dict (id : Nat) :
    Preserves (Good good) (Making.dict id) fun es => ∀ e ∈ es, e.2.Has good := by
  unfold Making.dict
  refine preserves_bind preserves_get fun m _ => preserves_bind ((mergeKeeps hnil _).flattened id) fun ps _ => ?_
  refine preserves_foldlM (by simp) fun es p hes => ?_
  exact preserves_bind (keeps_key hnil _) fun k _ => preserves_bind (preserves_part hnil _) fun p hp =>
    preserves_pure (has_withEntry hes hp)

lemma keeps_pair (id : Nat) : Keeps (Good good) (Making.pair id) := by
  refine preserves_bind (preserves_node hnil id) fun x _ => ?_
  split
  · exact preserves_bind (preserves_part hnil _) fun _ _ => preserves_bind (preserves_part hnil _) fun _ _ =>
      keeps_pure
  · exact preserves_throw

lemma keeps_items (id : Nat) : Keeps (Good good) (Making.items id) := by
  refine preserves_bind (preserves_node hnil id) fun x _ => ?_
  split
  · exact keeps_pure
  · exact preserves_throw

lemma preserves_shape (id : Nat) : Preserves (Good good) (Making.shape id) (Shape.Has good) := by
  unfold Making.shape
  refine preserves_bind (preserves_node hnil id) fun x _ => ?_
  dsimp only
  split
  · refine preserves_bind (preserves_dict hnil id) fun es hes => preserves_pure fun fs hfs => ?_
    cases hfs
    exact hes
  · split
    · refine preserves_bind (preserves_dict hnil id) fun es _ => preserves_pure fun fs hfs => ?_
      cases hfs
    · split
      · refine preserves_bind (keeps_items hnil id) fun xs _ =>
          preserves_bind (preserves_mapM fun x => preserves_part hnil x) fun ps _ =>
            preserves_pure fun fs hfs => ?_
        cases hfs
      · refine preserves_bind (keeps_items hnil id) fun xs _ =>
          preserves_bind (preserves_mapM fun x => keeps_pair hnil x) fun ps _ =>
            preserves_pure fun fs hfs => ?_
        cases hfs

lemma keeps_fill (n : Nat) : Keeps (Good good) (fill n) := by
  induction n with
  | zero => exact preserves_throw
  | succ n ih =>
    unfold fill
    refine preserves_bind preserves_get fun m _ => ?_
    split
    · exact keeps_pure
    · refine preserves_bind (keeps_modify fun m hm => ⟨hm.nodes, hm.made, hm.graph⟩) fun _ _ =>
        preserves_bind (preserves_shape hnil _) fun s hs =>
          preserves_bind (keeps_modify fun m hm => ⟨hm.nodes, hm.made, ?_⟩) fun _ _ => ih
      intro e he
      rcases List.mem_append.mp he with he | he
      · exact hm.graph e he
      · rw [List.mem_singleton] at he
        subst he
        exact hs

end Making

/-- **The dictionaries of a document have good texts**, if its nodes have. -/
theorem Document.graph_has {d : Document} {c : Content} (hnil : good []) (hd : NodesHave good d.nodes)
    (h : d.content = .ok c) : ∀ e ∈ c.graph, e.2.Has good := by
  unfold Document.content at h
  obtain ⟨⟨root, m⟩, hmake, h⟩ := bind_eq_ok h
  cases h
  have hkeeps : Keeps (Making.Good good) (do
      let root ← Making.part d.root
      Making.fill (d.nodes.size + 2)
      return root) :=
    preserves_bind (preserves_part hnil _) fun _ _ => preserves_bind (keeps_fill hnil _) fun _ _ => keeps_pure
  exact (hkeeps _ _ _ ⟨hd, by simp, by simp⟩ hmake).1.graph

end Horn.Yaml

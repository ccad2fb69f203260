import Horn.Proofs.Yaml.Ahead
import Horn.Proofs.Yaml.Preserve
import Horn.Yaml.Node

/-!
The texts of the nodes of a document. Main statement: what holds of the texts of all tokens holds of the texts
of all nodes.
-/

namespace Horn.Yaml

/-- A property of the state of reading tokens that holds as long as tokens are read and taken, and under
which the texts of tokens are good. -/
structure Lexer.Lasts (good : Text.Points → Prop) (I : Lexer → Prop) : Prop where
  ready : ∀ {l l' : Lexer}, I l → l.ready = .ok l' → I l'
  take : ∀ {l : Lexer}, I l → I l.take
  has : ∀ {l : Lexer}, I l → l.Has good

def Node.Has (good : Text.Points → Prop) (x : Node) : Prop := ∀ p, x.body = .scalar p → good p

def NodesHave (good : Text.Points → Prop) (ns : Array Node) : Prop :=
  ∀ (id : Nat) (x : Node), ns[id]? = some x → x.Has good

variable {good : Text.Points → Prop} {I : Lexer → Prop} {ns : Array Node} {x : Node} {b : Body}

lemma NodesHave.push (h : NodesHave good ns) (hx : x.Has good) : NodesHave good (ns.push x) := by
  intro id y hy
  rw [Array.getElem?_push] at hy
  split at hy
  · cases hy
    exact hx
  · exact h id y hy

lemma NodesHave.modify {f : Node → Node} (h : NodesHave good ns) (id : Nat)
    (hf : ∀ x : Node, x.Has good → (f x).Has good) : NodesHave good (ns.modify id f) := by
  intro i y hy
  rw [Array.getElem?_modify] at hy
  split at hy
  · rcases hx : ns[i]? with _ | x
    · rw [hx] at hy
      cases hy
    · rw [hx] at hy
      cases hy
      exact hf x (h i x hx)
  · exact h i y hy

structure Reader.Good (good : Text.Points → Prop) (I : Lexer → Prop) (r : Reader) : Prop where
  lexer : I r.lexer
  nodes : NodesHave good r.nodes

namespace Reading

lemma keeps_add (hx : x.Has good) : Keeps (Reader.Good good I) (add x) :=
  preserves_bind preserves_get fun _ hr => preserves_bind (keeps_set ⟨hr.lexer, hr.nodes.push hx⟩) fun _ _ =>
    keeps_pure

variable (hI : Lexer.Lasts good I)
include hI

lemma keeps_head : Preserves (Reader.Good good I) head? fun t => ∀ u ∈ t, u.Has good := by
  refine preserves_bind preserves_get fun r hr => ?_
  refine preserves_bind (q := I) (preserves_lift fun l hl => hI.ready hr.lexer hl) fun l hl => ?_
  exact preserves_bind (keeps_set ⟨hl, hr.nodes⟩) fun _ _ =>
    preserves_pure fun u hu => hI.has hl u (List.mem_of_mem_head? hu)

lemma keeps_take : Keeps (Reader.Good good I) Reading.take :=
  keeps_modify fun _ hr => ⟨hI.take hr.lexer, hr.nodes⟩

lemma keeps_sees (ts : List Token) : Keeps (Reader.Good good I) (sees ts) :=
  preserves_bind (keeps_head hI) fun _ _ => keeps_pure

lemma keeps_expect (t : Token) : Keeps (Reader.Good good I) (expect t) := by
  refine preserves_bind (keeps_sees hI [t]) fun b _ => ?_
  split
  · exact keeps_take hI
  · exact preserves_throw

end Reading

open Yaml.Reading

section

variable (hI : Lexer.Lasts good I)
include hI

namespace Properties

omit hI in
lemma keeps_tagOf (h : Option String) (s : String) : Keeps (Reader.Good good I) (tagOf h s) := by
  unfold tagOf
  split
  · exact keeps_pure
  · refine preserves_bind preserves_get fun r _ => ?_
    split
    · exact keeps_pure
    · exact preserves_throw

lemma keeps_read : Keeps (Reader.Good good I) Properties.read := by
  unfold Properties.read
  refine preserves_bind (keeps_head hI) fun t _ => ?_
  split
  · refine preserves_bind (keeps_take hI) fun _ _ => preserves_bind (keeps_head hI) fun u _ => ?_
    split
    · exact preserves_bind (keeps_take hI) fun _ _ => preserves_bind (keeps_tagOf _ _) fun _ _ => keeps_pure
    · exact keeps_pure
  · refine preserves_bind (keeps_take hI) fun _ _ => preserves_bind (keeps_head hI) fun u _ => ?_
    split
    · exact preserves_bind (keeps_take hI) fun _ _ => preserves_bind (keeps_tagOf _ _) fun _ _ => keeps_pure
    · exact preserves_bind (keeps_tagOf _ _) fun _ _ => keeps_pure
  · exact keeps_pure

omit hI in
lemma keeps_define (p : Properties) (hx : x.Has good) :
    Keeps (Reader.Good good I) (p.define x) := by
  unfold define
  split
  · exact keeps_add hx
  · refine preserves_bind preserves_get fun r _ => ?_
    split
    · exact preserves_throw
    · exact preserves_bind (keeps_add hx) fun _ _ =>
        preserves_bind (keeps_modify fun _ hr => ⟨hr.lexer, hr.nodes⟩) fun _ _ => keeps_pure

end Properties

namespace Node

def IsPlural (b : Body) : Prop := ∀ p, b ≠ .scalar p

omit hI in
lemma isPlural_list (xs : List Nat) : IsPlural (.list xs) := by
  intro p hp
  cases hp

omit hI in
lemma isPlural_dict (es : List (Nat × Nat)) : IsPlural (.dict es) := by
  intro p hp
  cases hp

omit hI in
lemma has_of_isPlural {tag : String} (h : IsPlural b) : Node.Has good ⟨tag, b⟩ :=
  fun p hp => absurd hp (h p)

omit hI in
lemma keeps_collect {p : Properties} {parts : Reading Body} (hx : x.Has good)
    (hparts : Preserves (Reader.Good good I) parts IsPlural) :
    Keeps (Reader.Good good I) (collect p x parts) := by
  unfold collect
  refine preserves_bind (p.keeps_define hx) fun id _ => preserves_bind preserves_get fun r hr => ?_
  dsimp only
  split
  · exact preserves_throw
  · refine preserves_bind (keeps_set ⟨hr.lexer, hr.nodes⟩) fun _ _ => preserves_bind hparts fun b hb => ?_
    refine preserves_bind (keeps_modify fun r hr => ⟨hr.lexer, hr.nodes.modify id fun y _ => ?_⟩) fun _ _ =>
      keeps_pure
    exact has_of_isPlural hb

/-- The parts of a collection are read after the mark at its beginning. -/
lemma keeps_parts {α : Type} {f : α → Body} {m : Reading α} (hf : ∀ a, IsPlural (f a))
    (hm : Keeps (Reader.Good good I) m) :
    Preserves (Reader.Good good I) (take *> f <$> m) IsPlural :=
  preserves_bind (keeps_take hI) fun _ _ => preserves_map hm fun a _ => hf a

variable (hnil : good [])
include hnil

omit hI in
lemma has_empty : Node.empty.Has good := by
  intro p hp
  cases hp
  exact hnil

lemma keeps_part {stop : List Token} {read : Reading Nat} (hread : Keeps (Reader.Good good I) read) :
    Keeps (Reader.Good good I) (part stop read) := by
  refine preserves_bind (keeps_sees hI stop) fun b _ => ?_
  split
  · exact keeps_add (has_empty hnil)
  · exact hread

lemma keeps_valueOf {stop : List Token} {read : Reading Nat}
    (hread : Keeps (Reader.Good good I) read) :
    Keeps (Reader.Good good I) (valueOf stop read) := by
  refine preserves_bind (keeps_sees hI [.value]) fun b _ => ?_
  split
  · exact preserves_bind (keeps_take hI) fun _ _ => keeps_part hI hnil hread
  · exact keeps_add (has_empty hnil)

omit hI in
lemma keeps_bare (p : Properties) : Keeps (Reader.Good good I) (bare p) := by
  unfold bare
  split
  · exact p.keeps_define fun q hq => by cases hq; exact hnil
  · exact preserves_throw

/-- Reading nodes with so much fuel keeps the texts of nodes good. -/
structure AllKeep (good : Text.Points → Prop) (I : Lexer → Prop) (n : Nat) : Prop where
  read : ∀ inBlock inDict, Keeps (Reader.Good good I) (read inBlock inDict n)
  bareItems : Keeps (Reader.Good good I) (bareItems n)
  items : Keeps (Reader.Good good I) (items n)
  entries : Keeps (Reader.Good good I) (entries n)
  flowItems : ∀ first, Keeps (Reader.Good good I) (flowItems n first)
  flowEntries : ∀ first, Keeps (Reader.Good good I) (flowEntries n first)

variable {n : Nat}

lemma keeps_read (h : AllKeep good I n) (inBlock inDict : Bool) :
    Keeps (Reader.Good good I) (Node.read inBlock inDict (n + 1)) := by
  unfold Node.read
  refine preserves_bind (keeps_head hI) fun t _ => ?_
  dsimp only
  split
  · refine preserves_bind (keeps_take hI) fun _ _ => preserves_bind preserves_get fun r _ => ?_
    split
    · exact keeps_pure
    · exact preserves_bind (q := fun _ => False) preserves_throw fun _ hfalse => hfalse.elim
  · refine preserves_bind (Properties.keeps_read hI) fun p _ => preserves_bind (keeps_head hI) fun t ht => ?_
    split
    · split
      · exact keeps_collect (has_of_isPlural (isPlural_list _)) (preserves_map h.bareItems fun _ _ => isPlural_list _)
      · exact keeps_bare hnil p
    · rename_i s plain
      refine preserves_bind (keeps_take hI) fun _ _ => p.keeps_define fun q hq => ?_
      cases hq
      exact ht _ rfl _ _ rfl
    · exact keeps_collect (has_of_isPlural (isPlural_list _)) (keeps_parts hI isPlural_list (h.flowItems true))
    · exact keeps_collect (has_of_isPlural (isPlural_dict _)) (keeps_parts hI isPlural_dict (h.flowEntries true))
    · split
      · exact keeps_collect (has_of_isPlural (isPlural_list _)) (keeps_parts hI isPlural_list h.items)
      · exact keeps_bare hnil p
    · split
      · exact keeps_collect (has_of_isPlural (isPlural_dict _)) (keeps_parts hI isPlural_dict h.entries)
      · exact keeps_bare hnil p
    · exact keeps_bare hnil p

lemma keeps_bareItems (h : AllKeep good I n) :
    Keeps (Reader.Good good I) (Node.bareItems (n + 1)) := by
  unfold Node.bareItems
  refine preserves_bind (keeps_sees hI _) fun b _ => ?_
  split
  · exact preserves_bind (keeps_take hI) fun _ _ => preserves_bind (keeps_part hI hnil (h.read _ _)) fun _ _ =>
      preserves_bind h.bareItems fun _ _ => keeps_pure
  · exact keeps_pure

lemma keeps_items (h : AllKeep good I n) : Keeps (Reader.Good good I) (Node.items (n + 1)) := by
  unfold Node.items
  refine preserves_bind (keeps_sees hI _) fun b _ => ?_
  split
  · exact preserves_bind (keeps_take hI) fun _ _ => preserves_bind (keeps_part hI hnil (h.read _ _)) fun _ _ =>
      preserves_bind h.items fun _ _ => keeps_pure
  · exact preserves_bind (keeps_expect hI _) fun _ _ => keeps_pure

lemma keeps_entries (h : AllKeep good I n) : Keeps (Reader.Good good I) (Node.entries (n + 1)) := by
  unfold Node.entries
  refine preserves_bind (keeps_sees hI _) fun b _ => ?_
  split
  · exact preserves_bind (keeps_take hI) fun _ _ => preserves_bind (keeps_part hI hnil (h.read _ _)) fun _ _ =>
      preserves_bind (keeps_valueOf hI hnil (h.read _ _)) fun _ _ =>
        preserves_bind h.entries fun _ _ => keeps_pure
  · exact preserves_bind (keeps_expect hI _) fun _ _ => keeps_pure

lemma keeps_flowItems (h : AllKeep good I n) (first : Bool) :
    Keeps (Reader.Good good I) (Node.flowItems (n + 1) first) := by
  have hafter : Keeps (Reader.Good good I) (do
      if ← sees [.key] then
        let x ← collect ⟨none, none⟩ ⟨dictTag, .dict []⟩ do
          take
          let stop := [.flowEntry, .flowSequenceEnd]
          let k ← part (.value :: stop) (Node.read false false n)
          let v ← valueOf stop (Node.read false false n)
          return .dict [(k, v)]
        return x :: (← Node.flowItems n false)
      else if ← sees [.flowSequenceEnd] then
        take
        return []
      else
        let x ← Node.read false false n
        return x :: (← Node.flowItems n false)) := by
    refine preserves_bind (keeps_sees hI _) fun b _ => ?_
    split
    · refine preserves_bind (keeps_collect (has_of_isPlural (isPlural_dict _)) ?_) fun _ _ =>
        preserves_bind (h.flowItems false) fun _ _ => keeps_pure
      exact preserves_bind (keeps_take hI) fun _ _ => preserves_bind (keeps_part hI hnil (h.read _ _)) fun _ _ =>
        preserves_bind (keeps_valueOf hI hnil (h.read _ _)) fun _ _ => preserves_pure (isPlural_dict _)
    · refine preserves_bind (keeps_sees hI _) fun b _ => ?_
      split
      · exact preserves_bind (keeps_take hI) fun _ _ => keeps_pure
      · exact preserves_bind (h.read _ _) fun _ _ => preserves_bind (h.flowItems false) fun _ _ =>
          keeps_pure
  unfold Node.flowItems
  refine preserves_bind (keeps_sees hI _) fun b _ => ?_
  dsimp only
  split
  · exact preserves_bind (keeps_take hI) fun _ _ => keeps_pure
  · split
    · exact preserves_bind (keeps_expect hI _) fun _ _ => hafter
    · exact hafter

lemma keeps_flowEntries (h : AllKeep good I n) (first : Bool) :
    Keeps (Reader.Good good I) (Node.flowEntries (n + 1) first) := by
  have hafter : Keeps (Reader.Good good I) (do
      if ← sees [.key] then
        take
        let stop := [.flowEntry, .flowMappingEnd]
        let k ← part (.value :: stop) (Node.read false false n)
        let v ← valueOf stop (Node.read false false n)
        return (k, v) :: (← Node.flowEntries n false)
      else if ← sees [.flowMappingEnd] then
        take
        return []
      else
        let k ← Node.read false false n
        let v ← add .empty
        return (k, v) :: (← Node.flowEntries n false)) := by
    refine preserves_bind (keeps_sees hI _) fun b _ => ?_
    split
    · exact preserves_bind (keeps_take hI) fun _ _ => preserves_bind (keeps_part hI hnil (h.read _ _)) fun _ _ =>
        preserves_bind (keeps_valueOf hI hnil (h.read _ _)) fun _ _ =>
          preserves_bind (h.flowEntries false) fun _ _ => keeps_pure
    · refine preserves_bind (keeps_sees hI _) fun b _ => ?_
      split
      · exact preserves_bind (keeps_take hI) fun _ _ => keeps_pure
      · exact preserves_bind (h.read _ _) fun _ _ => preserves_bind (keeps_add (has_empty hnil)) fun _ _ =>
          preserves_bind (h.flowEntries false) fun _ _ => keeps_pure
  unfold Node.flowEntries
  refine preserves_bind (keeps_sees hI _) fun b _ => ?_
  dsimp only
  split
  · exact preserves_bind (keeps_take hI) fun _ _ => keeps_pure
  · split
    · exact preserves_bind (keeps_expect hI _) fun _ _ => hafter
    · exact hafter

/-- **Reading nodes keeps the texts of nodes good.** -/
lemma allKeep (n : Nat) : AllKeep good I n := by
  induction n with
  | zero =>
    refine ⟨fun _ _ => ?_, ?_, ?_, ?_, fun _ => ?_, fun _ => ?_⟩
    · unfold Node.read; exact preserves_throw
    · unfold Node.bareItems; exact preserves_throw
    · unfold Node.items; exact preserves_throw
    · unfold Node.entries; exact preserves_throw
    · unfold Node.flowItems; exact preserves_throw
    · unfold Node.flowEntries; exact preserves_throw
  | succ n ih =>
    exact ⟨keeps_read hI hnil ih, keeps_bareItems hI hnil ih, keeps_items hI hnil ih,
      keeps_entries hI hnil ih, keeps_flowItems hI hnil ih, keeps_flowEntries hI hnil ih⟩

end Node

namespace Reading

lemma keeps_seesDirective : Keeps (Reader.Good good I) seesDirective := by
  refine preserves_bind (keeps_head hI) fun t _ => ?_
  split <;> exact keeps_pure

lemma keeps_directivesFrom (n : Nat) (versioned : Bool) :
    Keeps (Reader.Good good I) (directivesFrom n versioned) := by
  induction n generalizing versioned with
  | zero => exact preserves_throw
  | succ n ih =>
    unfold directivesFrom
    refine preserves_bind (keeps_head hI) fun t _ => ?_
    split
    · refine preserves_bind (keeps_take hI) fun _ _ => ?_
      split
      · exact preserves_throw
      · exact ih true
    · refine preserves_bind (keeps_take hI) fun _ _ => preserves_bind preserves_get fun r _ => ?_
      split
      · exact preserves_throw
      · exact preserves_bind (keeps_modify fun _ hr => ⟨hr.lexer, hr.nodes⟩) fun _ _ => ih versioned
    · exact preserves_bind (keeps_take hI) fun _ _ => ih versioned
    · exact keeps_modify fun _ hr => ⟨hr.lexer, hr.nodes⟩

lemma keeps_directives (n : Nat) : Keeps (Reader.Good good I) (directives n) :=
  preserves_bind (keeps_modify fun _ hr => ⟨hr.lexer, hr.nodes⟩) fun _ _ => keeps_directivesFrom hI n false

lemma keeps_finish (m n : Nat) : Keeps (Reader.Good good I) (finish m n) := by
  induction m with
  | zero => exact preserves_throw
  | succ m ih =>
    unfold finish
    refine preserves_bind (keeps_head hI) fun t _ => ?_
    split
    · exact keeps_pure
    · exact preserves_bind (keeps_take hI) fun _ _ => ih
    · exact preserves_bind (keeps_directives hI n) fun _ _ => preserves_throw

variable (hnil : good [])
include hnil

lemma keeps_content (n : Nat) : Keeps (Reader.Good good I) (content n) := by
  unfold content
  refine preserves_bind (keeps_head hI) fun t _ => preserves_bind (keeps_seesDirective hI) fun a _ =>
    preserves_bind (keeps_sees hI _) fun b _ => ?_
  split
  · exact keeps_add (Node.has_empty hnil)
  · exact (Node.allKeep hI hnil n).read _ _

lemma keeps_document (n : Nat) : Keeps (Reader.Good good I) (document n) := by
  have hfinish : ∀ x : Nat, Keeps (Reader.Good good I) (do
      finish n n
      return some x) := fun x =>
    preserves_bind (keeps_finish hI n n) fun _ _ => keeps_pure
  unfold document
  refine preserves_bind (keeps_head hI) fun t _ => ?_
  split
  · exact keeps_pure
  · refine preserves_bind (keeps_seesDirective hI) fun a _ => preserves_bind (keeps_sees hI _) fun b _ => ?_
    dsimp only
    split
    · exact preserves_bind (keeps_directives hI n) fun _ _ => preserves_bind (keeps_expect hI _) fun _ _ =>
        preserves_bind (keeps_content hI hnil n) fun x _ => hfinish x
    · exact preserves_bind (keeps_modify fun _ hr => ⟨hr.lexer, hr.nodes⟩) fun _ _ =>
        preserves_bind ((Node.allKeep hI hnil n).read _ _) fun x _ => hfinish x

end Reading

/-- **The nodes of a document have good texts**, if the tokens do that it is read from. -/
theorem Document.nodesHave {s : List Char} {d : Document} (hstart : I (Lexer.start s)) (hnil : good [])
    (h : Document.ofChars s = .ok (some d)) : NodesHave good d.nodes := by
  unfold Document.ofChars at h
  dsimp only at h
  obtain ⟨⟨root, r⟩, hread, h⟩ := bind_eq_ok h
  have hempty : NodesHave good #[] := by
    intro id x hx
    simp at hx
  obtain ⟨hr, -⟩ := Reading.keeps_document hI hnil _ _ _ _ ⟨hstart, hempty⟩ hread
  obtain ⟨x, -, rfl⟩ := Option.map_eq_some_iff.mp (Except.ok.inj h)
  exact hr.nodes

end

end Horn.Yaml

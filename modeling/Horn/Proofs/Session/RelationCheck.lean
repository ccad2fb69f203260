import Mathlib.Logic.Relation
import Horn.Proofs.Session.Outcome

/-!
The search for relations that are not registered. Pending expressions form a stack: a round looks at the
name of the top one, and puts its arguments on the stack unless that ends the search. Main statement: the
rounds come to an end after at most one for each node, and what is found is the first node in the order of
the root, then the last argument, then the ones before it.
-/

namespace Horn

namespace Expr

/-! ### Nodes -/

mutual

def nodes : Expr → List Expr
  | .node n as s => .node n as s :: nodesOfAll as

def nodesOfAll : List Expr → List Expr
  | [] => []
  | e :: es => nodesOfAll es ++ e.nodes

end

lemma nodesOfAll_eq (es : List Expr) : nodesOfAll es = es.reverse.flatMap nodes := by
  induction es with
  | nil => rfl
  | cons e es ih => simp [nodesOfAll, ih]

lemma mem_nodesOfAll {u : Expr} {es : List Expr} : u ∈ nodesOfAll es ↔ ∃ a ∈ es, u ∈ a.nodes := by
  simp [nodesOfAll_eq]

mutual

theorem map_name_nodes (e : Expr) : e.nodes.map name = e.names := by
  match e with
  | .node n as s => rw [nodes, names, List.map_cons, map_name_nodesOfAll as]; rfl

theorem map_name_nodesOfAll (es : List Expr) : (nodesOfAll es).map name = namesOfAll es := by
  match es with
  | [] => rfl
  | e :: es =>
    rw [nodesOfAll, namesOfAll, List.map_append, map_name_nodesOfAll es, map_name_nodes e]

end

lemma self_mem_nodes (e : Expr) : e ∈ e.nodes := by
  obtain ⟨n, as, s⟩ := e
  simp [nodes]

mutual

/-- Arguments of nodes are nodes. -/
theorem args_mem_nodes {e u a : Expr} (hu : u ∈ e.nodes) (ha : a ∈ u.args) : a ∈ e.nodes := by
  match e with
  | .node n as s =>
    rw [nodes, List.mem_cons] at hu ⊢
    rcases hu with rfl | hu
    · exact .inr (mem_nodesOfAll.mpr ⟨a, ha, a.self_mem_nodes⟩)
    · exact .inr (args_mem_nodesOfAll hu ha)

theorem args_mem_nodesOfAll {es : List Expr} {u a : Expr} (hu : u ∈ nodesOfAll es)
    (ha : a ∈ u.args) : a ∈ nodesOfAll es := by
  match es with
  | [] => cases hu
  | e :: es =>
    rw [nodesOfAll, List.mem_append] at hu ⊢
    rcases hu with hu | hu
    · exact .inl (args_mem_nodesOfAll hu ha)
    · exact .inr (args_mem_nodes hu ha)

end

def HasArg (e a : Expr) : Prop := a ∈ e.args

mutual

/-- A node is reached from the root by way of arguments. -/
theorem reaches_of_mem_nodes {e u : Expr} (hu : u ∈ e.nodes) : Relation.ReflTransGen HasArg e u := by
  match e with
  | .node n as s =>
    rw [nodes, List.mem_cons] at hu
    rcases hu with rfl | hu
    · exact .refl
    · obtain ⟨a, ha, h⟩ := reaches_of_mem_nodesOfAll hu
      exact .head ha h

theorem reaches_of_mem_nodesOfAll {es : List Expr} {u : Expr} (hu : u ∈ nodesOfAll es) :
    ∃ a ∈ es, Relation.ReflTransGen HasArg a u := by
  match es with
  | [] => cases hu
  | e :: es =>
    rw [nodesOfAll, List.mem_append] at hu
    rcases hu with hu | hu
    · obtain ⟨a, ha, h⟩ := reaches_of_mem_nodesOfAll hu
      exact ⟨a, List.mem_cons_of_mem _ ha, h⟩
    · exact ⟨e, List.mem_cons_self, reaches_of_mem_nodes hu⟩

end

/-- **The nodes are what can be reached by way of arguments**: no part of an expression is left out. -/
lemma mem_nodes_iff {e u : Expr} : u ∈ e.nodes ↔ Relation.ReflTransGen HasArg e u := by
  refine ⟨reaches_of_mem_nodes, fun h => ?_⟩
  induction h with
  | refl => exact e.self_mem_nodes
  | tail _ ha ih => exact args_mem_nodes ih ha

/-! ### Rounds of the search -/

/-- **The rounds of a search**, from a stack of pending expressions to what it ends with: a round takes the
top of the stack, and puts its arguments on it if its name is not what is searched. -/
inductive Rounds (p : String → Bool) : List Expr → Nat → Option String → Prop where
  | done : Rounds p [] 0 none
  | found {n : String} {as es : List Expr} {s : SortSpec} (hp : p n = true) :
    Rounds p (.node n as s :: es) 1 (some n)
  | next {n : String} {as es : List Expr} {s : SortSpec} {k : Nat} {r : Option String}
    (hp : p n = false) (h : Rounds p (as.reverse ++ es) k r) :
    Rounds p (.node n as s :: es) (k + 1) r

variable {p : String → Bool} {es : List Expr}

/-- The nodes of a stack whose top is an expression: its root, then those of what is put in its place. -/
lemma nodes_stack (n : String) (as es : List Expr) (s : SortSpec) :
    (Expr.node n as s :: es).flatMap nodes = .node n as s :: (as.reverse ++ es).flatMap nodes := by
  rw [List.flatMap_cons, List.flatMap_append, nodes, nodesOfAll_eq, List.cons_append]

/-- How many rounds it takes to come to a name among those of the given nodes, or past them all. -/
def roundsFor (p : String → Bool) (us : List Expr) : Nat :=
  min (us.findIdx (fun u => p u.name) + 1) us.length

lemma roundsFor_of_pos {u : Expr} (h : p u.name = true) (us : List Expr) :
    roundsFor p (u :: us) = 1 := by
  simp only [roundsFor, List.findIdx_cons, h, cond_true, List.length_cons]
  omega

lemma roundsFor_of_neg {u : Expr} (h : p u.name = false) (us : List Expr) :
    roundsFor p (u :: us) = roundsFor p us + 1 := by
  simp only [roundsFor, List.findIdx_cons, h, cond_false, List.length_cons]
  omega

/-- A search takes one round for each node up to the one that it finds. -/
lemma Rounds.eq {k : Nat} {r : Option String} (h : Rounds p es k r) :
    k = roundsFor p (es.flatMap nodes) ∧ r = searchName p es := by
  induction h with
  | done => exact ⟨rfl, by rw [searchName]⟩
  | @found n as es s hp =>
    rw [nodes_stack, roundsFor_of_pos (u := .node n as s) hp, searchName, if_pos hp]
    exact ⟨rfl, rfl⟩
  | @next n as es s k r hp h ih =>
    have hn : ¬ p n = true := by simp [hp]
    rw [nodes_stack, roundsFor_of_neg (u := .node n as s) hp, searchName, if_neg hn, ← ih.1]
    exact ⟨rfl, ih.2⟩

/-- Every search ends: there are fewer nodes on the stack after each round. -/
lemma exists_rounds (p : String → Bool) (es : List Expr) : ∃ k, Rounds p es k (searchName p es) := by
  fun_induction searchName p es with
  | case1 => exact ⟨0, .done⟩
  | case2 n as s es hp => exact ⟨1, .found hp⟩
  | case3 n as s es hp ih =>
    rw [List.unattach_reverse, List.unattach_attach] at ih
    obtain ⟨k, hk⟩ := ih
    exact ⟨k + 1, .next (by simpa using hp) hk⟩

/-- **The rounds come to an end, and in one way only.** -/
theorem rounds_iff {k : Nat} {r : Option String} :
    Rounds p es k r ↔ k = roundsFor p (es.flatMap nodes) ∧ r = searchName p es := by
  refine ⟨Rounds.eq, ?_⟩
  rintro ⟨rfl, rfl⟩
  obtain ⟨k, hk⟩ := exists_rounds p es
  rw [← hk.eq.1]
  exact hk

/-- **The search finds the first node** whose name is searched. -/
lemma searchName_eq_first (p : String → Bool) (e : Expr) :
    searchName p [e] = (e.nodes.find? fun u => p u.name).map name := by
  rw [searchName_eq_find?, List.flatMap_singleton, ← map_name_nodes, List.find?_map]
  rfl

end Expr

namespace Session

/-! ### The check -/

/-- The name is that of a declared function to the Booleans that is not registered as a relation. -/
def Lacks (s : Session) (n : String) : Prop :=
  ∃ f, s.symbols.function? n = some f ∧ f.range = .bool ∧ s.isRegistered n = false

lemma isUnregistered_iff {s : Session} {n : String} : s.isUnregistered n = true ↔ s.Lacks n := by
  simp [isUnregistered, Lacks, Option.any_eq_true]

lemma searchName_eq_some_iff {s : Session} {e : Expr} {n : String} :
    Expr.searchName s.isUnregistered [e] = some n ↔ ∃ pre u post, e.nodes = pre ++ u :: post ∧
      (∀ v ∈ pre, ¬ s.Lacks v.name) ∧ s.Lacks u.name ∧ u.name = n := by
  rw [Expr.searchName_eq_first, Option.map_eq_some_iff]
  simp only [List.find?_eq_some_iff_append, ← isUnregistered_iff]
  constructor
  · rintro ⟨u, ⟨hu, pre, post, hnodes, hpre⟩, rfl⟩
    exact ⟨pre, u, post, hnodes, by simpa using hpre, hu, rfl⟩
  · rintro ⟨pre, u, post, hnodes, hpre, hu, rfl⟩
    exact ⟨u, ⟨hu, pre, post, hnodes, by simpa using hpre⟩, rfl⟩

lemma searchName_eq_none_iff_nodes {s : Session} {e : Expr} :
    Expr.searchName s.isUnregistered [e] = none ↔ ∀ u ∈ e.nodes, ¬ s.Lacks u.name := by
  rw [Expr.searchName_eq_first, Option.map_eq_none_iff, List.find?_eq_none]
  simp only [isUnregistered_iff]

/-- **The check of relations finds the first relation that is not registered.** In every session and for
every expression the search takes a certain number of rounds, at most one for each node, and ends in one
way. The check fails exactly if some node, however deep, has the name of a declared function to the
Booleans that is not registered; the name that it fails with is that of the first such node, the root being
before the nodes of its arguments and those of a later argument before those of an earlier one; and
whether it fails or not it leaves the session as it is, asks nothing of the engine and logs nothing. -/
theorem checkRelations_finds_first (e : Expr) (s : Session) :
    (∃ k ≤ e.nodes.length, ∀ k' r, Expr.Rounds s.isUnregistered [e] k' r ↔
      k' = k ∧ r = Expr.searchName s.isUnregistered [e]) ∧
    (∀ u, u ∈ e.nodes ↔ Relation.ReflTransGen Expr.HasArg e u) ∧
    ∀ E,
      ((∃ n, (checkRelations e E s).result = .error (.unknownRelation n)) ↔
        ∃ u, Relation.ReflTransGen Expr.HasArg e u ∧ s.Lacks u.name) ∧
      (∀ n, checkRelations e E s = ⟨.error (.unknownRelation n), s, [], []⟩ ↔
        ∃ pre u post, e.nodes = pre ++ u :: post ∧ (∀ v ∈ pre, ¬ s.Lacks v.name) ∧
          s.Lacks u.name ∧ u.name = n) ∧
      (checkRelations e E s = ⟨.ok (), s, [], []⟩ ↔ ∀ u ∈ e.nodes, ¬ s.Lacks u.name) := by
  refine ⟨⟨_, ?bound, fun k' r => Expr.rounds_iff⟩, fun u => Expr.mem_nodes_iff, fun E => ?_⟩
  case bound =>
    rw [List.flatMap_singleton]
    exact Nat.min_le_right _ _
  rw [checkRelations_eq]
  refine ⟨?fails, fun n => ?_, ?_⟩
  case fails =>
    simp only [← Expr.mem_nodes_iff]
    have hnone := searchName_eq_none_iff_nodes (s := s) (e := e)
    rcases hn : Expr.searchName s.isUnregistered [e] with _ | n
    · simpa using hnone.mp hn
    · simpa [hn] using hnone
  · rw [← searchName_eq_some_iff]
    rcases Expr.searchName s.isUnregistered [e] with _ | m <;> simp
  · rw [← searchName_eq_none_iff_nodes]
    rcases Expr.searchName s.isUnregistered [e] with _ | m <;> simp

/-- Of two relations that are not registered the one in the last argument is found, although the other is
deeper down. -/
example (E : Engine) :
    let ds := [("p", SortSpec.function [] .bool), ("q", .function [] .bool)]
    let e := Expr.node "and" [.node "not" [.symbol "p" .bool] .bool, .symbol "q" .bool] .bool
    (checkRelations e E (run (new .default) (ds.map fun d => (E, .declare d.1 d.2)))).result =
      .error (.unknownRelation "q") := by
  with_unfolding_all rfl

end Session

end Horn

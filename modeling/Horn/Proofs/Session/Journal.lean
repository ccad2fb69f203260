import Horn.Proofs.Session.Moves

/-!
The calls that a run makes of its engines, and what holds of a session whatever has been done with it:
its table is well formed, and its relations are functions of the table whose symbols are the ones that
engines have accepted, in this order.
-/

namespace Horn.Session

def journal (s : Session) : List (Engine × Command) → List (Engine × EngineCall)
  | [] => []
  | (E, x) :: cs =>
    (callsOf (perform x E s)).map (fun k => (E, k)) ++ journal (perform x E s).session cs

def accepts? : Engine × EngineCall → Option Symbol
  | (E, .register f) => match E.register f with
    | .ok _ => some f
    | .error _ => none
  | _ => none

def accepted (J : List (Engine × EngineCall)) : List Symbol := J.filterMap accepts?

def obliging : Engine where
  register _ := .ok ()
  addRule _ _ := .ok ()
  query _ := .ok .unknown
  reason _ := .ok ""
  trace _ := .ok []
  answer _ := .ok none

/-- **What holds of a session after any run**, where `J` holds the calls of the run. -/
structure Good (J : List (Engine × EngineCall)) (s : Session) : Prop where
  symbols : s.symbols.WellFormed
  relation : ∀ d ∈ s.relations, d ∈ s.symbols.functions ∧ d.symbol.range = .bool
  nodup : (s.relations.map (·.name)).Nodup
  registered : accepted J = s.relations.map (·.symbol)

lemma good_new (c : Config) : Good [] (new c) where
  symbols := Symbols.wellFormed_empty
  relation _ h := by cases h
  nodup := List.nodup_nil
  registered := rfl

lemma isRegistered_iff {s : Session} {n : String} :
    s.isRegistered n = true ↔ ∃ d ∈ s.relations, d.name = n := by
  unfold isRegistered
  rw [List.any_eq_true]
  simp only [beq_iff_eq]

/-! ### Functions that may be named -/

/-- The declaration is that of a function that admitted expressions may name: if it is one to the
Booleans, it is registered. -/
def Usable (s : Session) (d : Declaration) : Prop :=
  d ∈ s.symbols.functions ∧ (d.symbol.range = .bool → d ∈ s.relations)

section

variable {s s' : Session} {J : List (Engine × EngineCall)} {d : Declaration}

/-- **The functions that an admitted expression names may be named.** -/
lemma Good.usable (hg : Good J s) {e : Expr} (ha : s.Admits e) (hd : d ∈ s.symbols.functions)
    (hn : d.name ∈ e.names) : s.Usable d := by
  refine ⟨hd, fun hb => ?_⟩
  obtain ⟨hfind, hk⟩ := hg.symbols.mem_functions_iff.mp hd
  have hreg : s.isRegistered d.name = true := by
    have hun := ha d.name hn
    unfold isUnregistered at hun
    rw [hg.symbols.function?_eq_some_iff.mpr ⟨d, hfind, hk, rfl⟩] at hun
    simpa [hb] using hun
  obtain ⟨d', hd', hn'⟩ := isRegistered_iff.mp hreg
  have hmem := (List.mem_filter.mp (hg.relation d' hd').1).1
  rwa [← hg.symbols.unique hmem (List.mem_filter.mp hd).1 hn']

lemma Good.function?_name (hg : Good J s) (hd : d ∈ s.relations) :
    s.symbols.function? d.name = some d.symbol := by
  obtain ⟨hfind, hk⟩ := hg.symbols.mem_functions_iff.mp (hg.relation d hd).1
  exact hg.symbols.function?_eq_some_iff.mpr ⟨d, hfind, hk, rfl⟩

lemma Usable.isUnregistered (h : s.Usable d) (hg : Good J s) : s.isUnregistered d.name = false := by
  obtain ⟨hfind, hk⟩ := hg.symbols.mem_functions_iff.mp h.1
  unfold Session.isUnregistered
  rw [hg.symbols.function?_eq_some_iff.mpr ⟨d, hfind, hk, rfl⟩]
  by_cases hb : d.symbol.range = .bool
  · rw [isRegistered_iff.mpr ⟨d, h.2 hb, rfl⟩]
    simp
  · simp [hb]

/-- Nothing that is declared or registered is taken back. -/
structure Grows (s s' : Session) : Prop where
  declared : ∀ d ∈ s.symbols.declarations, d ∈ s'.symbols.declarations
  registered : ∀ d ∈ s.relations, d ∈ s'.relations

lemma Grows.usable (h : Grows s s') (hd : s.Usable d) : s'.Usable d := by
  obtain ⟨hd, hb⟩ := hd
  obtain ⟨hd, hk⟩ := List.mem_filter.mp hd
  exact ⟨List.mem_filter.mpr ⟨h.declared d hd, hk⟩, fun hr => h.registered d (hb hr)⟩

end

/-! ### What a run keeps -/

section

variable {E : Engine} {s s' : Session} {J : List (Engine × EngineCall)} {ks : List EngineCall}

lemma Preparing.grows (h : Preparing E s ks s') : Grows s s' := by
  induction h with
  | still => exact ⟨fun _ hd => hd, fun _ hd => hd⟩
  | declare _ _ _ ih =>
    exact ⟨fun d hd => List.mem_append_left _ (ih.declared d hd), ih.registered⟩
  | refused _ _ _ _ _ ih => exact ih
  | registered _ _ _ _ _ ih =>
    exact ⟨ih.declared, fun d hd => List.mem_append_left _ (ih.registered d hd)⟩

lemma Moves.grows (h : Moves E s ks s') : Grows s s' := by
  cases h with
  | prepared h => exact h.grows
  | handed h h' =>
    cases h' with
    | refused ha ht hu hE => exact h.grows
    | added ha ht hu hE => exact ⟨h.grows.declared, h.grows.registered⟩
    | asked ha ht hu hks => exact ⟨h.grows.declared, h.grows.registered⟩

/-- **A run takes nothing back** of what is declared or registered. -/
lemma run_grows (s : Session) (cs : List (Engine × Command)) : Grows s (run s cs) := by
  induction cs generalizing s with
  | nil => exact ⟨fun _ hd => hd, fun _ hd => hd⟩
  | cons x cs ih =>
    have hstep := (perform_moves x.2 x.1 s).grows
    have hrest := ih (perform x.2 x.1 s).session
    exact ⟨fun d hd => hrest.declared d (hstep.declared d hd),
      fun d hd => hrest.registered d (hstep.registered d hd)⟩

lemma accepted_append_map : accepted (J ++ ks.map fun k => (E, k)) =
    accepted J ++ accepted (ks.map fun k => (E, k)) := by
  unfold accepted
  rw [List.filterMap_append]

lemma accepted_register_ok {f : Symbol} (h : E.register f = .ok ()) :
    accepted [(E, .register f)] = [f] := by
  simp [accepted, accepts?, h]

lemma accepted_register_error {f : Symbol} {x : Failure} (h : E.register f = .error x) :
    accepted [(E, .register f)] = [] := by
  simp [accepted, accepts?, h]

/-- **Preparing keeps what holds of a session.** -/
lemma Preparing.good (h : Preparing E s ks s') (hg : Good J s) :
    Good (J ++ ks.map fun k => (E, k)) s' := by
  induction h with
  | still => rw [List.map_nil, List.append_nil]; exact hg
  | @declare ks s' n sp f _ hf hs ih =>
    refine ⟨ih.symbols.add hf hs, fun d hd => ?_, ih.nodup, ih.registered⟩
    obtain ⟨hd, hb⟩ := ih.relation d hd
    obtain ⟨hd, hk⟩ := List.mem_filter.mp hd
    exact ⟨List.mem_filter.mpr ⟨List.mem_append_left _ hd, hk⟩, hb⟩
  | @refused ks s' n d x _ hr hf hb hE ih =>
    refine ⟨ih.symbols, ih.relation, ih.nodup, ?_⟩
    rw [List.map_append, ← List.append_assoc, List.map_singleton, accepted, List.filterMap_append,
      ← accepted, ← accepted, ih.registered, accepted_register_error hE, List.append_nil]
  | @registered ks s' n d _ hr hf hb hE ih =>
    have hn : d.name = n := Symbols.name_of_find? hf
    refine ⟨ih.symbols, fun d' hd' => ?_, ?_, ?_⟩
    · rcases List.mem_append.mp hd' with hd' | hd'
      · exact ih.relation d' hd'
      · rw [List.mem_singleton.mp hd']
        exact ⟨List.mem_of_find?_eq_some hf, hb⟩
    · rw [List.map_append, List.nodup_append]
      refine ⟨ih.nodup, List.nodup_singleton _, ?_⟩
      intro m hm m' hm'
      rw [List.map_singleton, List.mem_singleton] at hm'
      rw [hm', hn]
      rintro rfl
      obtain ⟨d', hd', hm⟩ := List.mem_map.mp hm
      rw [isRegistered_iff.mpr ⟨d', hd', hm⟩] at hr
      cases hr
    · rw [List.map_append, ← List.append_assoc, List.map_singleton, accepted,
        List.filterMap_append, ← accepted, ← accepted, ih.registered, accepted_register_ok hE,
        List.map_append, List.map_singleton]

lemma accepted_eq_nil (h : ∀ k ∈ ks, ∀ f, k ≠ .register f) :
    accepted (ks.map fun k => (E, k)) = [] := by
  unfold accepted
  rw [List.filterMap_eq_nil_iff]
  intro p hp
  obtain ⟨k, hk, rfl⟩ := List.mem_map.mp hp
  have hne := h k hk
  unfold accepts?
  split
  · rename_i E' f heq
    cases heq
    exact absurd rfl (hne f)
  · rfl

lemma Handing.not_register (h : Handing E s ks s') : ∀ k ∈ ks, ∀ f, k ≠ .register f := by
  intro k hk f
  cases h with
  | refused ha ht hu hE => rw [List.mem_singleton.mp hk]; exact nofun
  | added ha ht hu hE => rw [List.mem_singleton.mp hk]; exact nofun
  | asked ha ht hu hks =>
    rcases List.mem_cons.mp hk with rfl | hk
    · exact nofun
    · rintro rfl
      cases hks _ hk

/-- **Handing a term to the engine keeps what holds of a session.** -/
lemma Handing.good (h : Handing E s ks s') (hg : Good J s) :
    Good (J ++ ks.map fun k => (E, k)) s' := by
  have hks : accepted (ks.map fun k => (E, k)) = [] := accepted_eq_nil h.not_register
  have hacc : accepted (J ++ ks.map fun k => (E, k)) = s.relations.map (·.symbol) := by
    rw [accepted_append_map, hks, List.append_nil, hg.registered]
  cases h with
  | refused ha ht hu hE => exact ⟨hg.symbols, hg.relation, hg.nodup, hacc⟩
  | added ha ht hu hE => exact ⟨hg.symbols, hg.relation, hg.nodup, hacc⟩
  | asked ha ht hu hks => exact ⟨hg.symbols, hg.relation, hg.nodup, hacc⟩

lemma Moves.good (h : Moves E s ks s') (hg : Good J s) : Good (J ++ ks.map fun k => (E, k)) s' := by
  cases h with
  | prepared h => exact h.good hg
  | handed h h' =>
    rw [List.map_append, ← List.append_assoc]
    exact h'.good (h.good hg)

/-- **Every run keeps what holds of a session.** -/
theorem run_good (cs : List (Engine × Command)) (hg : Good J s) :
    Good (J ++ journal s cs) (run s cs) := by
  induction cs generalizing J s with
  | nil => rw [journal, List.append_nil]; exact hg
  | cons c cs ih =>
    obtain ⟨E, x⟩ := c
    rw [journal, ← List.append_assoc]
    exact ih ((perform_moves x E s).good hg)

end

/-- What holds of a session that has been run from the start. -/
lemma good_run (c : Config) (cs : List (Engine × Command)) :
    Good (journal (new c) cs) (run (new c) cs) := by
  have h := run_good cs (good_new c)
  rwa [List.nil_append] at h

end Horn.Session

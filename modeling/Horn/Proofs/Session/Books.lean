import Horn.Proofs.Session.Protocol
import Horn.Proofs.Session.Rules

/-!
The books of a session beside what its engines have accepted. Main statement: the relations and the rules
of a session are those that engines have accepted, in the same order, and both lists only grow at their
ends; a declaration or a registration that fails leaves the session as it was.
-/

namespace Horn.Session

def acceptsRule? : Engine × EngineCall → Option (String × Term)
  | (E, .addRule t l) => match E.addRule t l with
    | .ok _ => some (l, t)
    | .error _ => none
  | _ => none

def acceptedRules (J : List (Engine × EngineCall)) : List (String × Term) := J.filterMap acceptsRule?

section

variable {E : Engine} {s s' : Session} {ks : List EngineCall}

/-! ### Rules -/

lemma acceptedRules_append (J J' : List (Engine × EngineCall)) :
    acceptedRules (J ++ J') = acceptedRules J ++ acceptedRules J' :=
  List.filterMap_append

lemma acceptedRules_eq_nil (h : ∀ k ∈ ks, ∀ t l, k ≠ .addRule t l) :
    acceptedRules (ks.map fun k => (E, k)) = [] := by
  unfold acceptedRules
  rw [List.filterMap_eq_nil_iff]
  intro p hp
  obtain ⟨k, hk, rfl⟩ := List.mem_map.mp hp
  have hne := h k hk
  cases k with
  | addRule t l => exact absurd rfl (hne t l)
  | _ => rfl

lemma Preparing.accepts_no_rule (h : Preparing E s ks s') :
    acceptedRules (ks.map fun k => (E, k)) = [] := by
  refine acceptedRules_eq_nil ?_
  rintro k hk t l rfl
  cases h.term?_eq_none _ hk

/-- What an engine accepts of a term that is handed to it is recorded. -/
lemma Handing.rules (h : Handing E s ks s') :
    s'.rules = s.rules ++ acceptedRules (ks.map fun k => (E, k)) := by
  cases h with
  | refused ha ht hu hE => simp [acceptedRules, acceptsRule?, hE]
  | added ha ht hu hE => simp [acceptedRules, acceptsRule?, hE]
  | asked ha ht hu hks =>
    rw [acceptedRules_eq_nil, List.append_nil]
    intro k hk t l
    rcases List.mem_cons.mp hk with rfl | hk
    · exact nofun
    · rintro rfl
      cases hks _ hk

/-- **A command records the rules that the engine accepts from it.** -/
lemma Moves.rules (h : Moves E s ks s') :
    s'.rules = s.rules ++ acceptedRules (ks.map fun k => (E, k)) := by
  cases h with
  | prepared h => rw [h.accepts_no_rule, List.append_nil, h.rules]
  | handed h h' =>
    rw [List.map_append, acceptedRules_append, h.accepts_no_rule, List.nil_append, h'.rules, h.rules]

/-- **A run records the rules that engines accept from it**, in their order. -/
theorem run_rules (s : Session) (cs : List (Engine × Command)) :
    (run s cs).rules = s.rules ++ acceptedRules (journal s cs) := by
  induction cs generalizing s with
  | nil => rw [journal]; exact (List.append_nil _).symm
  | cons c cs ih =>
    obtain ⟨E, x⟩ := c
    have hrest := ih (perform x E s).session
    rw [(perform_moves x E s).rules, List.append_assoc, ← acceptedRules_append] at hrest
    exact hrest

/-! ### Names and relations -/

lemma Preparing.kept (h : Preparing E s ks s') :
    s.symbols.declarations <+: s'.symbols.declarations ∧ s.relations <+: s'.relations := by
  induction h with
  | still => exact ⟨List.prefix_refl _, List.prefix_refl _⟩
  | declare _ _ _ ih => exact ⟨ih.1.trans (List.prefix_append _ _), ih.2⟩
  | refused _ _ _ _ _ ih => exact ih
  | registered _ _ _ _ _ ih => exact ⟨ih.1, ih.2.trans (List.prefix_append _ _)⟩

/-- **What is declared or registered stays**, and more comes after it. -/
lemma Moves.kept (h : Moves E s ks s') :
    s.symbols.declarations <+: s'.symbols.declarations ∧ s.relations <+: s'.relations := by
  cases h with
  | prepared h => exact h.kept
  | handed h h' => cases h' <;> exact h.kept

theorem run_relations_kept (s : Session) (cs : List (Engine × Command)) :
    s.relations <+: (run s cs).relations := by
  induction cs generalizing s with
  | nil => exact List.prefix_refl _
  | cons x cs ih => exact (perform_moves x.2 x.1 s).kept.2.trans (ih _)

/-! ### Steps that fail -/

lemma DeclareEnd.session_of_error {n : String} {sp : SortSpec} {o : Outcome Unit} {x : SessionError}
    (h : DeclareEnd n sp s o) (ho : o.result = .error x) : o.session = s := by
  cases h with
  | failed hd => rfl
  | again hf hs => rfl
  | declared hf hs => cases ho

lemma RegisterEnd.session_of_error {n : String} {o : Outcome Unit} {x : SessionError}
    (h : RegisterEnd n E s o) (ho : o.result = .error x) : o.session = s := by
  cases h with
  | registered hr hf hb hE => cases ho
  | _ => rfl

lemma newVariable_session_of_error {n : String} {sp : SortSpec} {x : SessionError}
    (h : (newVariable n sp E s).result = .error x) : (newVariable n sp E s).session = s := by
  unfold newVariable at h ⊢
  rw [Action.bind_pure] at h ⊢
  rcases hr : (declare n sp E s).result with y | ⟨⟩
  · exact (declare_ends n sp E s).session_of_error hr
  · rw [hr] at h
    cases h

end

/-- **The books mirror the engines**, after any run. No name is registered twice; the symbols of the
relations and the labels with the clauses of the rules are those that engines have accepted, in this
order; a relation is a declared function to the Booleans, and its symbol is the one that was registered.
Whatever the session is then told to do, both lists only grow at their ends. Declaring a name, making a
variable or registering a relation leaves the session as it was if it fails. -/
theorem books_mirror (c : Config) (cs : List (Engine × Command)) :
    let s := run (new c) cs
    let J := journal (new c) cs
    (s.relations.map (·.name)).Nodup ∧
    s.relations.map (·.symbol) = accepted J ∧
    s.rules = acceptedRules J ∧
    (∀ d ∈ s.relations, s.symbols.function? d.name = some d.symbol ∧ d.symbol.range = .bool) ∧
    (∀ cs', s.relations <+: (run s cs').relations ∧ s.rules <+: (run s cs').rules) ∧
    (∀ E n sp x, (declare n sp E s).result = .error x → (declare n sp E s).session = s) ∧
    (∀ E n sp x, (newVariable n sp E s).result = .error x → (newVariable n sp E s).session = s) ∧
    ∀ E e x, (register e E s).result = .error x → (register e E s).session = s := by
  intro s J
  have hg : Good J s := good_run c cs
  refine ⟨hg.nodup, hg.registered.symm, ?_, fun d hd => ?_, fun cs' => ?_, ?_, ?_, ?_⟩
  · exact (run_rules (new c) cs).trans (List.nil_append _)
  · exact ⟨hg.function?_name hd, (hg.relation d hd).2⟩
  · exact ⟨run_relations_kept s cs', run_rules_kept s cs'⟩
  · exact fun E n sp x h => (declare_ends n sp E s).session_of_error h
  · exact fun E n sp x h => newVariable_session_of_error h
  · exact fun E e x h => (register_ends e E s).session_of_error h

end Horn.Session

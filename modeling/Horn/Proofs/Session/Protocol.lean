import Horn.Proofs.Closure
import Horn.Proofs.Session.Journal

/-!
The protocol between a session and its engines. Main statement: every relation in a term that is handed
to an engine has been accepted before, each registered relation has been accepted once, and a command
that meets an unknown relation makes no call.
-/

namespace Horn

def EngineCall.term? : EngineCall → Option Term
  | .addRule t _ | .query t => some t
  | _ => none

namespace Session

section

variable {E : Engine} {s s' : Session} {J : List (Engine × EngineCall)} {ks : List EngineCall}

/-- **What an engine may be handed** by a session whose relations are those in `acc`: a formula closed
over the constants of the session's table, made of declared symbols, in which all relations are
accepted. -/
structure Handable (Γ : Symbols) (acc : List Symbol) (t : Term) : Prop where
  closed : ∃ q u, t = Term.close q Γ.free u ∧ ∀ f ∈ u.symbols, ∃ d ∈ Γ.declarations, d.symbol = f
  declared : ∀ f ∈ t.symbols, ∃ d ∈ Γ.functions, d.symbol = f
  relation : ∀ f ∈ t.symbols, f.range = .bool → f ∈ acc

/-- **The closure of an admitted formula may be handed to the engine.** -/
lemma Good.handable (hg : Good J s) {e : Expr} {t : Term} (ha : s.Admits e)
    (ht : e.toFormula s.symbols = .ok t) (q : Quantifier) :
    Handable s.symbols (accepted J) (t.close q s.symbols.free) := by
  have hmade := Expr.toTerm_made hg.symbols (Expr.toFormula_eq_ok.mp ht).1
  refine ⟨⟨q, t, rfl, fun f hf => ?_⟩, fun f hf => ?_, fun f hf hb => ?_⟩
  · obtain ⟨d, hd, -, hs⟩ := hmade.symbols f hf
    exact ⟨d, hd, hs⟩
  · obtain ⟨d, hd, -, hs⟩ := hmade.symbols_close hg.symbols q f hf
    exact ⟨d, hd, hs⟩
  · obtain ⟨d, hd, hn, rfl⟩ := hmade.symbols_close hg.symbols q f hf
    rw [hg.registered]
    exact List.mem_map_of_mem ((hg.usable ha hd hn).2 hb)

/-- A term is handed to the engine before anything else is asked of it. -/
lemma Handing.handable (h : Handing E s ks s') (hg : Good J s) {pre post : List EngineCall}
    {k : EngineCall} {t : Term} (hks : ks = pre ++ k :: post) (hk : k.term? = some t) :
    pre = [] ∧ Handable s'.symbols (accepted J) t := by
  cases h with
  | refused ha ht hu hE =>
    rcases pre with _ | ⟨k', pre⟩
    · cases hks; cases hk; subst hu; exact ⟨rfl, hg.handable ha ht .all⟩
    · simp at hks
  | added ha ht hu hE =>
    rcases pre with _ | ⟨k', pre⟩
    · cases hks; cases hk; subst hu; exact ⟨rfl, hg.handable ha ht .all⟩
    · simp at hks
  | @asked e t' u ks reason ha ht hu hq =>
    rcases pre with _ | ⟨k', pre⟩
    · cases hks; cases hk; subst hu; exact ⟨rfl, hg.handable ha ht .any⟩
    · have hf : k.isFollowUp = true := by
        refine hq k ?_
        rw [(List.cons.inj hks).2]
        simp
      cases k <;> simp [EngineCall.isFollowUp, EngineCall.term?] at hf hk

lemma Preparing.term?_eq_none (h : Preparing E s ks s') : ∀ k ∈ ks, k.term? = none := by
  have hsnoc : ∀ {ks : List EngineCall} {f : Symbol}, (∀ k ∈ ks, k.term? = none) →
      ∀ k ∈ ks ++ [.register f], k.term? = none := by
    intro ks f ih k hk
    rcases List.mem_append.mp hk with hk | hk
    · exact ih k hk
    · rw [List.mem_singleton.mp hk]
      rfl
  induction h with
  | still => exact fun k hk => by cases hk
  | declare _ _ _ ih => exact ih
  | refused _ _ _ _ _ ih => exact hsnoc ih
  | registered _ _ _ _ _ ih => exact hsnoc ih

/-- **Whatever a command hands to the engine may be handed to it**, by what has been accepted until
then. -/
lemma Moves.handable (h : Moves E s ks s') (hg : Good J s) {pre post : List EngineCall}
    {k : EngineCall} {t : Term} (hks : ks = pre ++ k :: post) (hk : k.term? = some t) :
    Handable s'.symbols (accepted (J ++ pre.map fun k => (E, k))) t := by
  cases h with
  | prepared h =>
    have hnone := h.term?_eq_none k (by rw [hks]; simp)
    rw [hk] at hnone
    cases hnone
  | @handed ks₁ ks₂ s₁ _ h h' =>
    rcases List.append_eq_append_iff.mp hks with ⟨as, rfl, has⟩ | ⟨bs, rfl, hbs⟩
    · obtain ⟨rfl, hh⟩ := h'.handable (h.good hg) has hk
      rw [List.append_nil]
      exact hh
    · rcases bs with _ | ⟨b, bs⟩
      · have hks₂ : ks₂ = [] ++ k :: post := hbs.symm
        obtain ⟨-, hh⟩ := h'.handable (h.good hg) hks₂ hk
        rwa [List.append_nil] at hh
      · have hnone := h.term?_eq_none k (by rw [(List.cons.inj hbs).1]; simp)
        rw [hk] at hnone
        cases hnone

/-- Relations of a session have one symbol only if their names are cut to one and their domains are
equal. -/
lemma Good.symbol_eq_iff (hg : Good J s) {d d' : Declaration} (hd : d ∈ s.relations)
    (hd' : d' ∈ s.relations) : d.symbol = d'.symbol ↔
      Symbol.nameOf d.name = Symbol.nameOf d'.name ∧ d.symbol.domain = d'.symbol.domain := by
  have hname : ∀ x ∈ s.relations, x.symbol.name = Symbol.nameOf x.name := by
    intro x hx
    exact (SortSpec.toSymbol_eq_ok (hg.symbols.made x (List.mem_filter.mp (hg.relation x hx).1).1)).1
  rw [← hname d hd, ← hname d' hd']
  constructor
  · intro h
    rw [h]
    exact ⟨rfl, rfl⟩
  · rintro ⟨hn, hdom⟩
    exact Symbol.eq_of_parts hn hdom ((hg.relation d hd).2.trans (hg.relation d' hd').2.symm)

/-- **No symbol is accepted twice if and only if no two relations share theirs.** -/
lemma Good.nodup_accepted_iff (hg : Good J s) : (accepted J).Nodup ↔
    ∀ d ∈ s.relations, ∀ d' ∈ s.relations, Symbol.nameOf d.name = Symbol.nameOf d'.name →
      d.symbol.domain = d'.symbol.domain → d = d' := by
  rw [hg.registered, List.nodup_map_iff_inj_on hg.nodup.of_map]
  constructor
  · intro h d hd d' hd' hn hdom
    exact h d hd d' hd' ((hg.symbol_eq_iff hd hd').mpr ⟨hn, hdom⟩)
  · intro h d hd d' hd' hs
    obtain ⟨hn, hdom⟩ := (hg.symbol_eq_iff hd hd').mp hs
    exact h d hd d' hd' hn hdom

end

/-! ### Unknown relations -/

section

variable {E : Engine} {s : Session} {m n : String}

lemma Failure.error_ne (x : Failure) : x.error ≠ .unknownRelation n := by
  cases x <;> exact nofun

lemma DeclareEnd.calls {sp : SortSpec} {o : Outcome Unit} (h : DeclareEnd m sp s o) :
    o.calls = [] := by
  cases h with
  | failed hd => rfl
  | again hf hs => rfl
  | declared hf hs => rfl

lemma RegisterEnd.calls_of_unknown {o : Outcome Unit} (h : RegisterEnd m E s o)
    (ho : o.result = .error (.unknownRelation n)) : o.calls = [] := by
  cases h with
  | again hr => rfl
  | missing hr hf => rfl
  | notRelation hr hf hb => rfl
  | refused hr hf hb hE => exact absurd (Except.error.inj ho) (Failure.error_ne _)
  | registered hr hf hb hE => cases ho

lemma ErrorEnd.calls_of_unknown {o : Outcome Expr} (h : ErrorEnd E s o)
    (ho : o.result = .error (.unknownRelation n)) : o.calls = [] := by
  cases h with
  | known hr => rfl
  | undeclared hr hd hx => exact hd.calls
  | unregistered hr hd hx hg hx' =>
    cases ho
    rw [hd.calls, hg.calls_of_unknown hx', List.append_nil]
  | made hr hd hx hg hx' => cases ho

lemma HeadEnd.calls_of_unknown {e : Expr} {o : Outcome Expr} (h : HeadEnd e E s o)
    (ho : o.result = .error (.unknownRelation n)) : o.calls = [] := by
  cases h with
  | error hf => exact (errorRelation_ends E s).calls_of_unknown ho
  | registered hf hr => rfl
  | notHead hf hr => rfl

/-- A rule that is refused for an unknown relation makes no call. -/
lemma RuleEnd.calls_of_unknown {e : Expr} {l : String} {o : Outcome Unit}
    (h : RuleEnd e l E s (withHead e E s) o) (ho : o.result = .error (.unknownRelation n)) :
    o.calls = [] := by
  cases h with
  | unknown hn => rfl
  | @noHead x hn hx =>
    cases ho
    rw [withHead_eq] at hx ⊢
    refine (head_ends e.ruleHead E s).calls_of_unknown (n := n) ?_
    rcases hr : (head e.ruleHead E s).result with y | h
    · rw [hr] at hx; cases hx; rfl
    · rw [hr] at hx; cases hx
  | noTerm hn hx ht => cases ho
  | refused hn hx ht hu hE => exact absurd (Except.error.inj ho) (Failure.error_ne _)
  | added hn hx ht hu hE => cases ho

/-- A query that is refused for an unknown relation makes no call. -/
lemma QueryEnd.calls_of_unknown {e : Expr} {o : Outcome QueryResult} (h : QueryEnd e E s o)
    (ho : o.result = .error (.unknownRelation n)) : o.calls = [] := by
  cases h with
  | unknown hn => rfl
  | noTerm hn ht => rfl
  | asked hn ht ha => exact absurd ho (ha.result_ne n)

end

/-! ### The protocol -/

/-- **The protocol between a session and its engines**, over any run and whatever the engines answer.
A term is handed to an engine only if all relations in it have been accepted by then and all its symbols
are declared. What has been accepted are the symbols of the registered relations, one for each name; one
symbol is accepted twice only for two names that are one up to their first NUL. A rule or query that
meets an unknown relation makes no call. -/
theorem engine_protocol (c : Config) (cs : List (Engine × Command)) (E : Engine) (x : Command) :
    let s := run (new c) cs
    let J := journal (new c) cs
    (∀ pre p k post t, (perform x E s).calls = pre ++ (p, k) :: post → k.term? = some t →
      Handable (perform x E s).session.symbols (accepted (J ++ pre.map fun k => (E, k.2))) t) ∧
    accepted J = s.relations.map (·.symbol) ∧ (s.relations.map (·.name)).Nodup ∧
    ((accepted J).Nodup ↔ ∀ d ∈ s.relations, ∀ d' ∈ s.relations,
      Symbol.nameOf d.name = Symbol.nameOf d'.name → d.symbol.domain = d'.symbol.domain → d = d') ∧
    (∀ e l n, (addRule e l E s).result = .error (.unknownRelation n) →
      (addRule e l E s).calls = []) ∧
    ∀ e n, (query e E s).result = .error (.unknownRelation n) → (query e E s).calls = [] := by
  intro s J
  have hg : Good J s := good_run c cs
  refine ⟨?_, hg.registered, hg.nodup, hg.nodup_accepted_iff, ?_, ?_⟩
  · intro pre p k post t hcalls hk
    have hks : callsOf (perform x E s) = pre.map (·.2) ++ k :: post.map (·.2) := by
      rw [callsOf, hcalls, List.map_append, List.map_cons]
    have hh := (perform_moves x E s).handable hg hks hk
    rwa [List.map_map] at hh
  · intro e l n ho
    exact (addRule_ends e l E s).calls_of_unknown ho
  · intro e n ho
    exact (query_ends e E s).calls_of_unknown ho

/-- Relations whose names hold no NUL are accepted once. -/
theorem accepted_nodup (c : Config) (cs : List (Engine × Command))
    (h : ∀ d ∈ (run (new c) cs).relations, '\x00' ∉ d.name.toList) :
    (accepted (journal (new c) cs)).Nodup := by
  have hg := good_run c cs
  rw [hg.nodup_accepted_iff]
  intro d hd d' hd' hn _
  rw [Symbol.nameOf_eq_self (h d hd), Symbol.nameOf_eq_self (h d' hd')] at hn
  exact hg.symbols.unique (List.mem_filter.mp (hg.relation d hd).1).1
    (List.mem_filter.mp (hg.relation d' hd').1).1 hn

/-- One symbol is accepted twice, for two names that are one up to their first NUL. -/
theorem accepted_twice : accepted (journal (new .default)
    [(obliging, .declare "p\x00a" (.function [] .bool)),
      (obliging, .declare "p\x00b" (.function [] .bool)),
      (obliging, .register (.symbol "p\x00a" .absent)),
      (obliging, .register (.symbol "p\x00b" .absent))]) =
    [⟨"p", [], .bool⟩, ⟨"p", [], .bool⟩] := by
  decide

end Session

end Horn

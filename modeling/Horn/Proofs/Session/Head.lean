import Horn.Proofs.Session.Books
import Horn.Proofs.Session.Submission
import Horn.Proofs.Sorting.Translation

/-!
The heads of the rules that a session records. Main statement: a rule is the closure of a clause whose
head applies a registered relation, and it has that head itself exactly if the relation does not share
its symbol with one of the constants that the rule is closed over.
-/

namespace Horn

/-- An implication is read as a declared function of its name, or as one between two formulas. -/
lemma Expr.toTerm_implies {Γ : Symbols} {b h : Expr} {t : Term}
    (ht : (implies b h).toTerm Γ = .ok t) :
    (∃ f us, Γ.function? "=>" = some f ∧ t = .app f us) ∨
      ∃ tb th, h.toTerm Γ = .ok th ∧ t = .op .implies [tb, th] := by
  rcases toTerm_eq_ok ht with ⟨c, hnil, -⟩ | ⟨-, ts, hts, hroot⟩
  · cases hnil
  obtain ⟨tb, us, -, hus, rfl⟩ := toTerms_cons_eq_ok hts
  obtain ⟨th, vs, hth, hvs, rfl⟩ := toTerms_cons_eq_ok hus
  unfold toTerms at hvs
  cases hvs
  rcases rootTerm_eq_ok hroot with ⟨f, us, hf, -, -, rfl⟩ | ⟨-, -, ⟨hnil, -⟩ | ⟨-, o, ho, hop⟩⟩
  · exact .inl ⟨f, us, hf, rfl⟩
  · cases hnil
  · cases (Operator.ofName?_name .implies).symm.trans ho
    change Term.connect .implies [tb, th] = .ok t at hop
    unfold Term.connect at hop
    split at hop
    · cases hop
      exact .inr ⟨tb, th, hth, rfl⟩
    · cases hop

namespace Session

/-- **The term applies a registered relation**: a declared function to the Booleans, to arguments of just
the sorts of its domain. -/
structure Applies (s : Session) (f : Symbol) (t : Term) : Prop where
  relation : ∃ d ∈ s.relations, d ∈ s.symbols.functions ∧ d.symbol = f
  range : f.range = .bool
  args : ∃ ts, t = .app f ts ∧ List.Forall₂ Term.HasSort ts f.domain

/-- The term is a clause that ends in an application of the relation. -/
inductive IsHorn (s : Session) (f : Symbol) : Term → Prop where
  | fact {t : Term} (h : s.Applies f t) : IsHorn s f t
  | rule {b t : Term} (h : s.Applies f t) : IsHorn s f (.op .implies [b, t])

section

variable {E : Engine} {s s' : Session} {J : List (Engine × EngineCall)} {f : Symbol} {t : Term}

lemma Applies.grows (h : s.Applies f t) (hs : Grows s s') : s'.Applies f t := by
  obtain ⟨⟨d, hd, hf, rfl⟩, hr, ha⟩ := h
  obtain ⟨hf, hk⟩ := List.mem_filter.mp hf
  exact ⟨⟨d, hs.registered d hd, List.mem_filter.mpr ⟨hs.declared d hf, hk⟩, rfl⟩, hr, ha⟩

lemma IsHorn.grows (h : s.IsHorn f t) (hs : Grows s s') : s'.IsHorn f t := by
  cases h with
  | fact h => exact .fact (h.grows hs)
  | rule h => exact .rule (h.grows hs)

/-! ### Heads of translated rules -/

/-- The name of a registered relation is translated to an application of it. -/
lemma Good.applies (hg : Good J s) {e : Expr} (hr : s.isRegistered e.name = true)
    (ht : e.toTerm s.symbols = .ok t) : ∃ f, s.Applies f t := by
  obtain ⟨n, es, a⟩ := e
  obtain ⟨d, hd, rfl⟩ := isRegistered_iff.mp hr
  obtain ⟨hf, hb⟩ := hg.relation d hd
  have hfun := hg.function?_name hd
  rcases Expr.toTerm_eq_ok ht with ⟨c, -, hc, -⟩ | ⟨-, ts, hts, hroot⟩
  · rw [hg.symbols.constant?_eq_none_of_function? hfun] at hc
    cases hc
  · obtain ⟨ss, -, hss⟩ := Expr.toTerms_hasSort hg.symbols hts
    rcases Expr.rootTerm_eq_ok hroot with ⟨f, us, hf', hl, hus, rfl⟩ | ⟨hf', -⟩
    · cases hfun.symm.trans hf'
      obtain ⟨_, ⟨rfl, -⟩, hsorts⟩ := (Term.castAll_built hl hss).of_ok hus
      exact ⟨d.symbol, ⟨d, hd, hf, rfl⟩, hb, us, rfl, hsorts⟩
    · cases hfun.symm.trans hf'

/-- **A rule whose head names a registered relation is a clause that ends in an application of one.** -/
lemma Good.isHorn (hg : Good J s) {e h : Expr} (hr : s.isRegistered h.name = true)
    (ha : s.Admits (e.putHead h)) (ht : (e.putHead h).toFormula s.symbols = .ok t) :
    ∃ f, s.IsHorn f t := by
  obtain ⟨ht, hb⟩ := Expr.toFormula_eq_ok.mp ht
  rcases e.rule_cases with ⟨b, h', sp, rfl⟩ | ⟨-, -, hp, -⟩
  · change s.Admits (.implies b h) at ha
    change (Expr.implies b h).toTerm s.symbols = .ok t at ht
    rcases Expr.toTerm_implies ht with ⟨f, us, hf, rfl⟩ | ⟨tb, th, hth, rfl⟩
    · -- the implication is a declared function, hence a relation, and the rule a fact about it
      have hreg : s.isRegistered "=>" = true := by
        have hun := ha "=>" (by simp [Expr.implies, Expr.apply, Operator.name, Expr.names])
        unfold isUnregistered at hun
        rw [hf] at hun
        simpa [show f.range = .bool from hb] using hun
      obtain ⟨g, hg'⟩ := hg.applies (e := .implies b h) hreg ht
      exact ⟨g, .fact hg'⟩
    · obtain ⟨g, hg'⟩ := hg.applies hr hth
      exact ⟨g, .rule hg'⟩
  · rw [hp] at ht
    obtain ⟨g, hg'⟩ := hg.applies hr ht
    exact ⟨g, .fact hg'⟩

lemma withHead_registered {e e' : Expr} (ho : (withHead e E s).result = .ok e') :
    ∃ h, e' = e.putHead h ∧ (withHead e E s).session.isRegistered h.name = true := by
  have hend := head_ends e.ruleHead E s
  rw [withHead_eq] at ho ⊢
  generalize head e.ruleHead E s = o at hend ho ⊢
  rcases hr : o.result with x | h
  · rw [hr] at ho
    cases ho
  · rw [hr] at ho
    cases ho
    refine ⟨h, rfl, ?_⟩
    cases hend with
    | error hf =>
      obtain ⟨rfl, hreg, -⟩ := (errorRelation_ends E s).ok hr
      exact hreg
    | registered hf hreg => cases hr; exact hreg
    | notHead hf hreg => cases hr

/-- **What is recorded of a rule** that is added with success: the closure of a clause that ends in an
application of a registered relation. -/
lemma addRule_isHorn (hg : Good J s) {e : Expr} {l : String}
    (h : (addRule e l E s).result = .ok ()) : ∃ f t,
      (addRule e l E s).session.IsHorn f t ∧
      (addRule e l E s).session.rules =
        s.rules ++ [(l, t.close .all (addRule e l E s).session.symbols.free)] := by
  obtain ⟨t, ht, ha, -, hfree, hrules⟩ := addRule_ok h
  have hg' := (addRule_ends e l E s).moves.good hg
  have hhead : ∃ hd, e.ruleForm = e.putHead hd ∧
      (addRule e l E s).session.isRegistered hd.name = true := by
    have hend := addRule_ends e l E s
    generalize addRule e l E s = o at h hend
    cases hend with
    | added hn ho ht hu hE =>
      obtain ⟨rfl, -, -⟩ := withHead_ok (searchName_none hn) ho
      exact withHead_registered ho
    | _ => cases h
  obtain ⟨hd, hform, hreg⟩ := hhead
  rw [hform] at ht ha
  obtain ⟨f, hf⟩ := hg'.isHorn hreg ha ht
  exact ⟨f, t, hf, by rw [hfree]; exact hrules⟩

/-! ### Heads under a binder -/

section

variable {cs : List Symbol} {k : Nat}

lemma Applies.closeAt (h : s.Applies f t) (hf : f ∉ cs) : s.Applies f (t.closeAt cs k) := by
  obtain ⟨hd, hr, ts, rfl, hts⟩ := h
  have hno : cs.reverse.idxOf? f = none := by simpa [List.idxOf?_eq_none_iff] using hf
  exact ⟨hd, hr, _, Term.closeAt_app fun _ => hno, Term.hasSort_closeAllAt cs k hts⟩

/-- A relation that shares its symbol with a constant that is bound becomes a variable. -/
lemma Applies.closeAt_of_mem (h : s.Applies f t) (hf : f ∈ cs) (hdom : f.domain = []) :
    ∃ i, t.closeAt cs k = .var i f.range := by
  obtain ⟨-, -, ts, rfl, hts⟩ := h
  rw [hdom] at hts
  cases hts
  rcases hi : cs.reverse.idxOf? f with _ | i
  · rw [List.idxOf?_eq_none_iff, List.mem_reverse] at hi
    exact absurd hf hi
  · exact ⟨k + i, Term.closeAt_const hi⟩

lemma not_isHorn_var {g : Symbol} {i : Nat} {r : TermSort} : ¬ s.IsHorn g (.var i r) := by
  rintro ⟨-, -, ts, hts, -⟩
  cases hts

lemma IsHorn.matrix_eq (h : s.IsHorn f t) : t.matrix = t := by
  cases h with
  | fact h =>
    obtain ⟨-, -, ts, rfl, -⟩ := h
    rfl
  | rule h => rfl

/-- **Where a closed clause keeps its head**: if the symbol of that is none of the constants that are
bound. -/
lemma IsHorn.matrix_close_iff (h : s.IsHorn f t) (hcs : ∀ c ∈ cs, c.domain = []) :
    (∃ g, s.IsHorn g (t.close .all cs).matrix) ↔ f ∉ cs := by
  by_cases hnil : cs = []
  · subst hnil
    exact ⟨fun _ => List.not_mem_nil, fun _ => ⟨f, h.matrix_eq.symm ▸ h⟩⟩
  · have hm : (t.close .all cs).matrix = t.closeAt cs 0 := by
      rw [Term.close, if_neg (by rwa [List.isEmpty_iff])]
      rfl
    rw [hm]
    constructor
    · -- the relation is bound: a variable stands in place of the head
      rintro ⟨g, hg⟩ hf
      cases h with
      | fact h =>
        obtain ⟨i, hi⟩ := h.closeAt_of_mem (k := 0) hf (hcs f hf)
        rw [hi] at hg
        exact not_isHorn_var hg
      | @rule b u h =>
        obtain ⟨i, hi⟩ := h.closeAt_of_mem (k := 0) hf (hcs f hf)
        have hop : (Term.op .implies [b, u]).closeAt cs 0 =
            .op .implies [b.closeAt cs 0, .var i f.range] := by
          rw [Term.closeAt, Term.closeAllAt, Term.closeAllAt, Term.closeAllAt, hi]
        rw [hop] at hg
        rcases hg with ⟨-, -, ts, hts, -⟩ | hg
        · cases hts
        · exact not_isHorn_var (.fact hg)
    · intro hf
      refine ⟨f, ?_⟩
      cases h with
      | fact h => exact .fact (h.closeAt hf)
      | @rule b u h =>
        rw [Term.closeAt, Term.closeAllAt, Term.closeAllAt, Term.closeAllAt]
        exact .rule (h.closeAt hf)

end

/-! ### Heads of recorded rules -/

/-- What is recorded is the closure of a clause with its head, over constants declared so far. -/
def Headed (s : Session) (u : Term) : Prop :=
  ∃ f t cs, cs <+: s.symbols.free ∧ u = t.close .all cs ∧ s.IsHorn f t

lemma free_kept {Γ Γ' : Symbols} (h : Γ.declarations <+: Γ'.declarations) : Γ.free <+: Γ'.free :=
  (h.filter _).map _

lemma Headed.moves {u : Term} {ks : List EngineCall} (h : s.Headed u) (hm : Moves E s ks s') :
    s'.Headed u := by
  obtain ⟨f, t, cs, hcs, hu, hf⟩ := h
  exact ⟨f, t, cs, hcs.trans (free_kept hm.kept.1), hu, hf.grows hm.grows⟩

/-- **A command records only closures of clauses with heads.** -/
lemma perform_headed (hg : Good J s) (hs : ∀ r ∈ s.rules, s.Headed r.2) (E : Engine) (x : Command) :
    ∀ r ∈ (perform x E s).session.rules, (perform x E s).session.Headed r.2 := by
  have hkeep : ∀ r ∈ s.rules, (perform x E s).session.Headed r.2 := fun r hr =>
    (hs r hr).moves (perform_moves x E s)
  rcases perform_rules x E s with ⟨hr, -⟩ | ⟨e, l, rfl, hr, hs'⟩
  · rw [hr]
    exact hkeep
  · rw [hs'] at hkeep ⊢
    obtain ⟨f, t, hf, hrules⟩ := addRule_isHorn hg hr
    rw [hrules, List.forall_mem_append]
    refine ⟨hkeep, ?_⟩
    rw [List.forall_mem_singleton]
    exact ⟨f, t, _, List.prefix_refl _, rfl, hf⟩

theorem run_headed (hg : Good J s) (hs : ∀ r ∈ s.rules, s.Headed r.2)
    (cs : List (Engine × Command)) : ∀ r ∈ (run s cs).rules, (run s cs).Headed r.2 := by
  induction cs generalizing s J with
  | nil => exact hs
  | cons c cs ih =>
    obtain ⟨E, x⟩ := c
    exact ih ((perform_moves x E s).good hg) (perform_headed hg hs E x)

end

/-- **The heads of recorded rules**, after any run. A rule is the closure of a clause, over the constants
that were declared when it was added; the clause is a fact or an implication that ends in an application
of a registered relation, which is a declared function to the Booleans, to arguments of just the sorts of
its domain. What stands under the binder is such a clause exactly if the relation has not the symbol of
one of these constants. It always is if no NUL stands in a declared name. -/
theorem rule_heads_iff (c : Config) (cs : List (Engine × Command)) :
    let s := run (new c) cs
    (∀ r ∈ s.rules, ∃ f t vs, vs <+: s.symbols.free ∧ r.2 = t.close .all vs ∧ s.IsHorn f t ∧
      ((∃ g, s.IsHorn g r.2.matrix) ↔ f ∉ vs)) ∧
    ((∀ d ∈ s.symbols.declarations, '\x00' ∉ d.name.toList) →
      ∀ r ∈ s.rules, ∃ f, s.IsHorn f r.2.matrix) := by
  intro s
  have hg : Good (journal (new c) cs) s := good_run c cs
  have hheads : ∀ r ∈ s.rules, ∃ f t vs, vs <+: s.symbols.free ∧ r.2 = t.close .all vs ∧
      s.IsHorn f t ∧ ((∃ g, s.IsHorn g r.2.matrix) ↔ f ∉ vs) := by
    intro r hr
    obtain ⟨f, t, vs, hvs, hu, hf⟩ := run_headed (good_new c) nofun cs r hr
    refine ⟨f, t, vs, hvs, hu, hf, ?_⟩
    rw [hu]
    exact hf.matrix_close_iff fun v hv => hg.symbols.domain_of_mem_free (hvs.subset hv)
  refine ⟨hheads, fun hwhole r hr => ?_⟩
  obtain ⟨f, t, vs, hvs, -, hf, hiff⟩ := hheads r hr
  refine hiff.mpr fun hmem => ?_
  obtain ⟨d, -, hfun, rfl⟩ : ∃ d ∈ s.relations, d ∈ s.symbols.functions ∧ d.symbol = f := by
    rcases hf with ⟨hrel, -, -⟩ | ⟨hrel, -, -⟩ <;> exact hrel
  obtain ⟨c, hc, hs⟩ := List.mem_map.mp (hvs.subset hmem)
  obtain ⟨hc, hk⟩ := List.mem_filter.mp hc
  obtain ⟨hd, hk'⟩ := List.mem_filter.mp hfun
  -- a constant is no function
  rw [hg.symbols.eq_of_symbol_eq hwhole hc hd hs, hk'] at hk
  cases hk

/-- A fact about a relation that has the symbol of a constant: its head is bound. -/
theorem head_caught :
    let s := run (new .default) [(obliging, .declare "p" (.function [] .bool)),
      (obliging, .register (.symbol "p" .absent)), (obliging, .declare "p\x00x" .bool),
      (obliging, .addRule (.symbol "p" .absent) "fact")]
    s.rules = [("fact", .quant .all [("p", .bool)] (.var 0 .bool))] ∧
      ¬ ∃ f, s.IsHorn f (Term.var 0 .bool) :=
  ⟨by with_unfolding_all rfl, fun ⟨_, h⟩ => not_isHorn_var h⟩

end Session

end Horn

import Horn.Proofs.Semantics.Apart
import Horn.Proofs.Semantics.Rule
import Horn.Proofs.Session.Rules

/-!
Names that share a symbol, in a session. Where no two names that expressions may name share one, a goal
means what was asked. Main statement: where two do, there are interpretations that no interpretation of
the symbols follows, or a goal that does not mean what was asked.
-/

namespace Horn

open Element

/-! ### Equations between names -/

namespace Term

lemma meet_self (t : Term) : meet t t = .ok (t, t) := by
  unfold meet
  split
  · rename_i h h'; rw [h] at h'; cases h'
  · rename_i h h'; rw [h] at h'; cases h'
  · exact if_pos rfl

/-- An equation of a symbol with itself is left as it is. -/
lemma equation_const (f : Symbol) : equation (.const f) (.const f) =
    .ok (.op .eq [.const f, .const f]) := by
  have hfirst : literalFirst (.const f) (.const f) = false := Bool.and_false _
  rw [equation, meet_self]
  change Except.ok (if literalFirst (.const f) (.const f) then _ else _) = _
  rw [hfirst, if_neg Bool.false_ne_true]

/-- A symbol is never different from itself. -/
lemma not_holds_differ {f : Symbol} (hf : f.domain = []) (J : Interpretation) :
    ¬ (Term.op .not [.op .eq [.const f, .const f]]).Holds J := by
  have hc : Means J [] (.const f) ⟨f.range, J.apply f []⟩ := ⟨value?_const hf, rfl⟩
  have heq := means_eq rfl hc hc
  have hnot := Means.op (.cons heq .nil) (Operator.value?_not (strict_ofBool _)) rfl
  rw [Holds, hnot.value]
  simp

end Term

namespace Symbols

/-- Built-in names are neither functions nor constants. -/
lemma KeepsBuiltins.undeclared {Γ : Symbols} (h : Γ.KeepsBuiltins) (o : Operator) :
    Γ.function? o.name = none ∧ Γ.constant? o.name = none :=
  find?_eq_none_iff_kinds.mp (h.operator o)

end Symbols

namespace Expr

def differ (m n : String) : Expr :=
  negation (apply .eq [symbol m .absent, symbol n .absent] .bool)

section

variable {Γ : Symbols} {d d' : Declaration} (hplain : Γ.KeepsBuiltins) (hd : Γ.find? d.name = some d)
  (hd' : Γ.find? d'.name = some d') (hdom : d.symbol.domain = []) (hs : d.symbol = d'.symbol)
include hplain hd hd' hdom hs

lemma toTerm_differ (hΓ : Γ.WellFormed) : (differ d.name d'.name).toFormula Γ =
    .ok (.op .not [.op .eq [.const d.symbol, .const d.symbol]]) := by
  have hts : toTerms Γ [symbol d.name .absent, symbol d'.name .absent] =
      .ok [.const d.symbol, .const d.symbol] := by
    rw [toTerms, toTerms, toTerms, toTerm_symbol hΓ hd hdom, toTerm_symbol hΓ hd' (hs ▸ hdom), hs]
    rfl
  obtain ⟨hef, hec⟩ := hplain.undeclared .eq
  have het : toTerm Γ (apply .eq [symbol d.name .absent, symbol d'.name .absent] .bool) =
      .ok (.op .eq [.const d.symbol, .const d.symbol]) :=
    toTerm_operator hef hec hts rfl (Term.equation_const _)
  have hets : toTerms Γ [apply .eq [symbol d.name .absent, symbol d'.name .absent] .bool] =
      .ok [.op .eq [.const d.symbol, .const d.symbol]] := by
    rw [toTerms, toTerms, het]
    rfl
  obtain ⟨hnf, hnc⟩ := hplain.undeclared .not
  exact toFormula_eq_ok.mpr ⟨toTerm_operator hnf hnc hets rfl rfl, rfl⟩

open scoped Classical in
lemma holds_differ {I : Denotation} {ρ : Valuation}
    (hne : (⟨d.symbol.range, d.meaning I ρ []⟩ : Element) ≠ ⟨d'.symbol.range, d'.meaning I ρ []⟩) :
    (differ d.name d'.name).Holds Γ I ρ := by
  have hdv : (symbol d.name .absent).value? Γ I ρ = _ := value?_symbol hd hdom .absent
  have hdv' : (symbol d'.name .absent).value? Γ I ρ = _ := value?_symbol hd' (hs ▸ hdom) .absent
  have hev : (apply .eq [symbol d.name .absent, symbol d'.name .absent] .bool).value? Γ I ρ =
      some (.ofBool false) := by
    rw [apply, value?, values?, values?, values?, hdv, hdv']
    refine (root?_operator (hplain.operator .eq) (List.cons_ne_nil _ _)
      (Operator.ofName?_name .eq)).trans ?_
    rw [Operator.value?_eq (meet?_of_sort_eq (congrArg Symbol.range hs)), decide_eq_false hne]
  unfold Holds
  rw [differ, negation, apply, value?, values?, values?, hev]
  refine (root?_operator (hplain.operator .not) (List.cons_ne_nil _ _)
    (Operator.ofName?_name .not)).trans ?_
  exact Operator.value?_not (loose_ofBool false)

end

end Expr

/-! ### Names that may be named -/

namespace Session

/-- The declaration is named by an expression that has a term and all names of which are admitted. -/
def Nameable (s : Session) : Declaration → Prop := s.symbols.Named fun n => s.isUnregistered n = false

/-- **No two names that expressions may name share a symbol.** -/
def Separate (s : Session) : Prop := s.symbols.Apart fun n => s.isUnregistered n = false

section

variable {s : Session} {J : List (Engine × EngineCall)} {K : Interpretation} {I : Denotation}
  {d : Declaration} {e : Expr} {t : Term}

lemma Nameable.isUnregistered (h : s.Nameable d) : s.isUnregistered d.name = false := by
  obtain ⟨-, e, t, ha, -, hn⟩ := h
  exact ha d.name hn

lemma nameable_of_admits (ha : s.Admits e) (ht : e.toTerm s.symbols = .ok t) :
    ∀ d ∈ s.symbols.declarations, d.name ∈ e.names → s.Nameable d :=
  fun _ hd hn => ⟨hd, e, t, ha, ht, hn⟩

/-- A name without arguments may be named if it is admitted. -/
lemma Good.nameable (hg : Good J s) (hd : d ∈ s.symbols.declarations) (hdom : d.symbol.domain = [])
    (hu : s.isUnregistered d.name = false) : s.Nameable d := by
  have ht := Expr.toTerm_symbol (s := .absent) hg.symbols
    (hg.symbols.find?_eq_some_iff.mpr ⟨hd, rfl⟩) hdom
  refine ⟨hd, _, _, fun n hn => ?_, ht, by simp [Expr.symbol, Expr.names]⟩
  obtain rfl : n = d.name := by simpa [Expr.symbol, Expr.names, Expr.namesOfAll] using hn
  exact hu

lemma Good.nameable_constant (hg : Good J s) (hd : d ∈ s.symbols.constants) : s.Nameable d := by
  obtain ⟨hfind, hk⟩ := hg.symbols.mem_constants_iff.mp hd
  have hdom := hg.symbols.domain_of_mem_free (List.mem_map_of_mem hd)
  refine hg.nameable (List.mem_filter.mp hd).1 hdom ?_
  refine isUnregistered_of_function?_eq_none (hg.symbols.function?_eq_none_iff.mpr ?_)
  rw [hfind]
  rintro _ ⟨⟩
  exact hk

lemma Good.nameable_relation (hg : Good J s) (hd : d ∈ s.relations) (hdom : d.symbol.domain = []) :
    s.Nameable d := by
  have hdf := (hg.relation d hd).1
  have hu : s.Usable d := ⟨hdf, fun _ => hd⟩
  exact hg.nameable (List.mem_filter.mp hdf).1 hdom (hu.isUnregistered hg)

/-- **A goal means what was asked.** -/
lemma Good.goal_holds_iff (hg : Good J s) (hsep : s.Separate) (hK : K.Interprets s.Nameable I)
    (ha : s.Admits e) (ht : e.toFormula s.symbols = .ok t) :
    (t.close .any s.symbols.free).Holds K ↔ ∃ ρ, e.Holds s.symbols I ρ := by
  have ht := (Expr.toFormula_eq_ok.mp ht).1
  exact holds_close_any_iff hg.symbols (fun d hd => hd.1) (fun c hc => hg.nameable_constant hc) hsep hK
    (nameable_of_admits ha ht) ht

lemma Nameable.domain (hg : Good J s) (hd : s.Nameable d) (hk : d.isFunction = false) :
    d.symbol.domain = [] := (SortSpec.toSymbol_eq_ok (hg.symbols.made d hd.1)).2 hk

/-- **If all goals mean what was asked, no two names share a symbol**: a symbol of two functions cannot
stand for both, and one of a constant and another name has one value in a goal, where the names have
different ones in the query. -/
lemma Good.separate (hg : Good J s) (hplain : s.symbols.KeepsBuiltins)
    (hI : ∀ I, ∃ K : Interpretation, K.Interprets s.Nameable I)
    (h : ∀ (K : Interpretation) I, K.Interprets s.Nameable I → ∀ E e p g,
      (p, EngineCall.query g) ∈ (query e E s).calls → (g.Holds K ↔ ∃ ρ, e.Holds s.symbols I ρ)) :
    s.Separate := by
  intro d d' hd hd' hs
  by_contra hne
  have hfind := hg.symbols.find?_eq_some_iff.mpr ⟨hd.1, rfl⟩
  have hfind' := hg.symbols.find?_eq_some_iff.mpr ⟨hd'.1, rfl⟩
  have hn : d.name ≠ d'.name := fun hn => hne (hg.symbols.unique hd.1 hd'.1 hn)
  have hmeans := Declaration.meaning_ne hn hs [] []
  obtain ⟨K, hK⟩ := hI (.single d'.name)
  by_cases hdom : d.symbol.domain = []
  · -- the names can be compared in a goal
    have ha : s.Admits (Expr.differ d.name d'.name) := by
      have hop : ∀ o : Operator, s.isUnregistered o.name = false := fun o =>
        isUnregistered_of_function?_eq_none (hplain.undeclared o).1
      intro n hn
      have hmem : n = Operator.not.name ∨ n = Operator.eq.name ∨ n = d'.name ∨ n = d.name := by
        simpa [Expr.differ, Expr.negation, Expr.apply, Expr.symbol, Expr.names, Expr.namesOfAll]
          using hn
      rcases hmem with rfl | rfl | rfl | rfl
      · exact hop .not
      · exact hop .eq
      · exact Nameable.isUnregistered hd'
      · exact Nameable.isUnregistered hd
    have ht := Expr.toTerm_differ hplain hfind hfind' hdom hs hg.symbols
    have hgoal := (h K _ hK obliging _ _ _ (query_hands ha ht obliging)).mpr
      ⟨_, Expr.holds_differ hplain hfind hfind' hdom hs hmeans⟩
    obtain ⟨σ, hσ⟩ := (Term.holds_close_any fun c hc => hg.symbols.domain_of_mem_free hc).mp hgoal
    exact Term.not_holds_differ hdom _ hσ
  · -- both are functions, for which one symbol would have to stand
    have hfunction : ∀ {c : Declaration}, s.Nameable c → c.symbol = d.symbol →
        c.isFunction = true := by
      intro c hc hcs
      by_contra hk
      rw [Bool.not_eq_true] at hk
      exact hdom (hcs ▸ hc.domain hg hk)
    have hk := hfunction hd rfl
    have hk' := hfunction hd' hs.symm
    rw [d.meaning_function hk, d'.meaning_function hk', ← hK.apply d hd hk, ← hK.apply d' hd' hk',
      hs] at hmeans
    exact hmeans rfl

/-- **Names without a NUL are separate.** -/
lemma Good.separate_of_whole (hg : Good J s)
    (h : ∀ d ∈ s.symbols.declarations, '\x00' ∉ d.name.toList) : s.Separate :=
  hg.symbols.apart_of_whole h

end

end Session

end Horn

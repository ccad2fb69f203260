import Horn.Proofs.Declarable
import Horn.Proofs.Session.Remainder

/-!
The relation that is registered under the name of the error relation. Main statement: it is the error
relation, or it takes arguments and the application without any is no term.
-/

namespace Horn.Session

/-- The caller has registered a relation of another sort under the name of the error relation. -/
def ErrorTaken (s : Session) : Prop := ∃ d ∈ s.relations, d.name = errorName ∧ d.spec ≠ errorSort

section

variable {s s' : Session} {J : List (Engine × EngineCall)}

/-- A relation was declared as a function to the Booleans, from the sorts of its domain. -/
lemma Good.relation_spec (hg : Good J s) {d : Declaration} (hd : d ∈ s.relations) :
    d.spec = .function (d.symbol.domain.map .ofTermSort) .bool := by
  obtain ⟨hfun, hb⟩ := hg.relation d hd
  obtain ⟨hmem, hk⟩ := List.mem_filter.mp hfun
  have hmade := hg.symbols.made d hmem
  obtain ⟨n, sp, f⟩ := d
  cases sp with
  | function ds c =>
    obtain ⟨hdom, hc⟩ := SortSpec.toSymbol_function_eq_ok hmade
    have hbool := SortSpec.toTermSort_eq_ok_iff.mp hc
    rw [show f.range = .bool from hb] at hbool
    rw [SortSpec.mapM_toTermSort_eq_ok_iff.mp hdom, hbool]
    rfl
  | _ => cases hk

lemma Good.relation_unique (hg : Good J s) {d d' : Declaration} (hd : d ∈ s.relations)
    (hd' : d' ∈ s.relations) (hn : d.name = d'.name) : d = d' :=
  hg.symbols.unique (List.mem_filter.mp (hg.relation d hd).1).1
    (List.mem_filter.mp (hg.relation d' hd').1).1 hn

/-- **The relation that is registered under the name** is the error relation, or it takes arguments. -/
lemma Good.error_cases (hg : Good J s) (hr : s.isRegistered errorName = true) :
    (¬ s.ErrorTaken ∧ errorDeclaration ∈ s.relations ∧
      errorExpr.toTerm s.symbols = .ok (.const errorSymbol)) ∨
    (s.ErrorTaken ∧ ∃ k, errorExpr.toTerm s.symbols = .error (.arity errorName (k + 1) 0)) := by
  obtain ⟨d, hd, hn⟩ := isRegistered_iff.mp hr
  have hfunction := hg.function?_name hd
  have hconstant := hg.symbols.constant?_eq_none_of_function? hfunction
  have hspec := hg.relation_spec hd
  rw [hn] at hfunction hconstant
  rcases hdom : d.symbol.domain with _ | ⟨p, ps⟩ <;> rw [hdom] at hspec
  · have hmem := (List.mem_filter.mp (hg.relation d hd).1).1
    have hown : d = errorDeclaration := eq_errorDeclaration hg.symbols hmem hn hspec
    subst hown
    refine .inl ⟨?_, hd, Expr.toTerm_function _ hfunction hconstant rfl⟩
    rintro ⟨d, hd', hn', hother⟩
    rw [hg.relation_unique hd' hd hn'] at hother
    exact hother rfl
  · refine .inr ⟨⟨d, hd, hn, ?_⟩, ps.length, ?_⟩
    · rw [hspec]
      exact nofun
    · unfold errorExpr
      rw [Expr.toTerm_node fun _ => hconstant, Expr.toTerms]
      change Expr.rootTerm s.symbols (.node errorName [] .bool) [] = _
      unfold Expr.rootTerm
      rw [show (Expr.node errorName [] .bool).name = errorName from rfl, hfunction]
      dsimp only
      rw [hdom, if_neg (by simp)]
      rfl

/-- Once the name is registered it stays taken or not, whatever is declared and registered besides. -/
lemma Grows.errorTaken_iff (hs : Grows s s') (hg' : Good J s') (hr : s.isRegistered errorName = true) :
    s'.ErrorTaken ↔ s.ErrorTaken := by
  constructor
  · rintro ⟨d', hd', hn', hspec⟩
    obtain ⟨d, hd, hn⟩ := isRegistered_iff.mp hr
    rw [← hg'.relation_unique (hs.registered d hd) hd' (hn.trans hn'.symm)] at hspec
    exact ⟨d, hd, hn, hspec⟩
  · rintro ⟨d, hd, hn, hspec⟩
    exact ⟨d, hs.registered d hd, hn, hspec⟩

end

end Horn.Session

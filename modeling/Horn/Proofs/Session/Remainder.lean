import Horn.Proofs.Session.Frame
import Horn.Proofs.Session.Protocol

/-!
What a rule that fails leaves behind. Main statement: a failing rule, or a failing request for the error
relation, leaves the session and its engine as they were but for the error relation, which stays declared
or registered if the call got so far.
-/

namespace Horn.Session

def errorDeclaration : Declaration := ⟨errorName, errorSort, errorSymbol⟩

def withErrorDeclared (s : Session) : Session :=
  if (s.symbols.find? errorName).isNone then { s with symbols := s.symbols.add errorDeclaration } else s

def withErrorRegistered (s : Session) : Session :=
  { s.withErrorDeclared with relations := s.relations ++ [errorDeclaration] }

lemma same_errorSort {sp : SortSpec} (h : sp.same errorSort = true) : sp = errorSort := by
  unfold errorSort at h
  cases sp with
  | function ds c =>
    cases ds <;> cases c <;> simp_all [SortSpec.same, SortSpec.sameAll, errorSort]
  | _ => simp [SortSpec.same] at h

lemma toSymbol_errorSort : errorSort.toSymbol errorName = .ok errorSymbol := rfl

/-- The name and the sort of the error relation make its declaration. -/
lemma eq_errorDeclaration {Γ : Symbols} (hΓ : Γ.WellFormed) {d : Declaration} (hd : d ∈ Γ.declarations)
    (hn : d.name = errorName) (hs : d.spec = errorSort) : d = errorDeclaration := by
  have hmade := hΓ.made d hd
  obtain ⟨n, sp, f⟩ := d
  cases hn
  cases hs
  cases toSymbol_errorSort.symm.trans hmade
  rfl

section

variable {E : Engine} {s : Session}

lemma withErrorDeclared_of_some {d : Declaration} (h : s.symbols.find? errorName = some d) :
    s.withErrorDeclared = s := by
  unfold withErrorDeclared
  rw [h]
  rfl

lemma withErrorDeclared_of_none (h : s.symbols.find? errorName = none) :
    s.withErrorDeclared = { s with symbols := s.symbols.add errorDeclaration } := by
  unfold withErrorDeclared
  rw [h]
  rfl

lemma find?_add_errorDeclaration (h : s.symbols.find? errorName = none) :
    (s.symbols.add errorDeclaration).find? errorName = some errorDeclaration := by
  rw [Symbols.find?_add, h]
  rfl

/-- Declaring the error relation leaves it declared, also where it fails. -/
lemma DeclareEnd.error_session {o : Outcome Unit} (h : DeclareEnd errorName errorSort s o) :
    o.session = s.withErrorDeclared := by
  cases h with
  | @failed x hd =>
    rcases hf : s.symbols.find? errorName with _ | d
    · have hok : s.symbols.declare errorName errorSort = .ok (s.symbols.add errorDeclaration) := by
        unfold Symbols.declare errorSort
        dsimp only
        rw [hf]
        rfl
      rw [hok] at hd
      cases hd
    · exact (withErrorDeclared_of_some hf).symm
  | again hf hs => exact (withErrorDeclared_of_some hf).symm
  | declared hf hs =>
    cases toSymbol_errorSort.symm.trans hs
    exact (withErrorDeclared_of_none hf).symm

/-- Once the error relation is declared, the table holds just its own declaration of it. -/
lemma DeclareEnd.find?_error {o : Outcome Unit} (h : DeclareEnd errorName errorSort s o)
    (hΓ : s.symbols.WellFormed) (ho : o.result = .ok ()) :
    o.session.symbols.find? errorName = some errorDeclaration := by
  cases h with
  | failed hd => cases ho
  | @again d hf hs =>
    obtain ⟨hmem, hn⟩ := hΓ.find?_eq_some_iff.mp hf
    rw [← eq_errorDeclaration hΓ hmem hn (same_errorSort hs)]
    exact hf
  | declared hf hs =>
    cases toSymbol_errorSort.symm.trans hs
    exact find?_add_errorDeclaration hf

/-- How registering the error relation ends once it is declared. -/
lemma RegisterEnd.of_error {o : Outcome Unit} (h : RegisterEnd errorName E s o)
    (hr : s.isRegistered errorName = false)
    (hf : (s.symbols.functions.find? fun d => d.name == errorName) = some errorDeclaration) :
    (∃ x, E.register errorSymbol = .error x ∧ o.result = .error x.error ∧ o.session = s) ∨
      (E.register errorSymbol = .ok () ∧ o.result = .ok () ∧
        o.session = { s with relations := s.relations ++ [errorDeclaration] }) := by
  cases h with
  | again hr' => rw [hr] at hr'; cases hr'
  | missing _ hf' => rw [hf] at hf'; cases hf'
  | notRelation _ hf' hb => cases hf.symm.trans hf'; exact absurd rfl hb
  | refused _ hf' hb hE => cases hf.symm.trans hf'; exact .inl ⟨_, hE, rfl, rfl⟩
  | registered _ hf' hb hE => cases hf.symm.trans hf'; exact .inr ⟨hE, rfl, rfl⟩

/-- **What a failing call leaves**: the session as it was, or with the error relation declared, which the
engine then refused to register, or with the error relation registered. -/
inductive Leaves (E : Engine) (s : Session) : Session → Prop where
  | nothing : Leaves E s s
  | declared {x : Failure} (hr : s.isRegistered errorName = false)
    (hf : s.symbols.find? errorName = none) (hE : E.register errorSymbol = .error x) :
    Leaves E s s.withErrorDeclared
  | registered (hr : s.isRegistered errorName = false) (hE : E.register errorSymbol = .ok ()) :
    Leaves E s s.withErrorRegistered

lemma withErrorDeclared_same (s : Session) :
    s.withErrorDeclared.symbols.constants = s.symbols.constants ∧
    s.withErrorDeclared.relations = s.relations ∧ s.withErrorDeclared.rules = s.rules ∧
    s.withErrorDeclared.reason = s.reason := by
  unfold withErrorDeclared
  split
  · refine ⟨?_, rfl, rfl, rfl⟩
    unfold Symbols.constants
    rw [Symbols.add_declarations, List.filter_append]
    exact List.append_nil _
  · exact ⟨rfl, rfl, rfl, rfl⟩

/-- Constants, rules and the reason are as they were. -/
lemma Leaves.same {s' : Session} (h : Leaves E s s') :
    s'.symbols.constants = s.symbols.constants ∧ s'.rules = s.rules ∧ s'.reason = s.reason := by
  obtain ⟨hc, -, hr, hm⟩ := s.withErrorDeclared_same
  cases h with
  | nothing => exact ⟨rfl, rfl, rfl⟩
  | declared _ _ _ => exact ⟨hc, hr, hm⟩
  | registered _ _ => exact ⟨hc, hr, hm⟩

variable {J : List (Engine × EngineCall)}

/-- Once the error relation is declared, registering it ends as the engine answers. -/
lemma RegisterEnd.of_declared {o₁ o₂ : Outcome Unit} (hg : Good J s)
    (hr : s.isRegistered errorName = false) (hd : DeclareEnd errorName errorSort s o₁)
    (ho : o₁.result = .ok ()) (h : RegisterEnd errorName E o₁.session o₂) :
    (∃ x, E.register errorSymbol = .error x ∧ o₂.result = .error x.error ∧
      o₂.session = s.withErrorDeclared) ∨
    (E.register errorSymbol = .ok () ∧ o₂.result = .ok () ∧ o₂.session = s.withErrorRegistered) := by
  have hΓ : o₁.session.symbols.WellFormed := ((hd.preparing (E := E)).good hg).symbols
  have hf := hΓ.find?_functions.mpr ⟨hd.find?_error hg.symbols ho, rfl⟩
  rw [hd.error_session] at hf h
  have hr' : s.withErrorDeclared.isRegistered errorName = false := by
    unfold Session.isRegistered at hr ⊢
    rwa [s.withErrorDeclared_same.2.1]
  rcases h.of_error hr' hf with h | ⟨hE, ho, hs⟩
  · exact .inl h
  · refine .inr ⟨hE, ho, ?_⟩
    rw [hs, s.withErrorDeclared_same.2.1]
    rfl

/-- **Asking for the error relation leaves no more than that**, and no new relation if it fails. -/
lemma errorRelation_leaves (hg : Good J s) : Leaves E s (errorRelation E s).session ∧
    ∀ x, (errorRelation E s).result = .error x →
      (errorRelation E s).session.relations = s.relations := by
  have hend := errorRelation_ends E s
  generalize errorRelation E s = o at hend
  cases hend with
  | known hr => exact ⟨.nothing, nofun⟩
  | @undeclared o' x hr hd ho =>
    cases hd with
    | failed hd => exact ⟨.nothing, fun _ _ => rfl⟩
    | again hf hs => cases ho
    | declared hf hs => cases ho
  | @unregistered o₁ o₂ x hr hd ho hreg ho' =>
    rcases hreg.of_declared hg hr hd ho with ⟨x, hE, -, hs⟩ | ⟨-, ho, -⟩
    · refine ⟨?_, fun _ _ => by rw [hs, s.withErrorDeclared_same.2.1]⟩
      rw [hs]
      rcases hf : s.symbols.find? errorName with _ | d
      · exact .declared hr hf hE
      · rw [withErrorDeclared_of_some hf]
        exact .nothing
    · rw [ho] at ho'
      cases ho'
  | @made o₁ o₂ hr hd ho hreg ho' =>
    rcases hreg.of_declared hg hr hd ho with ⟨x, -, ho, -⟩ | ⟨hE, -, hs⟩
    · rw [ho] at ho'
      cases ho'
    · refine ⟨?_, nofun⟩
      rw [hs]
      exact .registered hr hE

/-- Finding the head of a rule leaves the session as it was, or asks for the error relation. -/
lemma withHead_leaves (hg : Good J s) (e : Expr) : Leaves E s (withHead e E s).session ∧
    ((withHead e E s).session = s ∨ e.ruleHead.isBareFalse = true) := by
  rw [withHead_eq]
  have hend := head_ends e.ruleHead E s
  generalize head e.ruleHead E s = o at hend
  cases hend with
  | error hf => exact ⟨(errorRelation_leaves hg).1, .inr hf⟩
  | registered hf hr => exact ⟨.nothing, .inl rfl⟩
  | notHead hf hr => exact ⟨.nothing, .inl rfl⟩

/-- A rule that fails leaves what finding its head left, and the engine has not taken it. -/
lemma RuleEnd.leaves {e : Expr} {l : String} {o : Outcome Unit} {x : SessionError}
    (h : RuleEnd e l E s (withHead e E s) o) (hg : Good J s) (ho : o.result = .error x) :
    Leaves E s o.session ∧ (o.session = s ∨ e.ruleHead.isBareFalse = true ∧ s.Admits e) ∧
      ∀ t l', .addRule t l' ∈ callsOf o → E.addRule t l' ≠ .ok () := by
  obtain ⟨hl, hs⟩ := withHead_leaves (E := E) hg e
  have hcalls : ∀ t l', .addRule t l' ∉ callsOf (withHead e E s) := fun t l' hk => by
    cases (withHead_preparing e E s).term?_eq_none _ hk
  cases h with
  | unknown hn =>
    refine ⟨.nothing, .inl rfl, fun t l' hk => ?_⟩
    cases hk
  | noHead hn _ =>
    exact ⟨hl, hs.imp_right fun hf => ⟨hf, searchName_none hn⟩, fun t l' hk => absurd hk (hcalls t l')⟩
  | noTerm hn _ _ =>
    exact ⟨hl, hs.imp_right fun hf => ⟨hf, searchName_none hn⟩, fun t l' hk => absurd hk (hcalls t l')⟩
  | @refused e' t u f hn _ ht hu hE =>
    refine ⟨hl, hs.imp_right fun hf => ⟨hf, searchName_none hn⟩, fun t' l' hk => ?_⟩
    rw [callsOf, List.map_append] at hk
    rcases List.mem_append.mp hk with hk | hk
    · exact absurd hk (hcalls t' l')
    · cases List.mem_singleton.mp hk
      rw [hE]
      intro h
      cases h
  | added hn _ ht hu hE => cases ho

end

/-- **A failing call leaves no more than the error relation**, after any run. A request for the error
relation that fails leaves it at most declared. A rule that fails leaves it only if its head is a bare
`false` and its names are admitted; then it stays declared if the engine refused to register it, and
registered otherwise. Constants, rules and the reason are as they were. The relations that engines have
accepted are those of the session, and no engine has taken the rule. -/
theorem failure_leaves (c : Config) (cs : List (Engine × Command)) (E : Engine) :
    let s := run (new c) cs
    let J := journal (new c) cs
    (∀ x, (errorRelation E s).result = .error x →
      Leaves E s (errorRelation E s).session ∧ (errorRelation E s).session.relations = s.relations ∧
      accepted (J ++ (callsOf (errorRelation E s)).map fun k => (E, k)) =
        s.relations.map (·.symbol)) ∧
    (∀ e l x, (addRule e l E s).result = .error x →
      Leaves E s (addRule e l E s).session ∧
      ((addRule e l E s).session = s ∨ e.ruleHead.isBareFalse = true ∧ s.Admits e) ∧
      accepted (J ++ (callsOf (addRule e l E s)).map fun k => (E, k)) =
        (addRule e l E s).session.relations.map (·.symbol) ∧
      ∀ t l', .addRule t l' ∈ callsOf (addRule e l E s) → E.addRule t l' ≠ .ok ()) ∧
    ∀ s', Leaves E s s' → s'.symbols.constants = s.symbols.constants ∧ s'.rules = s.rules ∧
      s'.reason = s.reason := by
  intro s J
  have hg : Good J s := good_run c cs
  refine ⟨fun x hx => ?_, fun e l x hx => ?_, fun s' h => h.same⟩
  · obtain ⟨hl, hr⟩ := errorRelation_leaves (E := E) hg
    have hacc := ((errorRelation_ends E s).preparing.good hg).registered
    rw [hr x hx] at hacc
    exact ⟨hl, hr x hx, hacc⟩
  · obtain ⟨hl, hs, hk⟩ := (addRule_ends e l E s).leaves hg hx
    exact ⟨hl, hs, ((addRule_ends e l E s).moves.good hg).registered, hk⟩

def unwilling : Engine := { obliging with register := fun _ => .error (.engine (.text "no")) }

/-- A rule with a bare `false` for its head, and an engine that does not register the error relation. -/
theorem failure_leaves_unwilling :
    let s := new .default
    let o := addRule (.ofBool false) "safe" unwilling s
    o.result = .error (.engine "no" false) ∧
      Leaves unwilling s o.session ∧ o.session.relations = [] ∧
      o.session.symbols.functions = [errorDeclaration] := by
  intro s o
  have ho : o.result = .error (.engine "no" false) := by with_unfolding_all rfl
  obtain ⟨-, hrule, -⟩ := failure_leaves .default [] unwilling
  exact ⟨ho, (hrule _ _ _ ho).1, by with_unfolding_all rfl, by with_unfolding_all rfl⟩

/-- A rule that is refused for its body leaves the error relation registered. -/
theorem refused_rule_registers :
    let o := addRule (.implies (.symbol "w" .bool) (.ofBool false)) "safe" obliging (new .default)
    o.result = .error (.term (.undeclared "w")) ∧ o.session.relations = [errorDeclaration] ∧
      (new .default).relations = [] := by
  refine ⟨by with_unfolding_all rfl, by with_unfolding_all rfl, rfl⟩

end Horn.Session

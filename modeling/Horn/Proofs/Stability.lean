import Horn.Proofs.Numeral
import Horn.Proofs.Occurrence

/-!
Terms of an expression before and after further declarations. A declared name goes before a literal and
before an operator, so a declaration can take the name of either. Main statements: an expression keeps
its term exactly if none of its literals and operators is declared; and those mean what they are built
for exactly while they are not.
-/

namespace Horn

namespace Symbols

/-! ### Tables that grow -/

variable {Γ Γ' : Symbols} {n : String}

lemma find?_tryDeclare {d : Declaration} (h : Γ.find? n = some d) (x : String × SortSpec) :
    (Γ.tryDeclare x).find? n = some d := by
  unfold tryDeclare
  split
  · rename_i Γ' hd
    rcases declare_eq_ok hd with ⟨rfl, -⟩ | ⟨-, f, -, rfl⟩
    · exact h
    · rw [find?_add, h, Option.some_or]
  · exact h

/-- **A declared name stays declared as it is**, whatever is declared after it. -/
lemma find?_declareAll {d : Declaration} (h : Γ.find? n = some d) (ds : List (String × SortSpec)) :
    (Γ.declareAll ds).find? n = some d := by
  induction ds generalizing Γ with
  | nil => exact h
  | cons x ds ih => exact ih (find?_tryDeclare h x)

lemma WellFormed.function?_congr (h : Γ.WellFormed) (h' : Γ'.WellFormed)
    (hn : Γ.find? n = Γ'.find? n) : Γ.function? n = Γ'.function? n := by
  ext f
  rw [h.function?_eq_some_iff, h'.function?_eq_some_iff, hn]

lemma WellFormed.constant?_congr (h : Γ.WellFormed) (h' : Γ'.WellFormed)
    (hn : Γ.find? n = Γ'.find? n) : Γ.constant? n = Γ'.constant? n := by
  ext c
  rw [h.constant?_eq_some_iff, h'.constant?_eq_some_iff, hn]

end Symbols

namespace Expr

/-! ### Equal look-ups -/

section

variable {Γ Γ' : Symbols}

lemma rootTerm_congr (h : Γ.WellFormed) (h' : Γ'.WellFormed) {e : Expr}
    (hn : Γ.find? e.name = Γ'.find? e.name) (ts : List Term) :
    rootTerm Γ e ts = rootTerm Γ' e ts := by
  unfold rootTerm
  rw [h.function?_congr h' hn, h.constant?_congr h' hn]

mutual

/-- **The term of an expression depends only on what its names are declared as.** -/
theorem toTerm_congr (h : Γ.WellFormed) (h' : Γ'.WellFormed) :
    ∀ e : Expr, (∀ n ∈ e.names, Γ.find? n = Γ'.find? n) → e.toTerm Γ = e.toTerm Γ'
  | .node n as s, hn => by
    have hroot : Γ.find? n = Γ'.find? n := hn n (by simp [names])
    have hargs := toTerms_congr h h' as fun m hm => hn m (by simp [names, hm])
    unfold toTerm
    rw [h.constant?_congr h' hroot, hargs, funext (rootTerm_congr h h' (e := .node n as s) hroot)]

theorem toTerms_congr (h : Γ.WellFormed) (h' : Γ'.WellFormed) :
    ∀ es : List Expr, (∀ n ∈ namesOfAll es, Γ.find? n = Γ'.find? n) →
      toTerms Γ es = toTerms Γ' es
  | [], _ => rfl
  | e :: es, hn => by
    have he := toTerm_congr h h' e fun m hm => hn m (by simp [namesOfAll, hm])
    have hes := toTerms_congr h h' es fun m hm => hn m (by simp [namesOfAll, hm])
    unfold toTerms
    rw [he, hes]

end

end

/-! ### Names that are declared later -/

/-- No name of the expression that is not declared in the one table is declared in the other. -/
def Untaken (e : Expr) (Γ Γ' : Symbols) : Prop :=
  ∀ n ∈ e.names, Γ.find? n = none → Γ'.find? n = none

instance (e : Expr) (Γ Γ' : Symbols) : Decidable (e.Untaken Γ Γ') :=
  inferInstanceAs (Decidable (∀ n ∈ e.names, Γ.find? n = none → Γ'.find? n = none))

section

variable {Γ : Symbols} {e : Expr} {t : Term} (ds : List (String × SortSpec))

lemma find?_eq_of_untaken (hu : e.Untaken Γ (Γ.declareAll ds)) :
    ∀ n ∈ e.names, Γ.find? n = (Γ.declareAll ds).find? n := by
  intro n hn
  rcases hd : Γ.find? n with _ | d
  · exact (hu n hn hd).symm
  · exact (Symbols.find?_declareAll hd ds).symm

variable (h : Γ.WellFormed)
include h

/-- A term that is kept has no symbol more than before, so no name more of its expression is declared. -/
lemma untaken_of_toTerm (ht : e.toTerm Γ = .ok t) (ht' : e.toTerm (Γ.declareAll ds) = .ok t) :
    e.Untaken Γ (Γ.declareAll ds) := by
  have hsub : (e.names.filter fun n => (Γ.symbol? n).isSome).Sublist
      (e.names.filter fun n => ((Γ.declareAll ds).symbol? n).isSome) := by
    refine List.monotone_filter_right _ fun n hn => ?_
    obtain ⟨d, hd, -⟩ := Option.map_eq_some_iff.mp (Option.isSome_iff_exists.mp hn).choose_spec
    simp [Symbols.symbol?, Symbols.find?_declareAll hd ds]
  have hperm := (toTerm_symbols h ht).symm.trans (toTerm_symbols (h.declareAll ds) ht')
  have hlen := hperm.length_eq
  rw [List.length_filterMap_eq_countP, List.length_filterMap_eq_countP,
    List.countP_eq_length_filter, List.countP_eq_length_filter] at hlen
  have hsame := hsub.eq_of_length hlen
  intro n hn hnone
  by_contra hsome
  have hmem : n ∈ e.names.filter fun n => ((Γ.declareAll ds).symbol? n).isSome := by
    simpa [Symbols.symbol?, hn] using Option.isSome_iff_ne_none.mpr hsome
  rw [← hsame] at hmem
  simp [Symbols.symbol?, hnone] at hmem

/-- **An expression keeps its term exactly if none of its literals and operators is declared.** -/
lemma toTerm_declareAll_iff (ht : e.toTerm Γ = .ok t) :
    e.toTerm (Γ.declareAll ds) = .ok t ↔ e.Untaken Γ (Γ.declareAll ds) := by
  constructor
  · exact untaken_of_toTerm ds h ht
  · intro hu
    rw [← toTerm_congr h (h.declareAll ds) e (find?_eq_of_untaken ds hu), ht]

/-! ### Literals and operators -/

/-- The root of an expression is a literal or an operator if it puts no symbol into the term. -/
lemma find?_root_eq_none (ht : e.toTerm Γ = .ok t)
    (hs : t.symbols.length = ((namesOfAll e.args).filterMap Γ.symbol?).length) :
    Γ.find? e.name = none := by
  rcases e with ⟨n, as, s⟩
  have hlen := (toTerm_symbols h ht).length_eq
  rw [hs, names] at hlen
  rcases hn : Γ.find? n with _ | d
  · exact hn
  · have hsome : Γ.symbol? n = some d.symbol := by rw [Symbols.symbol?, hn, Option.map_some]
    rw [List.filterMap_cons_some hsome, List.length_cons] at hlen
    exact absurd hlen (Nat.lt_succ_self _).ne

lemma toTerm_literal_iff {n : String} {s : SortSpec} (hlit : literalTerm n = .ok t) :
    (symbol n s).toTerm Γ = .ok t ↔ Γ.find? n = none := by
  constructor
  · intro ht
    refine find?_root_eq_none h ht ?_
    rcases literalTerm_eq_ok hlit with ⟨-, rfl⟩ | ⟨-, rfl⟩ | ⟨-, -, k, -, rfl⟩
    all_goals rfl
  · intro hn
    rw [toTerm_leaf s hn, hlit]

lemma toTerm_operator_iff {o : Operator} {as : List Expr} {s : SortSpec} {ts : List Term}
    (hts : toTerms Γ as = .ok ts) (hl : o.arity = ts.length) (ht : Term.ofOperator o ts = .ok t) :
    (apply o as s).toTerm Γ = .ok t ↔ Γ.find? o.name = none := by
  constructor
  · intro ha
    exact find?_root_eq_none h ha
      ((Term.symbols_ofOperator ht).trans (toTerms_symbols h hts)).length_eq
  · intro hn
    obtain ⟨hf, hc⟩ := Symbols.find?_eq_none_iff_kinds.mp hn
    rcases ts with _ | ⟨u, us⟩
    · cases o <;> cases hl
    · exact toTerm_operator hf hc hts hl ht

end

lemma literalTerm_ofBool (b : Bool) : literalTerm (ofBool b).name = .ok (.bool b) := by
  cases b <;> rfl

lemma literalTerm_ofInt {n : Int} (h : Decimal.fits n = true) :
    literalTerm (ofInt n).name = .ok (.int n) := by
  have hn : Decimal.toInt? (Decimal.text n).toList = some n := by
    rw [Decimal.text, String.toList_ofList, Decimal.toInt?_ofInt h]
  have hword : ∀ w : String, Decimal.toInt? w.toList = none → Decimal.text n ≠ w := by
    rintro w hw rfl
    rw [hn] at hw
    cases hw
  change literalTerm (Decimal.text n) = .ok (.int n)
  unfold literalTerm
  rw [if_neg (hword "true" (by decide)), if_neg (hword "false" (by decide)), hn]

/-- **Translation is stable under all declarations that leave its literals and operators alone**, and
under no others. After any declarations at all, a literal denotes its value and an operator the built-in
operation exactly if its name is not declared. -/
theorem toTerm_stable (ds : List (String × SortSpec)) :
    let Γ := Symbols.empty.declareAll ds
    (∀ (e : Expr) (t : Term), e.toTerm Γ = .ok t → ∀ ds',
      e.toTerm (Γ.declareAll ds') = .ok t ↔ e.Untaken Γ (Γ.declareAll ds')) ∧
    (∀ b, (ofBool b).toTerm Γ = .ok (.bool b) ↔ Γ.find? (ofBool b).name = none) ∧
    (∀ n, Decimal.fits n = true →
      ((ofInt n).toTerm Γ = .ok (.int n) ↔ Γ.find? (ofInt n).name = none)) ∧
    ∀ o as s ts t, toTerms Γ as = .ok ts → o.arity = ts.length → Term.ofOperator o ts = .ok t →
      ((apply o as s).toTerm Γ = .ok t ↔ Γ.find? o.name = none) := by
  intro Γ
  have hΓ : Γ.WellFormed := Symbols.wellFormed_empty.declareAll ds
  refine ⟨?kept, ?bool, ?int, ?operator⟩
  case kept =>
    intro e t ht ds'
    exact toTerm_declareAll_iff ds' hΓ ht
  case bool =>
    intro b
    exact toTerm_literal_iff hΓ (literalTerm_ofBool b)
  case int =>
    intro n hn
    exact toTerm_literal_iff hΓ (literalTerm_ofInt hn)
  case operator =>
    intro o as s ts t hts hl ht
    exact toTerm_operator_iff hΓ hts hl ht

/-- A sum keeps its term through the declaration of another name and through two that are refused. -/
theorem toTerm_stable_sum :
    let Γ := Symbols.empty.declareAll [("x", .int)]
    let ds' := [("y", .bool), ("x", .bool), ("z", .absent)]
    let e : Expr := apply .add [symbol "x" .int, ofInt 1] .int
    let t : Term := .op .add [.const ⟨"x", [], .int⟩, .int 1]
    e.toTerm Γ = .ok t ∧ e.toTerm (Γ.declareAll ds') = .ok t :=
  ⟨rfl, ((toTerm_stable _).1 _ _ rfl _).mpr (by decide)⟩

/-- A literal whose name is declared afterwards is no literal any more. -/
theorem literal_taken :
    (ofInt 0).toTerm (Symbols.empty.declareAll []) = .ok (.int 0) ∧
      (ofInt 0).toTerm ((Symbols.empty.declareAll []).declareAll [("0", .int)]) =
        .ok (.const ⟨"0", [], .int⟩) :=
  ⟨rfl, rfl⟩

end Expr

end Horn

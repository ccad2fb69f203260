import Horn.Config.Basic
import Horn.Proofs.Sorting.Basic
import Horn.Proofs.Witness.Facts

/-!
Where the values of a witness come from. What an engine gives may apply anything: operators, what is
built in beside them, symbols that are not declared; all of them have names, and a marker may begin one.
Main statement: the values of a trace are those of facts of declared relations exactly if no other fact of
it has arguments, and so for all traces over given names exactly if the marker begins none of these.
-/

namespace Horn

namespace Operator

def makesFormula : Operator → Bool
  | .add | .sub | .mul | .div | .store => false
  | _ => true

lemma makesFormula_of_strictSort? {o : Operator} {ss : List TermSort}
    (h : o.strictSort? ss = some .bool) : o.makesFormula = true := by
  unfold strictSort? at h
  split at h <;> first | rfl | cases h | (split at h <;> cases h)

end Operator

namespace Term

/-- **A term of a sort over declared symbols and other names**, as an engine may give one: each part of
an operator or a declared symbol has just the sort that is wanted, conjunctions and disjunctions have any
number of parts, and what has one of the other names is applied to any parts. -/
inductive Over (Γ : Symbols) (B : String → Prop) : Term → TermSort → Prop where
  | bool (b : Bool) : Over Γ B (.bool b) .bool
  | int (n : Int) : Over Γ B (.int n) .int
  | var (i : Nat) (s : TermSort) : Over Γ B (.var i s) s
  | app {d : Declaration} {ts : List Term} (hd : d ∈ Γ.declarations)
    (hts : List.Forall₂ (Over Γ B) ts d.symbol.domain) : Over Γ B (.app d.symbol ts) d.symbol.range
  | other {f : Symbol} {ts : List Term} {ss : List TermSort} (hf : B f.text)
    (hts : List.Forall₂ (Over Γ B) ts ss) : Over Γ B (.app f ts) f.range
  | connective {o : Operator} {ts : List Term} (ho : o = .and ∨ o = .or)
    (hts : ∀ t ∈ ts, Over Γ B t .bool) : Over Γ B (.op o ts) .bool
  | op {o : Operator} {ts : List Term} {ss : List TermSort} {s : TermSort}
    (hts : List.Forall₂ (Over Γ B) ts ss) (hs : o.strictSort? ss = some s) : Over Γ B (.op o ts) s
  | quant {q : Quantifier} {bs : List (String × TermSort)} {t : Term} (ht : Over Γ B t .bool) :
    Over Γ B (.quant q bs t) .bool

variable {Γ : Symbols} {B : String → Prop} {p : Text.Points} {c t : Term} {as cs : List Term}

lemma Over.makesFormula {o : Operator} {ts : List Term} (h : (Term.op o ts).Over Γ B .bool) :
    o.makesFormula = true := by
  cases h with
  | connective ho => rcases ho with rfl | rfl <;> rfl
  | op _ hs => exact Operator.makesFormula_of_strictSort? hs

/-- A conjunct of a formula is one. -/
lemma Over.conjunct (h : t.Over Γ B .bool) (hcs : t.Conjuncts cs) (hc : c ∈ cs) :
    c.Over Γ B .bool := by
  cases hcs with
  | conjunction =>
    cases h with
    | connective _ hts => exact hts c hc
    | @op _ _ ss _ hts hs =>
      unfold Operator.strictSort? at hs
      split at hs <;> try contradiction
      obtain ⟨a, b, rfl, ha, hb⟩ := forall₂_pair hts.flip
      rcases List.mem_pair.mp hc with rfl | rfl
      · exact ha
      · exact hb
  | single =>
    rw [List.mem_singleton.mp hc]
    exact h

def IsRelation (Γ : Symbols) (c : Term) : Prop :=
  ∃ d ∈ Γ.functions, d.symbol.range = .bool ∧ ∃ ts, c = .app d.symbol ts

structure IsRelationFact (Γ : Symbols) (p : Text.Points) (c : Term) (as : List Term) : Prop where
  fact : c.IsFact p as
  relation : c.IsRelation Γ

end Term

namespace Witness

open Term

/-- **The values are those of the facts of declared relations**, and nothing else contributes. -/
def OnlyRelations (Γ : Symbols) (p : Text.Points) (ts : List (Option Term)) (vs : List String) : Prop :=
  ∃ xs, GathersAll (IsRelationFact Γ p) ts xs ∧ vs = xs.map text

/-- All facts with arguments apply declared relations. -/
def NoOtherFact (Γ : Symbols) (p : Text.Points) (ts : List (Option Term)) : Prop :=
  ∀ t, some t ∈ ts → ∀ cs, t.Conjuncts cs → ∀ c ∈ cs, ∀ as, c.IsFact p as → as ≠ [] → c.IsRelation Γ

/-- The marker begins no name of an operator that makes formulas. -/
def IsClear (p : Text.Points) : Prop :=
  ∀ o : Operator, o.makesFormula = true → ¬ p.Begins o.termName

instance (p : Text.Points) : Decidable (IsClear p) :=
  decidable_of_iff (∀ o ∈ Operator.all, o.makesFormula = true → ¬ p.Begins o.termName)
    ⟨fun h o => h o (by cases o <;> decide), fun h o _ => h o⟩

section

variable {Γ : Symbols} {B : String → Prop} {p : Text.Points} {ts : List (Option Term)}

/-- **The values of a trace are those of relations just if it has no other facts.** -/
lemma onlyRelations_iff {vs : List String} (hv : ofTrace? (.ofPoints p) ts = some vs) :
    OnlyRelations Γ p ts vs ↔ NoOtherFact Γ p ts := by
  obtain ⟨ys, hys, rfl⟩ := (ofTrace?_eq_some_iff (Value.points?_ofPoints p)).mp hv
  have hfewer : ∀ c as, IsRelationFact Γ p c as → c.IsFact p as := fun _ _ h => h.fact
  have hrel : NoOtherFact Γ p ts ↔ ∀ t, some t ∈ ts → ∀ cs, t.Conjuncts cs → ∀ c ∈ cs,
      ∀ as, c.IsFact p as → as ≠ [] → c.IsRelationFact Γ p as := by
    constructor
    · exact fun h t ht cs hcs c hc as hf hne => ⟨hf, h t ht cs hcs c hc as hf hne⟩
    · exact fun h t ht cs hcs c hc as hf hne => (h t ht cs hcs c hc as hf hne).relation
  rw [hrel]
  constructor
  · rintro ⟨xs, hxs, heq⟩
    obtain ⟨hsub, hiff⟩ := hxs.sublist hfewer IsFact.unique hys
    have hlen := congrArg List.length heq
    rw [List.length_map, List.length_map] at hlen
    exact hiff.mp (hsub.eq_of_length hlen.symm)
  · intro h
    obtain ⟨xs, hxs⟩ := exists_gathersAll (IsRelationFact Γ p) ts
    refine ⟨xs, hxs, ?_⟩
    rw [(hxs.sublist hfewer IsFact.unique hys).2.mpr h]

/-- A formula that is a fact with arguments is one of a relation, if the marker begins no other name. -/
lemma isRelation_of_isClear (hΓ : Γ.WellFormed) (hp : IsClear p) (hB : ∀ n, B n → ¬ p.Begins n)
    {c : Term} {as : List Term} (hc : c.Over Γ B .bool) (hfact : c.IsFact p as) (hne : as ≠ []) :
    c.IsRelation Γ := by
  obtain ⟨n, hn, hbegins⟩ := hfact.applies
  obtain ⟨hname, rfl⟩ := applies_iff.mp hn
  cases c with
  | bool b => exact absurd rfl hne
  | int k => exact absurd rfl hne
  | var i s => cases hname
  | quant q bs t => cases hname
  | op o cs =>
    cases hn
    exact absurd hbegins (hp o hc.makesFormula)
  | app f cs =>
    cases hname
    unfold IsRelation
    generalize TermSort.bool = s at hc ⊢
    cases hc with
    | other hf _ => exact absurd hbegins (hB _ hf)
    | @app d _ hd hcs =>
      refine ⟨d, ?_, rfl, cs, rfl⟩
      rw [hΓ.mem_functions_iff]
      refine ⟨hΓ.find?_eq_some_iff.mpr ⟨hd, rfl⟩, ?_⟩
      -- what is applied to something has a domain, and so is no constant
      rw [← Bool.not_eq_false]
      intro hk
      have hdom := hΓ.domain_of_mem_free (List.mem_map_of_mem (hΓ.mem_constants_iff.mpr
        ⟨hΓ.find?_eq_some_iff.mpr ⟨hd, rfl⟩, hk⟩))
      rw [hdom] at hcs
      cases hcs
      exact hne rfl

lemma noOtherFact_of_isClear (hΓ : Γ.WellFormed) (hp : IsClear p) (hB : ∀ n, B n → ¬ p.Begins n)
    (hts : ∀ t, some t ∈ ts → t.Over Γ B .bool) : NoOtherFact Γ p ts :=
  fun t ht _ hcs _ hc _ hfact => isRelation_of_isClear hΓ hp hB ((hts t ht).conjunct hcs hc) hfact

end

/-! ### What is taken for a relation -/

def oneArray : Symbols := Symbols.empty.declareAll [("a", .array .int .bool)]

/-- Operands without bound variables for an operator. -/
def operands : Operator → List Term
  | .not => [.bool true]
  | .ite => [.bool true, .bool true, .bool true]
  | .lt | .le | .gt | .ge => [.int 0, .int 0]
  | .select => [.const ⟨"a", [], .array .int .bool⟩, .int 0]
  | _ => [.bool true, .bool true]

def strange (n : String) : Term := .app ⟨n, [.int], .bool⟩ [.int 0]

section

variable {Γ : Symbols} {B : String → Prop} {p : Text.Points} {c : Term}

lemma over_operands {o : Operator} (ho : o.makesFormula = true) :
    (Term.op o (operands o)).Over oneArray B .bool := by
  have ht : (Term.bool true).Over oneArray B .bool := .bool true
  have h0 : (Term.int 0).Over oneArray B .int := .int 0
  have ha : (Term.const ⟨"a", [], .array .int .bool⟩).Over oneArray B (.array .int .bool) :=
    .app (d := ⟨"a", .array .int .bool, ⟨"a", [], .array .int .bool⟩⟩) (.head _) .nil
  cases o <;> first
    | exact absurd ho (by decide)
    | exact .op (.cons ht .nil) rfl
    | exact .op (.cons ht (.cons ht .nil)) rfl
    | exact .op (.cons ht (.cons ht (.cons ht .nil))) rfl
    | exact .op (.cons h0 (.cons h0 .nil)) rfl
    | exact .op (.cons ha (.cons h0 .nil)) rfl

lemma isGround_operands (o : Operator) : areGround (operands o) = true := by
  cases o <;> rfl

/-- A formula as a conjunct. -/
lemma over_conjoined (h : c.Over Γ B .bool) : (Term.op .and [c, .bool true]).Over Γ B .bool :=
  .op (.cons h (.cons (.bool true) .nil)) rfl

/-- A fact with arguments that is of no relation is another fact, alone or as a conjunct. -/
lemma not_noOtherFact {as : List Term} (hfact : c.IsFact p as) (hne : as ≠ [])
    (hc : ¬ c.IsRelation Γ) : ¬ NoOtherFact Γ p [some (.op .and [c, .bool true])] := fun h =>
  hc (h _ (.head _) _ (.conjunction _) c (.head _) as hfact hne)

lemma not_noOtherFact_operator {o : Operator} (hp : p.Begins o.termName) :
    ¬ NoOtherFact Γ p [some (.op .and [.op o (operands o), .bool true])] := by
  have hfact : (Term.op o (operands o)).IsFact p (operands o) :=
    ⟨⟨_, .operator o _, hp⟩, isGround_iff.mp (isGround_operands o)⟩
  have hne : operands o ≠ [] := by cases o <;> exact nofun
  refine not_noOtherFact hfact hne ?_
  rintro ⟨d, -, -, ts, heq⟩
  cases heq

lemma not_noOtherFact_strange {n : String} (hn : n ≠ "") (hp : p.Begins n) :
    ¬ NoOtherFact .empty p [some (.op .and [strange n, .bool true])] := by
  have hfact : (strange n).IsFact p [.int 0] :=
    ⟨⟨n, .symbol hn _, hp⟩, isGround_iff.mp rfl⟩
  refine not_noOtherFact hfact nofun ?_
  rintro ⟨d, hd, -⟩
  cases hd

/-- A marker for which one formula never has other facts is clear. -/
lemma isClear_of_forall (h : ∀ ds t, t.Over (Symbols.empty.declareAll ds) B .bool →
    NoOtherFact (Symbols.empty.declareAll ds) p [some t]) :
    IsClear p ∧ ∀ n, B n → ¬ p.Begins n := by
  have hp : IsClear p := fun o ho hbegins =>
    not_noOtherFact_operator hbegins (h _ _ (over_conjoined (over_operands ho)))
  refine ⟨hp, fun n hn hbegins => ?_⟩
  by_cases hempty : n = ""
  · -- only the empty marker begins an empty name, and it begins all others
    subst hempty
    obtain rfl : p = [] := List.prefix_nil.mp hbegins
    exact hp .not rfl List.nil_prefix
  · have hover : (strange n).Over (Symbols.empty.declareAll []) B .bool := by
      have hargs : List.Forall₂ (Over (Symbols.empty.declareAll []) B) [.int 0] [.int] :=
        .cons (.int 0) .nil
      refine .other ?_ hargs
      rwa [Symbol.text, Symbol.shownName, if_neg hempty]
    exact not_noOtherFact_strange hempty hbegins (h [] _ (over_conjoined hover))

end

/-- **Only relation facts yield values exactly where there are no other facts.** An answer is decoded like
a trace of one entry. The values of a trace are those of facts of declared relations exactly if all facts
with arguments in it are such facts; then each value is the text of an argument of one, which is an entry
or a conjunct of one. Uniformly: that holds of all formulas over declared symbols, operators and any
other names, in traces and in answers, exactly if the marker begins none of the other names and none of
if, not, and, or, =>, =, <, <=, >, >= and select, the names of the operators that make formulas. -/
theorem only_relations_iff (p : Text.Points) :
    (∀ u, ofTerm? (.ofPoints p) u = ofTrace? (.ofPoints p) [u]) ∧
    (∀ Γ ts vs, ofTrace? (.ofPoints p) ts = some vs →
      (OnlyRelations Γ p ts vs ↔ NoOtherFact Γ p ts)) ∧
    (∀ Γ ts vs, OnlyRelations Γ p ts vs → ∀ v ∈ vs, ∃ t, some t ∈ ts ∧ ∃ cs, t.Conjuncts cs ∧
      ∃ c ∈ cs, ∃ as, c.IsRelationFact Γ p as ∧ ∃ a ∈ as, v = a.text) ∧
    ∀ B : String → Prop,
      ((∀ ds ts vs, (∀ t, some t ∈ ts → t.Over (Symbols.empty.declareAll ds) B .bool) →
        ofTrace? (.ofPoints p) ts = some vs → OnlyRelations (Symbols.empty.declareAll ds) p ts vs) ↔
        IsClear p ∧ ∀ n, B n → ¬ p.Begins n) ∧
      ((∀ ds u vs, (∀ t, u = some t → t.Over (Symbols.empty.declareAll ds) B .bool) →
        ofTerm? (.ofPoints p) u = some vs → OnlyRelations (Symbols.empty.declareAll ds) p [u] vs) ↔
        IsClear p ∧ ∀ n, B n → ¬ p.Begins n) := by
  have htotal : ∀ ts, ∃ vs, ofTrace? (.ofPoints p) ts = some vs := fun ts =>
    have ⟨_, hxs⟩ := exists_gathersAll (IsFact p) ts
    ⟨_, ofTrace?_of_gathersAll (Value.points?_ofPoints p) hxs⟩
  have hwell : ∀ ds, (Symbols.empty.declareAll ds).WellFormed := fun ds =>
    Symbols.wellFormed_empty.declareAll ds
  refine ⟨ofTerm?_eq _, fun Γ ts vs => onlyRelations_iff, ?origin, fun B => ⟨⟨fun h => ?_, ?_⟩,
    ⟨fun h => ?_, ?_⟩⟩⟩
  case origin =>
    rintro Γ ts _ ⟨xs, hxs, rfl⟩ v hv
    obtain ⟨a, ha, rfl⟩ := List.mem_map.mp hv
    obtain ⟨t, ht, cs, hcs, c, hc, as, has, hin⟩ := hxs.exists_fact ha
    exact ⟨t, ht, cs, hcs, c, hc, as, has, a, hin, rfl⟩
  · refine isClear_of_forall fun ds t ht => ?_
    obtain ⟨vs, hvs⟩ := htotal [some t]
    refine (onlyRelations_iff hvs).mp (h ds _ vs (fun u hu => ?_) hvs)
    cases List.mem_singleton.mp hu
    exact ht
  · rintro ⟨hp, hB⟩ ds ts vs hts hvs
    exact (onlyRelations_iff hvs).mpr (noOtherFact_of_isClear (hwell ds) hp hB hts)
  · refine isClear_of_forall fun ds t ht => ?_
    obtain ⟨vs, hvs⟩ := htotal [some t]
    refine (onlyRelations_iff hvs).mp (h ds _ vs (fun u hu => ?_) ((ofTerm?_eq _ _).trans hvs))
    cases hu
    exact ht
  · rintro ⟨hp, hB⟩ ds u vs hu hvs
    refine (onlyRelations_iff ((ofTerm?_eq _ _).symm.trans hvs)).mpr
      (noOtherFact_of_isClear (hwell ds) hp hB fun t ht => hu t (List.mem_singleton.mp ht).symm)

example : IsClear (.ofChars "summary".toList) ∧ ¬ IsClear (.ofChars "s".toList) := by decide

/-- An implication is decoded like a fact where the marker is empty. -/
theorem implication_decoded :
    let Γ := Symbols.empty.declareAll [("err", .function [] .bool)]
    let t : Term := .op .implies [.const ⟨"err", [], .bool⟩, .bool true]
    Config.ofFields [("counterexample_marker", .text "")] =
        .ok { Config.default with marker := .text "" } ∧
      t.Over Γ (fun _ => False) .bool ∧ ofTrace? (.text "") [some t] = some ["err", "True"] ∧
      ∀ cs, t.Conjuncts cs → ∀ c ∈ cs, ¬ c.IsRelation Γ := by
  intro Γ t
  have hover : t.Over Γ (fun _ => False) .bool :=
    .op (.cons (.app (d := ⟨"err", .function [] .bool, ⟨"err", [], .bool⟩⟩) (.head _) .nil)
      (.cons (.bool true) .nil)) rfl
  refine ⟨rfl, hover, by decide +kernel, ?_⟩
  intro cs hcs c hc
  obtain rfl : cs = [t] := (conjuncts_iff.mp hcs).symm
  obtain rfl := List.mem_singleton.mp hc
  rintro ⟨d, -, -, ts, heq⟩
  exact nomatch heq

end Witness

end Horn

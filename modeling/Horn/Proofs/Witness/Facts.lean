import Mathlib.Data.List.Flatten
import Horn.Proofs.Numeral
import Horn.Proofs.Witness.Marker

/-!
The facts whose arguments witness a reachable goal. What a term applies, what its conjuncts are and which
of them are facts of a marker is said by relations, without decoding anything. Main statement: the values
are, in order, the printed arguments of the facts of the marker among the entries of a trace and the
conjuncts of these, and of nothing else.
-/

namespace Horn

namespace Operator

def termName : Operator → String
  | .ite => "if"
  | .div => "div"
  | o => o.name

end Operator

namespace Term

/-! ### Facts -/

def isBinding : Term → Bool
  | .var _ _ | .quant _ _ _ => true
  | _ => false

/-- The first term is the second, or stands in it at any depth. -/
inductive PartOf : Term → Term → Prop where
  | whole (t : Term) : PartOf t t
  | argument {u t : Term} {f : Symbol} {ts : List Term} (ht : t ∈ ts) (h : PartOf u t) :
    PartOf u (.app f ts)
  | operand {u t : Term} {o : Operator} {ts : List Term} (ht : t ∈ ts) (h : PartOf u t) :
    PartOf u (.op o ts)
  | body {u t : Term} {q : Quantifier} {bs : List (String × TermSort)} (h : PartOf u t) :
    PartOf u (.quant q bs t)

/-- **The term applies what has the name to the arguments.** Numerals and truth values are applications
without arguments, and an empty name shows as `<null>`. -/
inductive Applies : Term → String → List Term → Prop where
  | true : Applies (.bool true) "true" []
  | false : Applies (.bool false) "false" []
  | numeral (n : Int) : Applies (.int n) "Int" []
  | symbol {f : Symbol} (hf : f.name ≠ "") (ts : List Term) : Applies (.app f ts) f.name ts
  | nameless {f : Symbol} (hf : f.name = "") (ts : List Term) : Applies (.app f ts) "<null>" ts
  | operator (o : Operator) (ts : List Term) : Applies (.op o ts) o.termName ts

/-- The conjuncts of a conjunction, one level deep, or the term itself if it is none. -/
inductive Conjuncts : Term → List Term → Prop where
  | conjunction (cs : List Term) : Conjuncts (.op .and cs) cs
  | single {t : Term} (h : ∀ cs, t ≠ .op .and cs) : Conjuncts t [t]

/-- **A fact of a marker and its arguments**: it applies what has a name that begins with the marker, and
no bound variable and no quantifier stands in it at any depth. -/
structure IsFact (p : Text.Points) (c : Term) (as : List Term) : Prop where
  applies : ∃ n, c.Applies n as ∧ p.Begins n
  ground : ∀ u : Term, u.PartOf c → u.isBinding = false

mutual

/-- **A ground term has no bound variable and no quantifier at any depth.** -/
theorem isGround_iff {t : Term} :
    t.isGround = true ↔ ∀ u : Term, u.PartOf t → u.isBinding = false := by
  match t with
  | .bool b => exact ⟨fun _ u h => by cases h; rfl, fun _ => rfl⟩
  | .int n => exact ⟨fun _ u h => by cases h; rfl, fun _ => rfl⟩
  | .var i s => exact ⟨nofun, fun h => nomatch h _ (.whole _)⟩
  | .quant q bs u => exact ⟨nofun, fun h => nomatch h _ (.whole _)⟩
  | .app f ts =>
    rw [isGround, areGround_iff]
    constructor
    · intro h u hu
      cases hu with
      | whole => rfl
      | argument ht hu => exact h _ ht u hu
    · exact fun h t ht u hu => h u (.argument ht hu)
  | .op o ts =>
    rw [isGround, areGround_iff]
    constructor
    · intro h u hu
      cases hu with
      | whole => rfl
      | operand ht hu => exact h _ ht u hu
    · exact fun h t ht u hu => h u (.operand ht hu)

theorem areGround_iff {ts : List Term} :
    areGround ts = true ↔ ∀ t ∈ ts, ∀ u : Term, u.PartOf t → u.isBinding = false := by
  match ts with
  | [] => simp [areGround]
  | t :: ts => rw [areGround, Bool.and_eq_true, isGround_iff, areGround_iff, List.forall_mem_cons]

end

variable {p p' : Text.Points} {c t : Term} {n : String} {as bs cs ds : List Term}

lemma applies_iff : c.Applies n as ↔ c.headName? = some n ∧ c.args = as := by
  constructor
  · intro h
    cases h with
    | true => exact ⟨rfl, rfl⟩
    | false => exact ⟨rfl, rfl⟩
    | numeral => exact ⟨rfl, rfl⟩
    | symbol hf => exact ⟨by rw [headName?, Symbol.text, Symbol.shownName, if_neg hf], rfl⟩
    | nameless hf => exact ⟨by rw [headName?, Symbol.text, Symbol.shownName, if_pos hf], rfl⟩
    | operator o => exact ⟨by cases o <;> rfl, rfl⟩
  · rintro ⟨hn, rfl⟩
    cases c with
    | bool b => cases b <;> cases hn <;> constructor
    | int k => cases hn; exact .numeral k
    | app f ts =>
      rw [headName?, Symbol.text, Symbol.shownName] at hn
      split at hn
      · cases hn
        exact .nameless ‹_› ts
      · cases hn
        exact .symbol ‹_› ts
    | op o ts =>
      have ho : n = o.termName := by cases o <;> exact (Option.some.inj hn).symm
      rw [ho]
      exact .operator o ts
    | var i s => cases hn
    | quant q xs u => cases hn

lemma conjuncts_iff : t.Conjuncts cs ↔ t.conjuncts = cs := by
  unfold conjuncts
  constructor
  · intro h
    cases h with
    | conjunction => rfl
    | single h =>
      split
      · exact absurd rfl (h _)
      · rfl
  · rintro rfl
    split
    · exact .conjunction _
    · exact .single ‹_›

lemma IsFact.args_eq (h : IsFact p c as) : c.args = as := by
  obtain ⟨n, hn, -⟩ := h.applies
  exact (applies_iff.mp hn).2

/-- A fact of a longer marker is one of the shorter marker. -/
lemma IsFact.mono (hp : p <+: p') (h : IsFact p' c as) : IsFact p c as := by
  obtain ⟨⟨n, hn, hbegins⟩, hground⟩ := h
  exact ⟨⟨n, hn, hp.trans hbegins⟩, hground⟩

lemma text_int (n : Int) : (Term.int n).text = Decimal.text n := by
  change "" ++ Decimal.text n = _
  rw [String.empty_append]

end Term

namespace Witness

open Term

/-! ### The facts of a trace -/

/-- **The arguments of the conjuncts that are facts**, in order: of the conjuncts, and then of the
arguments of each. -/
inductive Gathers (P : Term → List Term → Prop) : List Term → List Term → Prop where
  | nil : Gathers P [] []
  | fact {c : Term} {as cs xs : List Term} (h : P c as) (hs : Gathers P cs xs) :
    Gathers P (c :: cs) (as ++ xs)
  | other {c : Term} {cs xs : List Term} (h : ∀ as, ¬ P c as) (hs : Gathers P cs xs) :
    Gathers P (c :: cs) xs

/-- The arguments of the facts among the conjuncts of the entries of a trace, in order. -/
inductive GathersAll (P : Term → List Term → Prop) : List (Option Term) → List Term → Prop where
  | nil : GathersAll P [] []
  | absent {ts : List (Option Term)} {xs : List Term} (hs : GathersAll P ts xs) :
    GathersAll P (none :: ts) xs
  | entry {t : Term} {cs xs ys : List Term} {ts : List (Option Term)} (hc : t.Conjuncts cs)
    (h : Gathers P cs xs) (hs : GathersAll P ts ys) : GathersAll P (some t :: ts) (xs ++ ys)

section

variable {P Q : Term → List Term → Prop} {cs xs ys : List Term} {ts us : List (Option Term)}

lemma exists_gathers (P : Term → List Term → Prop) (cs : List Term) : ∃ xs, Gathers P cs xs := by
  induction cs with
  | nil => exact ⟨[], .nil⟩
  | cons c cs ih =>
    obtain ⟨xs, hxs⟩ := ih
    by_cases h : ∃ as, P c as
    · obtain ⟨as, h⟩ := h
      exact ⟨as ++ xs, .fact h hxs⟩
    · exact ⟨xs, .other (not_exists.mp h) hxs⟩

lemma exists_gathersAll (P : Term → List Term → Prop) (ts : List (Option Term)) :
    ∃ xs, GathersAll P ts xs := by
  induction ts with
  | nil => exact ⟨[], .nil⟩
  | cons t ts ih =>
    obtain ⟨ys, hys⟩ := ih
    cases t with
    | none => exact ⟨ys, .absent hys⟩
    | some t =>
      obtain ⟨xs, hxs⟩ := exists_gathers P t.conjuncts
      exact ⟨xs ++ ys, .entry (conjuncts_iff.mpr rfl) hxs hys⟩

lemma GathersAll.append (ht : GathersAll P ts xs) (hu : GathersAll P us ys) :
    GathersAll P (ts ++ us) (xs ++ ys) := by
  induction ht with
  | nil => exact hu
  | absent _ ih => exact .absent ih
  | entry hc h _ ih =>
    rw [List.append_assoc]
    exact .entry hc h ih

/-- What is gathered stands as an argument of a fact, which is a conjunct. -/
lemma Gathers.exists_fact (h : Gathers P cs xs) {x : Term} (hx : x ∈ xs) :
    ∃ c ∈ cs, ∃ as, P c as ∧ x ∈ as := by
  induction h with
  | nil => cases hx
  | fact h _ ih =>
    rcases List.mem_append.mp hx with hx | hx
    · exact ⟨_, .head _, _, h, hx⟩
    · obtain ⟨c, hc, h⟩ := ih hx
      exact ⟨c, .tail _ hc, h⟩
  | other _ _ ih =>
    obtain ⟨c, hc, h⟩ := ih hx
    exact ⟨c, .tail _ hc, h⟩

lemma GathersAll.exists_fact (h : GathersAll P ts xs) {x : Term} (hx : x ∈ xs) :
    ∃ t, some t ∈ ts ∧ ∃ cs, t.Conjuncts cs ∧ ∃ c ∈ cs, ∃ as, P c as ∧ x ∈ as := by
  induction h with
  | nil => cases hx
  | absent _ ih =>
    obtain ⟨t, ht, h⟩ := ih hx
    exact ⟨t, .tail _ ht, h⟩
  | entry hc h _ ih =>
    rcases List.mem_append.mp hx with hx | hx
    · exact ⟨_, .head _, _, hc, h.exists_fact hx⟩
    · obtain ⟨t, ht, h⟩ := ih hx
      exact ⟨t, .tail _ ht, h⟩

end

/-! ### Fewer facts -/

/-- Two texts with parts left out are whole only if both parts are. -/
lemma append_eq_append_iff_of_sublist {α : Type} {xs xs' ys ys' : List α} (h : xs.Sublist ys)
    (h' : xs'.Sublist ys') : xs ++ xs' = ys ++ ys' ↔ xs = ys ∧ xs' = ys' := by
  constructor
  · intro heq
    have hlen := congrArg List.length heq
    rw [List.length_append, List.length_append] at hlen
    have hle := h.length_le
    have hle' := h'.length_le
    exact ⟨h.eq_of_length (by omega), h'.eq_of_length (by omega)⟩
  · rintro ⟨rfl, rfl⟩
    rfl

section

variable {P Q : Term → List Term → Prop} (hPQ : ∀ c as, P c as → Q c as)
  (hQ : ∀ c as bs, Q c as → Q c bs → as = bs)
include hPQ hQ

/-- **Fewer facts give fewer arguments**, and as many only if those that are missing have none. -/
lemma Gathers.sublist {cs xs ys : List Term} (hx : Gathers P cs xs) (hy : Gathers Q cs ys) :
    xs.Sublist ys ∧ (xs = ys ↔ ∀ c ∈ cs, ∀ as, Q c as → as ≠ [] → P c as) := by
  induction cs generalizing xs ys with
  | nil =>
    cases hx
    cases hy
    exact ⟨.slnil, by simp⟩
  | cons c cs ih =>
    rw [List.forall_mem_cons]
    cases hx with
    | @fact _ as _ xs h hxs =>
      cases hy with
      | @fact _ bs _ ys h' hys =>
        obtain rfl := hQ c as bs (hPQ c as h) h'
        obtain ⟨hsub, hiff⟩ := ih hxs hys
        refine ⟨hsub.append_left as, ?_⟩
        rw [append_eq_append_iff_of_sublist (List.Sublist.refl as) hsub, hiff]
        refine and_congr_left fun _ => iff_of_true rfl fun es hes _ => ?_
        rwa [← hQ c as es h' hes]
      | other h' _ => exact absurd (hPQ c as h) (h' as)
    | other h hxs =>
      cases hy with
      | @fact _ bs _ ys h' hys =>
        obtain ⟨hsub, hiff⟩ := ih hxs hys
        refine ⟨hsub.trans (List.sublist_append_right bs ys), ?_⟩
        rw [← List.nil_append xs, append_eq_append_iff_of_sublist (List.nil_sublist bs) hsub, hiff]
        refine and_congr_left fun _ => ⟨?_, fun hc => ?_⟩
        · rintro rfl es hes hne
          exact absurd (hQ c [] es h' hes).symm hne
        · cases bs with
          | nil => rfl
          | cons b bs => exact absurd (hc (b :: bs) h' nofun) (h _)
      | other h' hys =>
        obtain ⟨hsub, hiff⟩ := ih hxs hys
        refine ⟨hsub, ?_⟩
        rw [hiff]
        exact (and_iff_right fun es hes _ => absurd hes (h' es)).symm

lemma GathersAll.sublist {ts : List (Option Term)} {xs ys : List Term} (hx : GathersAll P ts xs)
    (hy : GathersAll Q ts ys) : xs.Sublist ys ∧ (xs = ys ↔ ∀ t, some t ∈ ts →
      ∀ cs, t.Conjuncts cs → ∀ c ∈ cs, ∀ as, Q c as → as ≠ [] → P c as) := by
  induction hx generalizing ys with
  | nil =>
    cases hy
    exact ⟨.slnil, by simp⟩
  | absent _ ih =>
    cases hy with
    | absent hys =>
      obtain ⟨hsub, hiff⟩ := ih hys
      exact ⟨hsub, by simpa using hiff⟩
  | @entry t cs xs xs' ts hc h _ ih =>
    cases hy with
    | @entry _ ds ys ys' _ hd h' hys =>
      obtain rfl : ds = cs := (conjuncts_iff.mp hd).symm.trans (conjuncts_iff.mp hc)
      obtain ⟨hsub, hiff⟩ := h.sublist hPQ hQ h'
      obtain ⟨hsub', hiff'⟩ := ih hys
      refine ⟨hsub.append hsub', ?_⟩
      rw [append_eq_append_iff_of_sublist hsub hsub', hiff, hiff']
      constructor
      · rintro ⟨hhere, hlater⟩ u hu es hes
        rcases List.mem_cons.mp hu with heq | hu
        · cases heq
          obtain rfl : es = ds := (conjuncts_iff.mp hes).symm.trans (conjuncts_iff.mp hc)
          exact hhere
        · exact hlater u hu es hes
      · intro hall
        exact ⟨hall t (.head _) ds hc, fun u hu => hall u (.tail _ hu)⟩

end

lemma IsFact.unique {p : Text.Points} (c : Term) (as bs : List Term) (h : c.IsFact p as)
    (h' : c.IsFact p bs) : as = bs :=
  h.args_eq.symm.trans h'.args_eq

/-! ### Decoding -/

section

variable {m : Value} {p : Text.Points} (hm : m.points? = some p)
include hm

lemma ofConjunct?_fact {c : Term} {as : List Term} (h : c.IsFact p as) :
    ofConjunct? m c = some (as.map text) := by
  obtain ⟨n, hn, hbegins⟩ := h.applies
  obtain ⟨hname, rfl⟩ := applies_iff.mp hn
  rw [ofConjunct?, hname]
  dsimp only
  rw [Value.begins?_of_points hm, decide_eq_true hbegins, isGround_iff.mpr h.ground]
  rfl

lemma ofConjunct?_other {c : Term} (h : ∀ as, ¬ c.IsFact p as) : ofConjunct? m c = some [] := by
  rw [ofConjunct?]
  rcases hn : c.headName? with _ | n
  · rfl
  · dsimp only
    rw [Value.begins?_of_points hm]
    change some (if (decide (p.Begins n) && c.isGround) = true then _ else _) = _
    rw [if_neg]
    rw [Bool.and_eq_true, decide_eq_true_eq]
    rintro ⟨hbegins, hground⟩
    exact h c.args ⟨⟨n, applies_iff.mpr ⟨hn, rfl⟩, hbegins⟩, isGround_iff.mp hground⟩

lemma gather_ofConjunct? {cs xs : List Term} (h : Gathers (IsFact p) cs xs) :
    gather (ofConjunct? m) cs = some (xs.map text) := by
  induction h with
  | nil => rfl
  | fact h _ ih =>
    rw [gather, ofConjunct?_fact hm h, ih, List.map_append]
    rfl
  | other h _ ih =>
    rw [gather, ofConjunct?_other hm h, ih]
    rfl

lemma ofTrace?_of_gathersAll {ts : List (Option Term)} {xs : List Term}
    (h : GathersAll (IsFact p) ts xs) : ofTrace? m ts = some (xs.map text) := by
  unfold ofTrace?
  induction h with
  | nil => rfl
  | absent _ ih =>
    rw [gather, ih]
    rfl
  | entry hc h _ ih =>
    rw [gather, ofTerm?, conjuncts_iff.mp hc, gather_ofConjunct? hm h, ih, List.map_append]
    rfl

/-- **A text finds all facts and nothing else.** -/
lemma ofTrace?_eq_some_iff {ts : List (Option Term)} {vs : List String} :
    ofTrace? m ts = some vs ↔ ∃ xs, GathersAll (IsFact p) ts xs ∧ vs = xs.map text := by
  constructor
  · intro h
    obtain ⟨xs, hxs⟩ := exists_gathersAll (IsFact p) ts
    rw [ofTrace?_of_gathersAll hm hxs] at h
    exact ⟨xs, hxs, (Option.some.inj h).symm⟩
  · rintro ⟨xs, hxs, rfl⟩
    exact ofTrace?_of_gathersAll hm hxs

end

lemma ofTerm?_eq (m : Value) (u : Option Term) : ofTerm? m u = ofTrace? m [u] := by
  rw [ofTrace?, gather, gather]
  rcases ofTerm? m u with _ | vs
  · rfl
  · exact congrArg some (List.append_nil vs).symm

/-- **Decoding loses, reorders and invents nothing.** The values of a trace are the printed arguments of
its facts, in the order of the trace, of the conjuncts of an entry and of the arguments of a conjunct;
those of an answer are those of a trace of one entry. The values of two traces in a row are those of the
one and then those of the other. A longer marker gives some of the values, in the same order. Each value
comes from a fact, at no depth of which a bound variable or a quantifier stands. And where the arguments
are numerals, the values tell their integers, and are read as them by the reader of literals up to its
limit. -/
theorem ofTrace_facts (p : Text.Points) (ts : List (Option Term)) :
    (∀ vs, ofTrace? (.ofPoints p) ts = some vs ↔
      ∃ xs, GathersAll (IsFact p) ts xs ∧ vs = xs.map text) ∧
    (∃ vs, ofTrace? (.ofPoints p) ts = some vs) ∧
    (∀ u, ofTerm? (.ofPoints p) u = ofTrace? (.ofPoints p) [u]) ∧
    (∀ us vs ws, ofTrace? (.ofPoints p) ts = some vs → ofTrace? (.ofPoints p) us = some ws →
      ofTrace? (.ofPoints p) (ts ++ us) = some (vs ++ ws)) ∧
    (∀ q vs ws, p <+: q → ofTrace? (.ofPoints p) ts = some vs →
      ofTrace? (.ofPoints q) ts = some ws → ws.Sublist vs) ∧
    (∀ vs, ofTrace? (.ofPoints p) ts = some vs → ∀ v ∈ vs, ∃ t, some t ∈ ts ∧ ∃ cs, t.Conjuncts cs ∧
      ∃ c ∈ cs, ∃ as, c.IsFact p as ∧ ∃ a ∈ as, v = a.text) ∧
    ∀ ns : List Int, GathersAll (IsFact p) ts (ns.map .int) →
      ∃ vs, ofTrace? (.ofPoints p) ts = some vs ∧
        vs.map (fun v => Decimal.ofPlain v.toList) = ns ∧
        ((∀ n ∈ ns, Decimal.fits n = true) →
          vs.map (fun v => Decimal.toInt? v.toList) = ns.map some) := by
  have hm : ∀ q, (Value.ofPoints q).points? = some q := Value.points?_ofPoints
  obtain ⟨xs, hxs⟩ := exists_gathersAll (IsFact p) ts
  have hts := ofTrace?_of_gathersAll (hm p) hxs
  refine ⟨fun vs => ofTrace?_eq_some_iff (hm p), ⟨_, hts⟩, ofTerm?_eq _, fun us vs ws hv hw => ?append,
    fun q vs ws hq hv hw => ?marker, fun vs hv v hmem => ?origin, fun ns hns => ?numerals⟩
  case append =>
    obtain ⟨ys, hys, rfl⟩ := (ofTrace?_eq_some_iff (hm p)).mp hv
    obtain ⟨zs, hzs, rfl⟩ := (ofTrace?_eq_some_iff (hm p)).mp hw
    rw [ofTrace?_of_gathersAll (hm p) (hys.append hzs), List.map_append]
  case marker =>
    obtain ⟨ys, hys, rfl⟩ := (ofTrace?_eq_some_iff (hm p)).mp hv
    obtain ⟨zs, hzs, rfl⟩ := (ofTrace?_eq_some_iff (hm q)).mp hw
    exact (hzs.sublist (fun c as h => h.mono hq) IsFact.unique hys).1.map text
  case origin =>
    obtain ⟨ys, hys, rfl⟩ := (ofTrace?_eq_some_iff (hm p)).mp hv
    obtain ⟨a, ha, rfl⟩ := List.mem_map.mp hmem
    obtain ⟨t, ht, cs, hcs, c, hc, as, has, hin⟩ := hys.exists_fact ha
    exact ⟨t, ht, cs, hcs, c, hc, as, has, a, hin, rfl⟩
  case numerals =>
    refine ⟨_, ofTrace?_of_gathersAll (hm p) hns, ?_, fun hfits => ?_⟩
    · rw [List.map_map, List.map_map]
      refine (List.map_congr_left fun n _ => ?_).trans (List.map_id ns)
      rw [Function.comp_apply, Function.comp_apply, text_int, Decimal.text, String.toList_ofList,
        Decimal.ofPlain_ofInt]
      rfl
    · rw [List.map_map, List.map_map]
      refine List.map_congr_left fun n hn => ?_
      rw [Function.comp_apply, Function.comp_apply, text_int, Decimal.text, String.toList_ofList,
        Decimal.toInt?_ofInt (hfits n hn)]

/-- Conjunctions, an absent term and facts with bound variables: the facts of the marker are the first
conjunct of the first entry and the second one of the last. -/
theorem ofTrace_facts_summary :
    let p := Text.Points.ofChars "summary".toList
    let fact (i : String) (ts : List Term) : Term := .app ⟨"summary_" ++ i, ts.map sort, .bool⟩ ts
    let ts : List (Option Term) :=
      [some (.op .and [fact "0" [.int 3, .const ⟨"y", [], .int⟩], .op .not [fact "1" [.int 4]],
          .app ⟨"other", [.int], .bool⟩ [.int 5]]),
        none, some (.quant .all [("x", .int)] (fact "0" [.var 0 .int])), some (fact "2" [.var 0 .int]),
        some (.op .and [.op .and [fact "0" [.int 6]], fact "1" [.int (-7)]])]
    ofTrace? (.ofPoints p) ts = some ["3", "y", "-7"] ∧
      ∃ xs, GathersAll (IsFact p) ts xs ∧ ["3", "y", "-7"] = xs.map text := by
  intro p fact ts
  have hvalues : ofTrace? (.ofPoints p) ts = some ["3", "y", "-7"] := by decide +kernel
  exact ⟨hvalues, ((ofTrace_facts p ts).1 _).mp hvalues⟩

end Witness

end Horn

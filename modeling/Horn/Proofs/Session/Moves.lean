import Horn.Proofs.Session.Answer

/-!
What a command does to a session and its engine. It prepares, by declaring names and registering
relations, and then hands at most one term to the engine: a closed rule or a closed goal, whose names
have all been admitted.
-/

namespace Horn.Session

/-- No name of the expression is that of a function to the Booleans that is not a registered
relation. -/
def Admits (s : Session) (e : Expr) : Prop := ∀ n ∈ e.names, s.isUnregistered n = false

/-- Declarations and registrations, with the calls they make. -/
inductive Preparing (E : Engine) (s : Session) : List EngineCall → Session → Prop where
  | still : Preparing E s [] s
  | declare {ks : List EngineCall} {s' : Session} {n : String} {sp : SortSpec} {f : Symbol}
    (h : Preparing E s ks s') (hf : s'.symbols.find? n = none) (hs : sp.toSymbol n = .ok f) :
    Preparing E s ks { s' with symbols := s'.symbols.add ⟨n, sp, f⟩ }
  | refused {ks : List EngineCall} {s' : Session} {n : String} {d : Declaration} {x : Failure}
    (h : Preparing E s ks s') (hr : s'.isRegistered n = false)
    (hf : (s'.symbols.functions.find? fun d => d.name == n) = some d)
    (hb : d.symbol.range = .bool) (hE : E.register d.symbol = .error x) :
    Preparing E s (ks ++ [.register d.symbol]) s'
  | registered {ks : List EngineCall} {s' : Session} {n : String} {d : Declaration}
    (h : Preparing E s ks s') (hr : s'.isRegistered n = false)
    (hf : (s'.symbols.functions.find? fun d => d.name == n) = some d)
    (hb : d.symbol.range = .bool) (hE : E.register d.symbol = .ok ()) :
    Preparing E s (ks ++ [.register d.symbol]) { s' with relations := s'.relations ++ [d] }

inductive Handing (E : Engine) (s : Session) : List EngineCall → Session → Prop where
  | refused {e : Expr} {t u : Term} {l : String} {x : Failure} (ha : s.Admits e)
    (ht : e.toFormula s.symbols = .ok t) (hu : u = t.close .all s.symbols.free)
    (hE : E.addRule u l = .error x) : Handing E s [.addRule u l] s
  | added {e : Expr} {t u : Term} {l : String} (ha : s.Admits e)
    (ht : e.toFormula s.symbols = .ok t) (hu : u = t.close .all s.symbols.free)
    (hE : E.addRule u l = .ok ()) :
    Handing E s [.addRule u l] { s with rules := s.rules ++ [(l, u)] }
  | asked {e : Expr} {t u : Term} {ks : List EngineCall} {reason : String} (ha : s.Admits e)
    (ht : e.toFormula s.symbols = .ok t) (hu : u = t.close .any s.symbols.free)
    (hks : ∀ k ∈ ks, k.isFollowUp = true) :
    Handing E s (.query u :: ks) { s with phase := .idle, reason := reason }

/-- Preparations, after which one term may be handed to the engine. -/
inductive Moves (E : Engine) (s : Session) : List EngineCall → Session → Prop where
  | prepared {ks : List EngineCall} {s' : Session} (h : Preparing E s ks s') : Moves E s ks s'
  | handed {ks ks' : List EngineCall} {s' s'' : Session} (h : Preparing E s ks s')
    (h' : Handing E s' ks' s'') : Moves E s (ks ++ ks') s''

lemma Preparing.trans {E : Engine} {s s' s'' : Session} {ks ks' : List EngineCall}
    (h : Preparing E s ks s') (h' : Preparing E s' ks' s'') : Preparing E s (ks ++ ks') s'' := by
  induction h' with
  | still => rw [List.append_nil]; exact h
  | declare _ hf hs ih => exact ih.declare hf hs
  | refused _ hr hf hb hE ih => rw [← List.append_assoc]; exact ih.refused hr hf hb hE
  | registered _ hr hf hb hE ih => rw [← List.append_assoc]; exact ih.registered hr hf hb hE

/-! ### Parts of a command that prepare -/

abbrev callsOf {α : Type} (o : Outcome α) : List EngineCall := o.calls.map (·.2)

section

variable {E : Engine} {s : Session} {n : String}

lemma DeclareEnd.preparing {sp : SortSpec} {o : Outcome Unit} (h : DeclareEnd n sp s o) :
    Preparing E s (callsOf o) o.session := by
  cases h with
  | failed hd => exact .still
  | again hf hs => exact .still
  | declared hf hs => exact .declare .still hf hs

lemma RegisterEnd.preparing {o : Outcome Unit} (h : RegisterEnd n E s o) :
    Preparing E s (callsOf o) o.session := by
  cases h with
  | again hr => exact .still
  | missing hr hf => exact .still
  | notRelation hr hf hb => exact .still
  | refused hr hf hb hE => exact .refused .still hr hf hb hE
  | registered hr hf hb hE => exact .registered .still hr hf hb hE

lemma ErrorEnd.preparing {o : Outcome Expr} (h : ErrorEnd E s o) :
    Preparing E s (callsOf o) o.session := by
  cases h with
  | known hr => exact .still
  | undeclared hr hd ho => exact hd.preparing
  | unregistered hr hd ho hg ho' =>
    rw [callsOf, List.map_append]
    exact hd.preparing.trans hg.preparing
  | made hr hd ho hg ho' =>
    rw [callsOf, List.map_append]
    exact hd.preparing.trans hg.preparing

lemma HeadEnd.preparing {e : Expr} {o : Outcome Expr} (h : HeadEnd e E s o) :
    Preparing E s (callsOf o) o.session := by
  cases h with
  | error hf => exact (errorRelation_ends E s).preparing
  | registered hf hr => exact .still
  | notHead hf hr => exact .still

end

/-! ### Names that stay admitted -/

lemma isUnregistered_eq_false {s : Session} {n : String} (h : s.isRegistered n = true) :
    s.isUnregistered n = false := by
  unfold isUnregistered
  rw [h]
  cases s.symbols.function? n <;> simp

lemma isUnregistered_of_function?_eq_none {s : Session} {n : String}
    (h : s.symbols.function? n = none) : s.isUnregistered n = false := by
  unfold isUnregistered
  rw [h]
  rfl

lemma isRegistered_append {s : Session} {d : Declaration} {n : String} :
    { s with relations := s.relations ++ [d] }.isRegistered n =
      (s.isRegistered n || d.name == n) := by
  unfold isRegistered
  rw [List.any_append, List.any_cons, List.any_nil, Bool.or_false]

section

variable {E : Engine} {s : Session} {n m : String}

lemma DeclareEnd.isUnregistered {sp : SortSpec} {o : Outcome Unit} (h : DeclareEnd n sp s o)
    (hm : n ≠ m) : o.session.isUnregistered m = s.isUnregistered m := by
  cases h with
  | failed hd => rfl
  | again hf hs => rfl
  | declared hf hs =>
    unfold Session.isUnregistered
    rw [Symbols.function?_add hm]
    rfl

lemma RegisterEnd.isUnregistered {o : Outcome Unit} (h : RegisterEnd n E s o) (hm : n ≠ m) :
    o.session.isUnregistered m = s.isUnregistered m := by
  cases h with
  | again hr => rfl
  | missing hr hf => rfl
  | notRelation hr hf hb => rfl
  | refused hr hf hb hE => rfl
  | @registered d hr hf hb hE =>
    have hne : (d.name == m) = false := by
      rw [Symbols.name_of_find? hf]
      exact beq_false_of_ne hm
    unfold Session.isUnregistered
    rw [isRegistered_append, hne, Bool.or_false]

lemma RegisterEnd.isRegistered {o : Outcome Unit} (h : RegisterEnd n E s o)
    (ho : o.result = .ok ()) : o.session.isRegistered n = true := by
  cases h with
  | again hr => exact hr
  | missing hr hf => cases ho
  | notRelation hr hf hb => cases ho
  | refused hr hf hb hE => cases ho
  | @registered d hr hf hb hE =>
    rw [isRegistered_append, Symbols.name_of_find? hf, beq_self_eq_true, Bool.or_true]

/-- **The error relation, once made, is registered**, and no other name has become unregistered. -/
lemma ErrorEnd.ok {o : Outcome Expr} {h : Expr} (he : ErrorEnd E s o) (ho : o.result = .ok h) :
    h = errorExpr ∧ o.session.isRegistered errorName = true ∧
      ∀ m, s.isUnregistered m = false → o.session.isUnregistered m = false := by
  cases he with
  | known hr => exact ⟨(Except.ok.inj ho).symm, hr, fun m hm => hm⟩
  | undeclared hr hd ho' => cases ho
  | unregistered hr hd ho' hg ho'' => cases ho
  | made hr hd ho' hg ho'' =>
    have hreg := hg.isRegistered ho''
    refine ⟨(Except.ok.inj ho).symm, hreg, fun m hm => ?_⟩
    by_cases hn : errorName = m
    · subst hn
      exact isUnregistered_eq_false hreg
    · rw [hg.isUnregistered hn, hd.isUnregistered hn, hm]

/-- The names of the rule that is translated are those of the rule that was given, and that of the error
relation. -/
lemma mem_names_ruleForm {e : Expr} (h : n ∈ e.ruleForm.names) :
    n ∈ e.names ∨ (e.ruleHead.isBareFalse = true ∧ n = errorName) := by
  have hhead : ∀ h : Expr, n ∈ (if h.isBareFalse then errorExpr else h).names →
      n ∈ h.names ∨ (h.isBareFalse = true ∧ n = errorName) := by
    intro h hn
    split at hn
    · exact .inr ⟨‹_›, by simpa [errorExpr, Expr.names, Expr.namesOfAll] using hn⟩
    · exact .inl hn
  unfold Expr.ruleForm at h
  rcases e.rule_cases with ⟨b, hd, sp, rfl⟩ | ⟨-, hh, hp, -⟩
  · change n ∈ "=>" :: (([] ++ (if hd.isBareFalse then errorExpr else hd).names) ++ b.names) at h
    change n ∈ "=>" :: (([] ++ hd.names) ++ b.names) ∨ (hd.isBareFalse = true ∧ n = errorName)
    rw [List.nil_append, List.mem_cons, List.mem_append] at h ⊢
    rcases h with h | h | h
    · exact .inl (.inl h)
    · rcases hhead hd h with h | h
      · exact .inl (.inr (.inl h))
      · exact .inr h
    · exact .inl (.inr (.inr h))
  · rw [hp] at h
    rw [hh] at h ⊢
    exact hhead e h

/-- **A rule that was admitted is so with its head**, once that is found; an error relation in it is
registered. -/
lemma withHead_ok {e e' : Expr} (ha : s.Admits e) (ho : (withHead e E s).result = .ok e') :
    e' = e.ruleForm ∧ (withHead e E s).session.Admits e' ∧
      (e.ruleHead.isBareFalse = true →
        (withHead e E s).session.isRegistered errorName = true) := by
  have hend := head_ends e.ruleHead E s
  rw [withHead_eq] at ho ⊢
  generalize head e.ruleHead E s = o at hend ho ⊢
  have hok : ∃ h, o.result = .ok h ∧ e' = e.putHead h := by
    rcases hr : o.result with x | h
    · rw [hr] at ho; cases ho
    · rw [hr] at ho; cases ho; exact ⟨h, rfl, rfl⟩
  obtain ⟨h, hh, rfl⟩ := hok
  cases hend with
  | error hf =>
    obtain ⟨rfl, hreg, hkeep⟩ := (errorRelation_ends E s).ok hh
    have hform : e.putHead errorExpr = e.ruleForm := by rw [Expr.ruleForm, hf, if_pos rfl]
    refine ⟨hform, fun n hn => ?_, fun _ => hreg⟩
    rw [hform] at hn
    rcases mem_names_ruleForm hn with hn | ⟨-, rfl⟩
    · exact hkeep n (ha n hn)
    · exact isUnregistered_eq_false hreg
  | registered hf hr =>
    cases hh
    have hform : e.putHead e.ruleHead = e.ruleForm := by
      rw [Expr.ruleForm, hf, if_neg Bool.false_ne_true]
    refine ⟨hform, fun n hn => ?_, fun hf' => by rw [hf] at hf'; cases hf'⟩
    rw [hform] at hn
    rcases mem_names_ruleForm hn with hn | ⟨hf', -⟩
    · exact ha n hn
    · rw [hf] at hf'; cases hf'
  | notHead hf hr => cases hh

lemma searchName_none {e : Expr} (h : Expr.searchName s.isUnregistered [e] = none) : s.Admits e :=
  Expr.searchName_eq_none_iff.mp h

lemma withHead_preparing (e : Expr) (E : Engine) (s : Session) :
    Preparing E s (callsOf (withHead e E s)) (withHead e E s).session := by
  rw [withHead_eq]
  exact (head_ends e.ruleHead E s).preparing

end

/-! ### What each command does -/

section

variable {E : Engine} {s : Session}

lemma RuleEnd.moves {e : Expr} {l : String} {o : Outcome Unit}
    (h : RuleEnd e l E s (withHead e E s) o) : Moves E s (callsOf o) o.session := by
  have hp := withHead_preparing e E s
  cases h with
  | unknown hn => exact .prepared .still
  | noHead hn ho => exact .prepared hp
  | noTerm hn ho ht => exact .prepared hp
  | refused hn ho ht hu hE =>
    rw [callsOf, List.map_append]
    exact .handed hp (.refused (withHead_ok (searchName_none hn) ho).2.1 ht hu hE)
  | added hn ho ht hu hE =>
    rw [callsOf, List.map_append]
    exact .handed hp (.added (withHead_ok (searchName_none hn) ho).2.1 ht hu hE)

lemma QueryEnd.moves {e : Expr} {o : Outcome QueryResult} (h : QueryEnd e E s o) :
    Moves E s (callsOf o) o.session := by
  cases h with
  | unknown hn => exact .prepared .still
  | noTerm hn ht => exact .prepared .still
  | @asked t r reason ks lg hn ht ha =>
    have hp : Preparing E s [] s := .still
    refine .handed hp (.asked (searchName_none hn) ht rfl ?_)
    rw [List.map_map]
    intro k hk
    obtain ⟨c, hc, rfl⟩ := List.mem_map.mp hk
    exact ha.followUps c hc

end

end Horn.Session

namespace Horn.Action

variable {α β : Type}

def Still (x : Action α) : Prop := ∀ E s, (x E s).session = s ∧ (x E s).calls = []

lemma Still.pure (a : α) : Still (Pure.pure a : Action α) := fun _ _ => ⟨rfl, rfl⟩

lemma Still.session : Still session := fun _ _ => ⟨rfl, rfl⟩

lemma Still.fail (e : SessionError) : Still (fail e : Action α) := fun _ _ => ⟨rfl, rfl⟩

lemma Still.ofExcept {ε : Type} (g : ε → SessionError) (x : Except ε α) : Still (ofExcept g x) := by
  cases x with
  | error e => exact .fail _
  | ok a => exact .pure a

/-- What follows an action and only looks at the state leaves the action's calls and its state. -/
lemma bind_still {x : Action α} {f : α → Action β} (hf : ∀ a, Still (f a)) (E : Engine) (s : Session) :
    ((x >>= f) E s).session = (x E s).session ∧ ((x >>= f) E s).calls = (x E s).calls := by
  rcases ho : x E s with ⟨e | a, s', ks, l⟩
  · rw [bind_error ho]
    exact ⟨rfl, rfl⟩
  · obtain ⟨hs, hk⟩ := hf a E s'
    rw [bind_ok ho, hs, hk, List.append_nil]
    exact ⟨rfl, rfl⟩

lemma Still.bind {x : Action α} {f : α → Action β} (hx : Still x) (hf : ∀ a, Still (f a)) :
    Still (x >>= f) := by
  intro E s
  rw [(bind_still hf E s).1, (bind_still hf E s).2]
  exact hx E s

end Horn.Action

namespace Horn

def Command.looks : Command → Bool
  | .rules | .term _ | .formula _ | .relationSymbol _ | .constants | .free | .functions
  | .termSort _ => true
  | _ => false

namespace Session

open Horn.Action (Still)

/-- What a command leaves of the calls and the state: what its action leaves. -/
inductive PerformEnd (E : Engine) (s : Session) :
    Command → List (Phase × EngineCall) → Session → Prop where
  | declare (n : String) (sp : SortSpec) :
    PerformEnd E s (.declare n sp) (declare n sp E s).calls (declare n sp E s).session
  | newVariable (n : String) (sp : SortSpec) :
    PerformEnd E s (.newVariable n sp) (declare n sp E s).calls (declare n sp E s).session
  | register (e : Expr) :
    PerformEnd E s (.register e) (register e E s).calls (register e E s).session
  | errorRelation :
    PerformEnd E s .errorRelation (errorRelation E s).calls (errorRelation E s).session
  | addRule (e : Expr) (l : String) :
    PerformEnd E s (.addRule e l) (addRule e l E s).calls (addRule e l E s).session
  | query (e : Expr) : PerformEnd E s (.query e) (query e E s).calls (query e E s).session
  | looked {x : Command} (hx : x.looks = true) : PerformEnd E s x [] s

lemma perform_ends (x : Command) (E : Engine) (s : Session) :
    PerformEnd E s x (perform x E s).calls (perform x E s).session := by
  have hstill : ∀ {y : Action Response}, Still y → x.looks = true →
      PerformEnd E s x (y E s).calls (y E s).session := by
    intro y hy hx
    rw [(hy E s).1, (hy E s).2]
    exact .looked hx
  have hbind : ∀ {α β : Type} {y : Action α} {f : α → Action β}, (∀ a, Still (f a)) →
      PerformEnd E s x (y E s).calls (y E s).session →
      PerformEnd E s x ((y >>= f) E s).calls ((y >>= f) E s).session := by
    intro α β y f hf hy
    rw [(Action.bind_still hf E s).1, (Action.bind_still hf E s).2]
    exact hy
  cases x with
  | declare n sp => exact hbind (fun _ => .pure _) (.declare n sp)
  | newVariable n sp => exact hbind (fun _ => .pure _) (hbind (fun _ => .pure _) (.newVariable n sp))
  | register e => exact hbind (fun _ => .pure _) (.register e)
  | errorRelation => exact hbind (fun _ => .pure _) .errorRelation
  | addRule e l =>
    refine hbind (fun _ => .bind .session fun _ => ?_) (.addRule e l)
    exact .pure _
  | query e => exact hbind (fun _ => .pure _) (.query e)
  | rules => exact hstill (.bind .session fun _ => .pure _) rfl
  | term e => exact hstill (.bind .session fun _ => .bind (.ofExcept _ _) fun _ => .pure _) rfl
  | formula e => exact hstill (.bind .session fun _ => .bind (.ofExcept _ _) fun _ => .pure _) rfl
  | relationSymbol n =>
    refine hstill (.bind (.bind .session fun s => ?_) fun _ => .pure _) rfl
    split
    · exact .pure _
    · exact .fail _
  | constants => exact hstill (.bind .session fun _ => .pure _) rfl
  | free => exact hstill (.bind .session fun _ => .pure _) rfl
  | functions => exact hstill (.bind .session fun _ => .pure _) rfl
  | termSort sp => exact hstill (.bind (.ofExcept _ _) fun _ => .pure _) rfl

/-- **What a command does**: it prepares and may then hand one term to the engine. -/
theorem perform_moves (x : Command) (E : Engine) (s : Session) :
    Moves E s (callsOf (perform x E s)) (perform x E s).session := by
  have hend := perform_ends x E s
  unfold callsOf
  generalize (perform x E s).calls = ks at hend ⊢
  generalize (perform x E s).session = s' at hend ⊢
  cases hend with
  | declare n sp => exact .prepared (declare_ends n sp E s).preparing
  | newVariable n sp => exact .prepared (declare_ends n sp E s).preparing
  | register e => exact .prepared (register_ends e E s).preparing
  | errorRelation => exact .prepared (errorRelation_ends E s).preparing
  | addRule e l => exact (addRule_ends e l E s).moves
  | query e => exact (query_ends e E s).moves
  | looked hx => exact .prepared .still

end Session

end Horn

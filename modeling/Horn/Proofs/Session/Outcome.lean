import Horn.Proofs.Names
import Horn.Proofs.Table
import Horn.Session.Run

/-!
What the steps of a session leave behind, one statement for each step: every way in which it can end,
with its result, the next state, the calls it made and what it logged.
-/

namespace Horn

/-! ### Actions -/

namespace Action

variable {α β : Type} {E : Engine} {s s' : Session}

lemma pure_apply (a : α) : (Pure.pure a : Action α) E s = ⟨.ok a, s, [], []⟩ := rfl

lemma bind_ok {x : Action α} {f : α → Action β} {a : α} {ks : List (Phase × EngineCall)}
    {l : List Event} (h : x E s = ⟨.ok a, s', ks, l⟩) :
    (x >>= f) E s = ⟨(f a E s').result, (f a E s').session, ks ++ (f a E s').calls,
      l ++ (f a E s').log⟩ := by
  change Action.bind x f E s = _
  unfold Action.bind
  rw [h]

lemma bind_error {x : Action α} {f : α → Action β} {e : SessionError}
    {ks : List (Phase × EngineCall)} {l : List Event} (h : x E s = ⟨.error e, s', ks, l⟩) :
    (x >>= f) E s = ⟨.error e, s', ks, l⟩ := by
  change Action.bind x f E s = _
  unfold Action.bind
  rw [h]

lemma session_bind (f : Session → Action β) : (Action.session >>= f) E s = f s E s := rfl

lemma log_bind (ev : Event) (f : Unit → Action β) :
    (log ev >>= f) E s = { f () E s with log := ev :: (f () E s).log } := rfl

lemma ofExcept_ok_bind {ε : Type} {g : ε → SessionError} {a : α} (f : α → Action β) :
    (ofExcept g (.ok a) >>= f) E s = f a E s := rfl

lemma ofExcept_error_bind {ε : Type} {g : ε → SessionError} {e : ε} (f : α → Action β) :
    (ofExcept g (.error e) >>= f) E s = ⟨.error (g e), s, [], []⟩ := rfl

end Action

def Failure.error : Failure → SessionError
  | .engine c => .engine c.message false
  | .foreign => .unhandled .foreign

namespace Action

variable {α β : Type} {E : Engine} {s : Session} {call : EngineCall} (reply : Engine → Reply α)

lemma demand_ok {a : α} (h : reply E = .ok a) :
    demand call reply E s = ⟨.ok a, s, [(s.phase, call)], []⟩ := by
  unfold demand
  rw [bind_ok (show ask call reply E s = ⟨.ok (reply E), s, [(s.phase, call)], []⟩ from rfl), h]
  rfl

lemma demand_error {f : Failure} (h : reply E = .error f) :
    demand call reply E s = ⟨.error f.error, s, [(s.phase, call)], []⟩ := by
  unfold demand
  rw [bind_ok (show ask call reply E s = ⟨.ok (reply E), s, [(s.phase, call)], []⟩ from rfl), h]
  cases f <;> rfl

end Action

namespace Session

/-! ### Declarations and registrations -/

inductive DeclareEnd (n : String) (sp : SortSpec) (s : Session) : Outcome Unit → Prop where
  | failed {e : DeclareError} (hd : s.symbols.declare n sp = .error e) :
    DeclareEnd n sp s ⟨.error (.declare e), s, [], []⟩
  | again {d : Declaration} (hf : s.symbols.find? n = some d) (hs : d.spec.same sp = true) :
    DeclareEnd n sp s ⟨.ok (), s, [], []⟩
  | declared {f : Symbol} (hf : s.symbols.find? n = none) (hs : sp.toSymbol n = .ok f) :
    DeclareEnd n sp s ⟨.ok (), { s with symbols := s.symbols.add ⟨n, sp, f⟩ }, [],
      [.declared n sp]⟩

lemma declare_ends (n : String) (sp : SortSpec) (E : Engine) (s : Session) :
    DeclareEnd n sp s (declare n sp E s) := by
  unfold declare
  rw [Action.session_bind]
  rcases hd : s.symbols.declare n sp with e | Γ
  · rw [Action.ofExcept_error_bind]
    exact .failed hd
  · rw [Action.ofExcept_ok_bind]
    rcases Symbols.declare_eq_ok hd with ⟨-, d, hf, hs⟩ | ⟨hf, f, hs, rfl⟩
    · rw [hf]
      exact .again hf hs
    · rw [hf]
      exact .declared hf hs

inductive RegisterEnd (n : String) (E : Engine) (s : Session) : Outcome Unit → Prop where
  | again (hr : s.isRegistered n = true) :
    RegisterEnd n E s ⟨.ok (), s, [], [.alreadyRegistered n]⟩
  | missing (hr : s.isRegistered n = false)
    (hf : (s.symbols.functions.find? fun d => d.name == n) = none) :
    RegisterEnd n E s ⟨.error (.unknownRelation n), s, [], []⟩
  | notRelation {d : Declaration} (hr : s.isRegistered n = false)
    (hf : (s.symbols.functions.find? fun d => d.name == n) = some d)
    (hb : d.symbol.range ≠ .bool) :
    RegisterEnd n E s ⟨.error (.sort (.notRelation n d.symbol.range)), s, [], []⟩
  | refused {d : Declaration} {f : Failure} (hr : s.isRegistered n = false)
    (hf : (s.symbols.functions.find? fun d => d.name == n) = some d)
    (hb : d.symbol.range = .bool) (hE : E.register d.symbol = .error f) :
    RegisterEnd n E s ⟨.error f.error, s, [(s.phase, .register d.symbol)], []⟩
  | registered {d : Declaration} (hr : s.isRegistered n = false)
    (hf : (s.symbols.functions.find? fun d => d.name == n) = some d)
    (hb : d.symbol.range = .bool) (hE : E.register d.symbol = .ok ()) :
    RegisterEnd n E s ⟨.ok (), { s with relations := s.relations ++ [d] },
      [(s.phase, .register d.symbol)], [.registered d.symbol]⟩

lemma register_ends (e : Expr) (E : Engine) (s : Session) :
    RegisterEnd e.name E s (register e E s) := by
  unfold register
  rw [Action.session_bind]
  rcases hr : s.isRegistered e.name with _ | _
  · rw [if_neg Bool.false_ne_true]
    rcases hf : (s.symbols.functions.find? fun d => d.name == e.name) with _ | d
    · rw [hf]
      exact .missing hr hf
    · rw [hf]
      dsimp only
      by_cases hb : d.symbol.range = .bool
      · rw [if_pos hb]
        rcases hE : E.register d.symbol with f | ⟨⟩
        · rw [Action.bind_error (Action.demand_error (fun E => E.register d.symbol) hE)]
          exact .refused hr hf hb hE
        · rw [Action.bind_ok (Action.demand_ok (fun E => E.register d.symbol) hE)]
          exact .registered hr hf hb hE
      · rw [if_neg hb]
        exact .notRelation hr hf hb
  · rw [if_pos rfl]
    exact .again hr

def errorSymbol : Symbol := ⟨errorName, [], .bool⟩

inductive ErrorEnd (E : Engine) (s : Session) : Outcome Expr → Prop where
  | known (hr : s.isRegistered errorName = true) : ErrorEnd E s ⟨.ok errorExpr, s, [], []⟩
  | undeclared {o : Outcome Unit} {x : SessionError} (hr : s.isRegistered errorName = false)
    (hd : DeclareEnd errorName errorSort s o) (ho : o.result = .error x) :
    ErrorEnd E s ⟨.error x, o.session, o.calls, o.log⟩
  | unregistered {o o' : Outcome Unit} {x : SessionError} (hr : s.isRegistered errorName = false)
    (hd : DeclareEnd errorName errorSort s o) (ho : o.result = .ok ())
    (hg : RegisterEnd errorName E o.session o') (ho' : o'.result = .error x) :
    ErrorEnd E s ⟨.error x, o'.session, o.calls ++ o'.calls, o.log ++ o'.log⟩
  | made {o o' : Outcome Unit} (hr : s.isRegistered errorName = false)
    (hd : DeclareEnd errorName errorSort s o) (ho : o.result = .ok ())
    (hg : RegisterEnd errorName E o.session o') (ho' : o'.result = .ok ()) :
    ErrorEnd E s ⟨.ok errorExpr, o'.session, o.calls ++ o'.calls, o.log ++ o'.log⟩

lemma errorRelation_ends (E : Engine) (s : Session) : ErrorEnd E s (errorRelation E s) := by
  unfold errorRelation
  rw [Action.session_bind]
  rcases hr : s.isRegistered errorName with _ | _
  · rw [if_neg Bool.false_ne_true]
    have hd := declare_ends errorName errorSort E s
    rcases ho : declare errorName errorSort E s with ⟨x | ⟨⟩, s₁, ks, lg⟩
    · rw [ho] at hd
      rw [Action.bind_error ho]
      exact .undeclared hr hd rfl
    · rw [ho] at hd
      rw [Action.bind_ok ho]
      have hg : RegisterEnd errorName E s₁ (register (.symbol errorName errorSort) E s₁) :=
        register_ends (.symbol errorName errorSort) E s₁
      rcases ho' : register (.symbol errorName errorSort) E s₁ with ⟨x | ⟨⟩, s₂, ks', lg'⟩
      · rw [ho'] at hg
        rw [Action.bind_error ho']
        exact .unregistered hr hd rfl hg rfl
      · rw [ho'] at hg
        rw [Action.bind_ok ho', Action.pure_apply, List.append_nil, List.append_nil]
        exact .made hr hd rfl hg rfl
  · rw [if_pos rfl]
    exact .known hr

end Session

/-! ### Rules -/

namespace Expr

def ruleHead : Expr → Expr
  | .node "=>" [_, h] _ => h
  | e => e

def putHead : Expr → Expr → Expr
  | .node "=>" [b, _] _, h => implies b h
  | _, h => h

def isBareFalse (e : Expr) : Bool := e.name = "false" && e.args.isEmpty

/-- The rule as it is translated: with the error relation in place of a bare `false` as its head. -/
def ruleForm (e : Expr) : Expr :=
  e.putHead (if e.ruleHead.isBareFalse then Session.errorExpr else e.ruleHead)

/-- A rule is an implication or nothing but a head. -/
lemma rule_cases (e : Expr) :
    (∃ b h s, e = .node "=>" [b, h] s) ∨
      ((∀ b h s, e ≠ .node "=>" [b, h] s) ∧ e.ruleHead = e ∧ (∀ h, e.putHead h = h) ∧
        Session.withHead e = Session.head e) := by
  by_cases hi : ∃ b h s, e = .node "=>" [b, h] s
  · exact .inl hi
  · have hne : ∀ b h s, e ≠ .node "=>" [b, h] s := fun b h s he => hi ⟨b, h, s, he⟩
    refine .inr ⟨hne, ?_, ?_, ?_⟩
    · unfold ruleHead
      split
      · exact absurd rfl (hne _ _ _)
      · rfl
    · intro h
      unfold putHead
      split
      · exact absurd rfl (hne _ _ _)
      · rfl
    · unfold Session.withHead
      split
      · exact absurd rfl (hne _ _ _)
      · rfl

end Expr

namespace Session

inductive HeadEnd (e : Expr) (E : Engine) (s : Session) : Outcome Expr → Prop where
  | error (hf : e.isBareFalse = true) : HeadEnd e E s (errorRelation E s)
  | registered (hf : e.isBareFalse = false) (hr : s.isRegistered e.name = true) :
    HeadEnd e E s ⟨.ok e, s, [], []⟩
  | notHead (hf : e.isBareFalse = false) (hr : s.isRegistered e.name = false) :
    HeadEnd e E s ⟨.error (.term (.notHead e)), s, [], []⟩

lemma head_ends (e : Expr) (E : Engine) (s : Session) : HeadEnd e E s (head e E s) := by
  unfold head
  rw [Action.session_bind]
  rcases hf : e.isBareFalse with _ | _
  · rw [if_neg (by rw [← Expr.isBareFalse, hf]; exact Bool.false_ne_true)]
    rcases hr : s.isRegistered e.name with _ | _
    · exact .notHead hf hr
    · exact .registered hf hr
  · rw [if_pos (by rw [← Expr.isBareFalse, hf])]
    exact .error hf

/-- **A rule ends up with its head**, or fails as that fails. -/
lemma withHead_eq (e : Expr) (E : Engine) (s : Session) :
    withHead e E s = ⟨(head e.ruleHead E s).result.map e.putHead, (head e.ruleHead E s).session,
      (head e.ruleHead E s).calls, (head e.ruleHead E s).log⟩ := by
  rcases e.rule_cases with ⟨b, h, s', rfl⟩ | ⟨-, hh, hp, hw⟩
  · change ((head h >>= fun h => Pure.pure (Expr.implies b h)) : Action Expr) E s =
      ⟨(head h E s).result.map (Expr.implies b), (head h E s).session, (head h E s).calls,
        (head h E s).log⟩
    rcases ho : head h E s with ⟨r, s₁, ks, lg⟩
    rcases r with x | h'
    · rw [Action.bind_error ho]
      rfl
    · rw [Action.bind_ok ho]
      simp only [Action.pure_apply, List.append_nil, Except.map]
  · have hmap : ∀ r : Except SessionError Expr, r.map e.putHead = r := by
      intro r
      rcases r with x | h
      · rfl
      · rw [Except.map, hp]
    rw [hw, hh, hmap]

/-- How adding a rule ends, where `o` is what finding the rule with its head leaves behind. -/
inductive RuleEnd (e : Expr) (l : String) (E : Engine) (s : Session) (o : Outcome Expr) :
    Outcome Unit → Prop where
  | unknown {n : String} (hn : Expr.searchName s.isUnregistered [e] = some n) :
    RuleEnd e l E s o ⟨.error (.unknownRelation n), s, [], []⟩
  | noHead {x : SessionError} (hn : Expr.searchName s.isUnregistered [e] = none)
    (ho : o.result = .error x) : RuleEnd e l E s o ⟨.error x, o.session, o.calls, o.log⟩
  | noTerm {e' : Expr} {x : TermError} (hn : Expr.searchName s.isUnregistered [e] = none)
    (ho : o.result = .ok e') (ht : e'.toFormula o.session.symbols = .error x) :
    RuleEnd e l E s o ⟨.error (.term x), o.session, o.calls, o.log⟩
  | refused {e' : Expr} {t u : Term} {f : Failure}
    (hn : Expr.searchName s.isUnregistered [e] = none) (ho : o.result = .ok e')
    (ht : e'.toFormula o.session.symbols = .ok t) (hu : u = t.close .all o.session.symbols.free)
    (hE : E.addRule u l = .error f) :
    RuleEnd e l E s o
      ⟨.error f.error, o.session, o.calls ++ [(o.session.phase, .addRule u l)], o.log⟩
  | added {e' : Expr} {t u : Term} (hn : Expr.searchName s.isUnregistered [e] = none)
    (ho : o.result = .ok e') (ht : e'.toFormula o.session.symbols = .ok t)
    (hu : u = t.close .all o.session.symbols.free) (hE : E.addRule u l = .ok ()) :
    RuleEnd e l E s o
      ⟨.ok (), { o.session with rules := o.session.rules ++ [(l, u)] },
        o.calls ++ [(o.session.phase, .addRule u l)], o.log ++ [.ruleAdded l u]⟩

/-- The check of relations ends as the search for a name does, and leaves everything as it is. -/
lemma checkRelations_eq (e : Expr) (E : Engine) (s : Session) :
    checkRelations e E s =
      match Expr.searchName s.isUnregistered [e] with
      | some n => ⟨.error (.unknownRelation n), s, [], []⟩
      | none => ⟨.ok (), s, [], []⟩ := by
  unfold checkRelations
  rw [Action.session_bind]
  rcases Expr.searchName s.isUnregistered [e] with _ | n
  · rfl
  · rfl

lemma checkRelations_bind {α : Type} (e : Expr) (f : Unit → Action α) (E : Engine) (s : Session) :
    (checkRelations e >>= f) E s =
      match Expr.searchName s.isUnregistered [e] with
      | some n => ⟨.error (.unknownRelation n), s, [], []⟩
      | none => f () E s := by
  have hc := checkRelations_eq e E s
  rcases hn : Expr.searchName s.isUnregistered [e] with _ | n
  · rw [hn] at hc
    rw [Action.bind_ok hc]
    rfl
  · rw [hn] at hc
    rw [Action.bind_error hc]

lemma addRule_ends (e : Expr) (l : String) (E : Engine) (s : Session) :
    RuleEnd e l E s (withHead e E s) (addRule e l E s) := by
  unfold addRule
  rw [checkRelations_bind]
  rcases hn : Expr.searchName s.isUnregistered [e] with _ | n
  · dsimp only
    rcases ho : withHead e E s with ⟨r, s₁, ks, lg⟩
    rcases r with x | e'
    · rw [Action.bind_error ho]
      exact .noHead hn rfl
    · rw [Action.bind_ok ho, Action.session_bind]
      rcases ht : e'.toFormula s₁.symbols with x | t
      · rw [Action.ofExcept_error_bind, List.append_nil, List.append_nil]
        exact .noTerm hn rfl ht
      · rw [Action.ofExcept_ok_bind]
        rcases hE : E.addRule (t.close .all s₁.symbols.free) l with f | ⟨⟩
        · rw [Action.bind_error (Action.demand_error (fun E => E.addRule _ l) hE),
            List.append_nil]
          exact .refused hn rfl ht rfl hE
        · rw [Action.bind_ok (Action.demand_ok (fun E => E.addRule _ l) hE)]
          exact .added hn rfl ht rfl hE
  · exact .unknown hn

end Session

end Horn

import Mathlib.Data.List.Forall2
import Horn.Proofs.Equality
import Horn.Proofs.Session.Journal

/-!
Commands on equal expressions. The session looks at names and arguments only: what it hands on, keeps and
logs has no annotation in it. Main statement: with one of two equal expressions for the other a command
ends the same, with one result or with one error in the same words, and so does a whole run.
-/

namespace Horn

def SessionError.bare : SessionError → SessionError
  | .term x => .term x.bare
  | x => x

/-- **One error**: the same up to annotations, and in the same words. -/
structure SessionError.Alike (x y : SessionError) : Prop where
  bare_eq : x.bare = y.bare
  message?_eq : x.message? = y.message?

lemma SessionError.alike_of_bare_eq {x y : TermError} (h : x.bare = y.bare) :
    (SessionError.term x).Alike (.term y) where
  bare_eq := congrArg SessionError.term h
  message?_eq := by
    rw [message?, message?, ← x.message?_bare, h, y.message?_bare]

/-- **Outcomes alike**: both of results that are related, or both of one error; with the same next state,
the same calls of the engine and the same log. -/
inductive Outcome.Alike {α : Type} (R : α → α → Prop) : Outcome α → Outcome α → Prop where
  | ok {a b : α} {s : Session} {ks : List (Phase × EngineCall)} {l : List Event} (h : R a b) :
    Alike R ⟨.ok a, s, ks, l⟩ ⟨.ok b, s, ks, l⟩
  | error {x y : SessionError} {s : Session} {ks : List (Phase × EngineCall)} {l : List Event}
    (h : x.Alike y) : Alike R ⟨.error x, s, ks, l⟩ ⟨.error y, s, ks, l⟩

section

variable {α : Type} {R : α → α → Prop} {o p : Outcome α}

lemma Outcome.Alike.session_eq (h : o.Alike R p) : o.session = p.session := by
  cases h <;> rfl

/-- Outcomes stay alike behind the same calls and log. -/
lemma Outcome.Alike.behind (h : o.Alike R p) (ks : List (Phase × EngineCall)) (l : List Event) :
    Outcome.Alike R ⟨o.result, o.session, ks ++ o.calls, l ++ o.log⟩
      ⟨p.result, p.session, ks ++ p.calls, l ++ p.log⟩ := by
  cases h with
  | ok h => exact .ok h
  | error h => exact .error h

end

namespace Action

variable {α β : Type} {R : α → α → Prop} {Q : β → β → Prop}

def Alike (R : α → α → Prop) (x y : Action α) : Prop := ∀ E s, (x E s).Alike R (y E s)

lemma Alike.refl (hR : ∀ a, R a a) (x : Action α) : Alike R x x := by
  intro E s
  rcases x E s with ⟨e | a, s', ks, l⟩
  · exact .error ⟨rfl, rfl⟩
  · exact .ok (hR a)

lemma Alike.pure {a b : α} (h : R a b) : Alike R (Pure.pure a) (Pure.pure b) := fun _ _ => .ok h

lemma Alike.fail {x y : SessionError} (h : x.Alike y) : Alike R (Action.fail x) (Action.fail y) :=
  fun _ _ => .error h

lemma Alike.bind {x y : Action α} {f g : α → Action β} (hx : Alike R x y)
    (hf : ∀ a b, R a b → Alike Q (f a) (g b)) : Alike Q (x >>= f) (y >>= g) := by
  intro E s
  have h := hx E s
  generalize ho : x E s = o at h
  generalize hp : y E s = p at h
  cases h with
  | @ok a b s' ks l hab =>
    rw [bind_ok ho, bind_ok hp]
    exact (hf a b hab E s').behind ks l
  | error hxy =>
    rw [bind_error ho, bind_error hp]
    exact .error hxy

/-- After one action, what goes on alike with each of its values ends alike. -/
lemma Alike.after (x : Action α) {f g : α → Action β} (h : ∀ a, Alike Q (f a) (g a)) :
    Alike Q (x >>= f) (x >>= g) := by
  refine .bind (.refl (fun _ => rfl) x) fun a b hab => ?_
  subst hab
  exact h a

/-- A translation that comes to the same up to annotations brings the same term or error. -/
lemma Alike.ofExcept {r r' : Except TermError α}
    (h : r.mapError TermError.bare = r'.mapError TermError.bare) :
    Alike Eq (Action.ofExcept SessionError.term r) (Action.ofExcept SessionError.term r') := by
  rcases r with x | a
  · rcases r' with y | b
    · exact .fail (SessionError.alike_of_bare_eq (Except.error.inj h))
    · cases h
  · rcases r' with y | b
    · cases h
    · exact .pure (Except.ok.inj h)

end Action

/-- What differs from an implication in annotations at most is an implication. -/
lemma Expr.exists_implies {b p c : Expr} {s : SortSpec} (h : (node "=>" [p, c] s).bare = b.bare) :
    ∃ p' c' s', b = .node "=>" [p', c'] s' ∧ p.bare = p'.bare ∧ c.bare = c'.bare := by
  obtain ⟨n, bs, t⟩ := b
  simp only [bare, node.injEq] at h
  obtain ⟨rfl, hbs, -⟩ := h
  rcases bs with _ | ⟨p', _ | ⟨c', _ | ⟨d, bs⟩⟩⟩ <;> simp [bareAll] at hbs
  exact ⟨p', c', t, rfl, hbs⟩

/-- **Commands on equal expressions**, and commands that are the same. -/
inductive Command.Alike : Command → Command → Prop where
  | refl (x : Command) : Alike x x
  | register {a b : Expr} (h : a.same b = true) : Alike (.register a) (.register b)
  | addRule {a b : Expr} (l : String) (h : a.same b = true) : Alike (.addRule a l) (.addRule b l)
  | query {a b : Expr} (h : a.same b = true) : Alike (.query a) (.query b)
  | term {a b : Expr} (h : a.same b = true) : Alike (.term a) (.term b)
  | formula {a b : Expr} (h : a.same b = true) : Alike (.formula a) (.formula b)

namespace Session

/-! ### Commands -/

section

variable {a b : Expr} (h : a.bare = b.bare)
include h

lemma register_eq : register a = register b := by
  unfold register
  rw [Expr.name_eq_of_bare_eq h]

lemma checkRelations_eq_of_bare_eq : checkRelations a = checkRelations b := by
  have hnames : a.names = b.names := by rw [← a.names_bare, h, b.names_bare]
  have hsearch : ∀ p, Expr.searchName p [a] = Expr.searchName p [b] := by
    intro p
    simp only [Expr.searchName_eq_find?, List.flatMap_singleton, hnames]
  unfold checkRelations
  simp only [hsearch]

lemma head_alike : Action.Alike (fun x y => x.bare = y.bare) (head a) (head b) := by
  have hargs : a.args.isEmpty = b.args.isEmpty := by
    rw [← a.isEmpty_args_bare, h, b.isEmpty_args_bare]
  unfold head
  refine .after _ fun s => ?_
  rw [Expr.name_eq_of_bare_eq h, hargs]
  split
  · exact .refl (fun _ => by rfl) _
  · split
    · exact .pure h
    · exact .fail (SessionError.alike_of_bare_eq (congrArg TermError.notHead h))

lemma withHead_alike : Action.Alike (fun x y => x.bare = y.bare) (withHead a) (withHead b) := by
  rcases a.rule_cases with ⟨p, c, s, rfl⟩ | ⟨hne, -, -, hw⟩
  · obtain ⟨p', c', s', rfl, hp, hc⟩ := Expr.exists_implies h
    refine .bind (head_alike hc) fun x y hxy => .pure ?_
    simp only [Expr.implies, Expr.apply, Expr.bare, Expr.bareAll, hp, hxy]
  · rcases b.rule_cases with ⟨p', c', s', rfl⟩ | ⟨-, -, -, hw'⟩
    · obtain ⟨p, c, s, rfl, -⟩ := Expr.exists_implies h.symm
      exact absurd rfl (hne p c s)
    · rw [hw, hw']
      exact head_alike h

lemma addRule_alike (l : String) : Action.Alike Eq (addRule a l) (addRule b l) := by
  unfold addRule
  rw [checkRelations_eq_of_bare_eq h]
  refine .after _ fun _ => .bind (withHead_alike h) fun x y hxy => .after _ fun s => ?_
  refine .bind (.ofExcept (Expr.toFormula_eq_of_bare_eq hxy)) fun t u htu => ?_
  subst htu
  exact .refl (fun _ => rfl) _

lemma query_alike : Action.Alike Eq (query a) (query b) := by
  unfold query
  rw [checkRelations_eq_of_bare_eq h]
  refine .after _ fun _ => .after _ fun s => ?_
  refine .bind (.ofExcept (Expr.toFormula_eq_of_bare_eq h)) fun t u htu => ?_
  subst htu
  exact .refl (fun _ => rfl) _

end

/-- **With equal expressions a command ends the same.** -/
lemma perform_alike {x y : Command} (h : x.Alike y) : Action.Alike Eq (perform x) (perform y) := by
  cases h with
  | refl x => exact .refl (fun _ => rfl) _
  | register h =>
    dsimp only [perform]
    rw [register_eq (Expr.bare_eq_of_same h)]
    exact .refl (fun _ => rfl) _
  | addRule l h =>
    dsimp only [perform]
    refine .bind (addRule_alike (Expr.bare_eq_of_same h) l) fun _ _ _ => ?_
    exact .refl (fun _ => rfl) _
  | query h =>
    dsimp only [perform]
    refine .bind (query_alike (Expr.bare_eq_of_same h)) fun r q hrq => .pure (congrArg _ hrq)
  | term h =>
    dsimp only [perform]
    refine .after _ fun s => .bind (.ofExcept ?_) fun t u htu => .pure (congrArg _ htu)
    exact Expr.toTerm_eq_of_bare_eq (Expr.bare_eq_of_same h)
  | formula h =>
    dsimp only [perform]
    refine .after _ fun s => .bind (.ofExcept ?_) fun t u htu => .pure (congrArg _ htu)
    exact Expr.toFormula_eq_of_bare_eq (Expr.bare_eq_of_same h)

/-! ### Runs -/

def outcomes (s : Session) : List (Engine × Command) → List (Outcome Response)
  | [] => []
  | (E, x) :: cs => perform x E s :: outcomes (perform x E s).session cs

/-- **With equal expressions a run comes to the same**, command by command and in the end. -/
theorem run_alike {cs ds : List (Engine × Command)}
    (h : List.Forall₂ (fun c d => c.1 = d.1 ∧ c.2.Alike d.2) cs ds) (s : Session) :
    List.Forall₂ (Outcome.Alike Eq) (outcomes s cs) (outcomes s ds) ∧ run s cs = run s ds := by
  induction h generalizing s with
  | nil => exact ⟨.nil, rfl⟩
  | @cons c d cs ds hcd _ ih =>
    obtain ⟨E, x⟩ := c
    obtain ⟨_, y⟩ := d
    obtain ⟨rfl, hxy⟩ := hcd
    have hends := perform_alike hxy E s
    obtain ⟨houtcomes, hrun⟩ := ih (perform y E s).session
    refine ⟨.cons hends ?_, ?_⟩
    · rw [hends.session_eq]
      exact houtcomes
    · change run (perform x E s).session cs = run (perform y E s).session ds
      rw [hends.session_eq]
      exact hrun

/-- **Equality of expressions is an equivalence and a congruence.** It is reflexive, symmetric and
transitive where annotations are sorts. And whatever the annotations are, with one of two equal expressions
for the other the session translates, registers, adds a rule under a label and queries alike, in any state
and with any engine: with the same result, or the same error in the same words, and with the same state,
calls and log afterwards. -/
theorem same_congruence :
    (Equivalence fun a b : {e : Expr // e.IsPlain} => a.1.same b.1 = true) ∧
    ∀ a b : Expr, a.same b = true → ∀ (E : Engine) (s : Session),
      (perform (.term a) E s).Alike Eq (perform (.term b) E s) ∧
      (perform (.register a) E s).Alike Eq (perform (.register b) E s) ∧
      (∀ l, (perform (.addRule a l) E s).Alike Eq (perform (.addRule b l) E s)) ∧
      (perform (.query a) E s).Alike Eq (perform (.query b) E s) := by
  refine ⟨Expr.same_equivalence, fun a b h E s => ⟨?_, ?_, fun l => ?_, ?_⟩⟩
  · exact perform_alike (.term h) E s
  · exact perform_alike (.register h) E s
  · exact perform_alike (.addRule l h) E s
  · exact perform_alike (.query h) E s

/-- Two expressions with a number and a truth value for a sort are equal. As rules without a relation they
are refused alike, although the errors tell of different expressions; as goals they are answered alike. -/
theorem same_congruence_junk :
    let a : Expr := .node "r" [.symbol "x" (.junk (.int 1))] .bool
    let b : Expr := .node "r" [.symbol "x" (.junk (.bool true))] .bool
    let s := run (new .default) [(obliging, .declare "r" (.function [.int] .bool)),
      (obliging, .declare "x" .int), (obliging, .register (.symbol "r" .absent))]
    a.same b = true ∧ a ≠ b ∧
    (perform (.addRule a "l") obliging (new .default)).result = .error (.term (.notHead a)) ∧
    (perform (.addRule a "l") obliging (new .default)).Alike Eq
      (perform (.addRule b "l") obliging (new .default)) ∧
    (perform (.query a) obliging s).result = .ok (.query ⟨.unknown, [], "unknown"⟩) ∧
    (perform (.query a) obliging s).Alike Eq (perform (.query b) obliging s) := by
  intro a b s
  have hsame : a.same b = true := by with_unfolding_all rfl
  refine ⟨hsame, by simp [a, b, Expr.symbol], by with_unfolding_all rfl, ?_,
    by with_unfolding_all rfl, ?_⟩
  · exact (same_congruence.2 a b hsame obliging (new .default)).2.2.1 "l"
  · exact (same_congruence.2 a b hsame obliging s).2.2.2

end Session

end Horn

import Horn.Proofs.Session.Frame

/-!
Runs of a session with and without some of their queries. No action looks at the reason that a query
leaves. Main statement: whatever the engines say or do in the queries, all other commands bring, ask and
log the same without them, and the session ends with the same names, relations and rules.
-/

namespace Horn

def Session.withReason (s : Session) (r : String) : Session := { s with reason := r }

/-- What an action brings, asks of its engine and logs. -/
structure Report (α : Type) where
  result : Except SessionError α
  calls : List (Phase × EngineCall)
  log : List Event

namespace Outcome

variable {α : Type}

def report (o : Outcome α) : Report α := ⟨o.result, o.calls, o.log⟩

def withReason (o : Outcome α) (r : String) : Outcome α :=
  { o with session := o.session.withReason r }

end Outcome

namespace Action

variable {α β : Type} {x : Action α}

/-- The action does not look at the reason of the session: with another one it brings, asks and logs the
same, and leaves a state that differs in the reason at most. -/
def Blind (x : Action α) : Prop :=
  ∀ E s r, ∃ r', x E (s.withReason r) = (x E s).withReason r'

lemma Blind.pure (a : α) : Blind (Pure.pure a : Action α) := fun _ _ r => ⟨r, rfl⟩

lemma Blind.fail (e : SessionError) : Blind (Action.fail e : Action α) := fun _ _ r => ⟨r, rfl⟩

lemma Blind.log (ev : Event) : Blind (Action.log ev) := fun _ _ r => ⟨r, rfl⟩

lemma Blind.ask (call : EngineCall) (reply : Engine → Reply α) : Blind (Action.ask call reply) :=
  fun _ _ r => ⟨r, rfl⟩

lemma Blind.ofExcept {ε : Type} (g : ε → SessionError) (v : Except ε α) : Blind (ofExcept g v) := by
  cases v with
  | error e => exact .fail _
  | ok a => exact .pure a

lemma Blind.change {f : Session → Session} (hf : ∀ s r, f (s.withReason r) = (f s).withReason r) :
    Blind (change f) := by
  intro E s r
  refine ⟨r, ?_⟩
  unfold Action.change
  rw [hf]
  rfl

lemma Blind.bind {f : α → Action β} (hx : Blind x) (hf : ∀ a, Blind (f a)) : Blind (x >>= f) := by
  intro E s r
  obtain ⟨r', hr⟩ := hx E s r
  rcases ho : x E s with ⟨e | a, s', ks, l⟩
  · rw [ho] at hr
    rw [bind_error ho, bind_error hr]
    exact ⟨r', rfl⟩
  · rw [ho] at hr
    obtain ⟨r'', hr'⟩ := hf a E s' r'
    rw [bind_ok ho, bind_ok hr]
    change ∃ r, (⟨(f a E (s'.withReason r')).result, _, _, _⟩ : Outcome β) = _
    rw [hr']
    exact ⟨r'', rfl⟩

/-- What reads the state is blind if it goes on the same whatever the reason is. -/
lemma Blind.read {f : Session → Action β} (hr : ∀ s r, f (s.withReason r) = f s)
    (hf : ∀ s, Blind (f s)) : Blind (session >>= f) := by
  intro E s r
  rw [session_bind, session_bind, hr]
  exact hf s E s r

lemma Blind.demand (call : EngineCall) (reply : Engine → Reply α) : Blind (demand call reply) := by
  refine .bind (.ask call reply) fun v => ?_
  rcases v with (c | _) | a
  · exact .fail _
  · exact .fail _
  · exact .pure a

/-- A query starts without a reason. -/
lemma Blind.querying : Blind (querying x) := fun _ _ _ => ⟨_, rfl⟩

lemma Blind.report (h : Blind x) (E : Engine) (s : Session) (r : String) :
    (x E (s.withReason r)).report = (x E s).report := by
  obtain ⟨r', hr⟩ := h E s r
  rw [hr]
  rfl

end Action

def Command.isQuery : Command → Bool
  | .query _ => true
  | _ => false

namespace Session

open Horn.Action (Blind)

/-! ### Commands -/

lemma declare_blind (n : String) (sp : SortSpec) : Blind (declare n sp) := by
  refine .read (fun _ _ => rfl) fun s => .bind (.ofExcept _ _) fun Γ => ?_
  split
  · exact .bind (.change fun _ _ => rfl) fun _ => .log _
  · exact .pure _

lemma newVariable_blind (n : String) (sp : SortSpec) : Blind (newVariable n sp) :=
  .bind (declare_blind n sp) fun _ => .pure _

lemma register_blind (e : Expr) : Blind (register e) := by
  refine .read (fun _ _ => rfl) fun s => ?_
  split
  · exact .log _
  · split
    · exact .fail _
    · split
      · exact .bind (.demand _ _) fun _ => .bind (.change fun _ _ => rfl) fun _ => .log _
      · exact .fail _

lemma errorRelation_blind : Blind errorRelation := by
  refine .read (fun _ _ => rfl) fun s => ?_
  split
  · exact .pure _
  · exact .bind (declare_blind _ _) fun _ => .bind (register_blind _) fun _ => .pure _

lemma checkRelations_blind (e : Expr) : Blind (checkRelations e) := by
  refine .read (fun _ _ => rfl) fun s => ?_
  split
  · exact .fail _
  · exact .pure _

lemma head_blind (e : Expr) : Blind (head e) := by
  refine .read (fun _ _ => rfl) fun s => ?_
  split
  · exact errorRelation_blind
  · split
    · exact .pure _
    · exact .fail _

lemma withHead_blind (e : Expr) : Blind (withHead e) := by
  rcases e.rule_cases with ⟨b, h, sp, rfl⟩ | ⟨-, -, -, hw⟩
  · exact .bind (head_blind h) fun _ => .pure _
  · rw [hw]
    exact head_blind e

lemma addRule_blind (e : Expr) (l : String) : Blind (addRule e l) :=
  .bind (checkRelations_blind e) fun _ => .bind (withHead_blind e) fun _ =>
    .read (fun _ _ => rfl) fun _ => .bind (.ofExcept _ _) fun _ => .bind (.demand _ _) fun _ =>
      .bind (.change fun _ _ => rfl) fun _ => .log _

lemma query_blind (e : Expr) : Blind (query e) :=
  .bind (checkRelations_blind e) fun _ => .read (fun _ _ => rfl) fun _ =>
    .bind (.ofExcept _ _) fun _ => .bind .querying fun _ => .bind (.log _) fun _ => .pure _

lemma relationSymbol_blind (n : String) : Blind (relationSymbol n) := by
  refine .read (fun _ _ => rfl) fun s => ?_
  split
  · exact .pure _
  · exact .fail _

/-- **No command looks at the reason.** -/
theorem perform_blind (x : Command) : Blind (perform x) := by
  cases x with
  | declare n sp => exact .bind (declare_blind n sp) fun _ => .pure _
  | newVariable n sp => exact .bind (newVariable_blind n sp) fun _ => .pure _
  | register e => exact .bind (register_blind e) fun _ => .pure _
  | errorRelation => exact .bind errorRelation_blind fun _ => .pure _
  | addRule e l =>
    exact .bind (addRule_blind e l) fun _ => .read (fun _ _ => rfl) fun _ => .pure _
  | query e => exact .bind (query_blind e) fun _ => .pure _
  | rules => exact .read (fun _ _ => rfl) fun _ => .pure _
  | term e => exact .read (fun _ _ => rfl) fun _ => .bind (.ofExcept _ _) fun _ => .pure _
  | formula e => exact .read (fun _ _ => rfl) fun _ => .bind (.ofExcept _ _) fun _ => .pure _
  | relationSymbol n => exact .bind (relationSymbol_blind n) fun _ => .pure _
  | constants => exact .read (fun _ _ => rfl) fun _ => .pure _
  | free => exact .read (fun _ _ => rfl) fun _ => .pure _
  | functions => exact .read (fun _ _ => rfl) fun _ => .pure _
  | termSort sp => exact .bind (.ofExcept _ _) fun _ => .pure _

/-- A query changes nothing but the reason. -/
lemma query_session (e : Expr) (E : Engine) {s : Session} (hs : s.phase = .idle) :
    ∃ r, (query e E s).session = s.withReason r := by
  have hend := query_ends e E s
  generalize query e E s = o at hend
  have hsame : s = s.withReason s.reason := rfl
  cases hend with
  | unknown hn => exact ⟨_, hsame⟩
  | noTerm hn ht => exact ⟨_, hsame⟩
  | @asked t r reason ks lg hn ht ha =>
    refine ⟨reason, ?_⟩
    rw [withReason, ← hs]

/-! ### Runs -/

/-- The reports of the commands of a run, those of its queries left out. -/
def reports (s : Session) : List (Engine × Command) → List (Report Response)
  | [] => []
  | (E, x) :: cs =>
    (if x.isQuery then [] else [(perform x E s).report]) ++ reports (perform x E s).session cs

/-- The second list of commands is the first without some of its queries. -/
inductive WithoutQueries : List (Engine × Command) → List (Engine × Command) → Prop where
  | nil : WithoutQueries [] []
  | keep {cs ds : List (Engine × Command)} (x : Engine × Command) (h : WithoutQueries cs ds) :
    WithoutQueries (x :: cs) (x :: ds)
  | drop {cs ds : List (Engine × Command)} (E : Engine) (e : Expr) (h : WithoutQueries cs ds) :
    WithoutQueries ((E, .query e) :: cs) ds

/-- **A run without some of its queries**, and from a state with any reason: the other commands report
the same, and the state in the end differs in the reason at most. -/
lemma run_without_queries {cs ds : List (Engine × Command)} (h : WithoutQueries cs ds) {s : Session}
    (hs : s.phase = .idle) (r : String) :
    reports (s.withReason r) ds = reports s cs ∧
      ∃ r', run (s.withReason r) ds = (run s cs).withReason r' := by
  induction h generalizing s r with
  | nil => exact ⟨rfl, r, rfl⟩
  | @keep cs ds x h ih =>
    obtain ⟨E, x⟩ := x
    obtain ⟨r₁, hr⟩ := perform_blind x E s r
    obtain ⟨hreports, hrun⟩ := ih ((perform_moves x E s).frame hs).2 r₁
    refine ⟨?_, ?_⟩
    · rw [reports, reports, hr]
      exact congrArg₂ (· ++ ·) rfl hreports
    · change ∃ r', run (perform x E (s.withReason r)).session ds = _
      rw [hr]
      exact hrun
  | drop E e h ih =>
    obtain ⟨r₀, hr₀⟩ := query_session e E hs
    rw [← perform_query] at hr₀
    obtain ⟨hreports, hrun⟩ := ih ((perform_moves (.query e) E s).frame hs).2 r
    rw [hr₀] at hreports hrun
    refine ⟨hreports.trans ?_, ?_⟩
    · rw [reports, hr₀]
      rfl
    · change ∃ r', _ = (run (perform (.query e) E s).session _).withReason r'
      rw [hr₀]
      exact hrun

/-- **Queries are transparent.** However a run is cut by some of its queries, whatever their goals and
whatever the engines said or did in them, every other command brings the same result or error, asks the
same of its engine and logs the same; and the session has the same settings, names, relations and rules
in the end. A query that is put after the run hands the engine the same goal and brings the same result
either way, and so does the query when it is put a second time. -/
theorem queries_transparent (c : Config) {cs ds : List (Engine × Command)} (h : WithoutQueries cs ds) :
    let s := run (new c) cs
    let s' := run (new c) ds
    reports (new c) cs = reports (new c) ds ∧
    s.config = s'.config ∧ s.symbols = s'.symbols ∧ s.relations = s'.relations ∧ s.rules = s'.rules ∧
    ∀ e E, let o := query e E s
      (query e E s').report = o.report ∧ (query e E o.session).report = o.report := by
  intro s s'
  obtain ⟨hreports, r, hrun⟩ := run_without_queries h (s := new c) rfl ""
  have hs' : s' = s.withReason r := hrun
  refine ⟨hreports.symm, ?_, ?_, ?_, ?_, fun e E => ⟨?_, ?_⟩⟩
  · rw [hs']; rfl
  · rw [hs']; rfl
  · rw [hs']; rfl
  · rw [hs']; rfl
  · rw [hs']
    exact (query_blind e).report E s r
  · obtain ⟨r₀, hr₀⟩ := query_session e E (run_idle c cs)
    rw [hr₀]
    exact (query_blind e).report E s r₀

def brittle : Engine := { obliging with query := fun _ => .error .foreign }

/-- A query whose engine breaks down stands between two declarations of one name. -/
theorem queries_transparent_broken :
    let x : Engine × Command := (obliging, .declare "x" .int)
    let y : Engine × Command := (obliging, .declare "x" .bool)
    let q : Engine × Command := (brittle, .query (.ofBool true))
    WithoutQueries [x, q, y] [x, y] ∧
    (query (.ofBool true) brittle (run (new .default) [x])).result = .error (.unhandled .foreign) ∧
    reports (new .default) [x, q, y] = reports (new .default) [x, y] ∧
    (run (new .default) [x, q, y]).symbols = (run (new .default) [x, y]).symbols := by
  intro x y q
  have h : WithoutQueries [x, q, y] [x, y] := .keep x (.drop brittle _ (.keep y .nil))
  obtain ⟨hreports, -, hsymbols, -⟩ := queries_transparent .default h
  exact ⟨h, by with_unfolding_all rfl, hreports, hsymbols⟩

end Session

end Horn

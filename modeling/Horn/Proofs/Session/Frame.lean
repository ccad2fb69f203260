import Horn.Proofs.Session.Journal

/-!
What commands leave alone. Main statement: settings stay as they are, a session is idle between
commands, and no command but a query touches the reason.
-/

namespace Horn.Session

variable {E : Engine} {s s' : Session} {ks : List EngineCall}

lemma Preparing.frame (h : Preparing E s ks s') :
    s'.config = s.config ∧ s'.phase = s.phase ∧ s'.reason = s.reason := by
  induction h with
  | still => exact ⟨rfl, rfl, rfl⟩
  | declare _ _ _ ih => exact ih
  | refused _ _ _ _ _ ih => exact ih
  | registered _ _ _ _ _ ih => exact ih

lemma Handing.frame (h : Handing E s ks s') (hs : s.phase = .idle) :
    s'.config = s.config ∧ s'.phase = .idle := by
  cases h with
  | refused ha ht hu hE => exact ⟨rfl, hs⟩
  | added ha ht hu hE => exact ⟨rfl, hs⟩
  | asked ha ht hu hks => exact ⟨rfl, rfl⟩

/-- **A command keeps the settings**, and leaves an idle session idle. -/
lemma Moves.frame (h : Moves E s ks s') (hs : s.phase = .idle) :
    s'.config = s.config ∧ s'.phase = .idle := by
  cases h with
  | prepared h => exact ⟨h.frame.1, h.frame.2.1.trans hs⟩
  | handed h h' =>
    obtain ⟨hc, hp, -⟩ := h.frame
    obtain ⟨hc', hp'⟩ := h'.frame (hp.trans hs)
    exact ⟨hc'.trans hc, hp'⟩

lemma run_frame (cs : List (Engine × Command)) (hs : s.phase = .idle) :
    (run s cs).config = s.config ∧ (run s cs).phase = .idle := by
  induction cs generalizing s with
  | nil => exact ⟨rfl, hs⟩
  | cons x cs ih =>
    obtain ⟨hc, hp⟩ := (perform_moves x.2 x.1 s).frame hs
    obtain ⟨hc', hp'⟩ := ih hp
    exact ⟨hc'.trans hc, hp'⟩

lemma run_config (c : Config) (cs : List (Engine × Command)) : (run (new c) cs).config = c :=
  (run_frame cs rfl).1

/-- A session is idle whatever it has been told to do. -/
lemma run_idle (c : Config) (cs : List (Engine × Command)) : (run (new c) cs).phase = .idle :=
  (run_frame cs rfl).2

lemma RuleEnd.reason {e : Expr} {l : String} {o : Outcome Unit}
    (h : RuleEnd e l E s (withHead e E s) o) : o.session.reason = s.reason := by
  have hr := (withHead_preparing e E s).frame.2.2
  cases h with
  | unknown hn => rfl
  | noHead hn ho => exact hr
  | noTerm hn ho ht => exact hr
  | refused hn ho ht hu hE => exact hr
  | added hn ho ht hu hE => exact hr

/-- **Only queries touch the reason.** -/
lemma PerformEnd.reason {x : Command} {ks : List (Phase × EngineCall)}
    (h : PerformEnd E s x ks s') (hx : ∀ e, x ≠ .query e) : s'.reason = s.reason := by
  cases h with
  | declare n sp => exact ((declare_ends n sp E s).preparing (E := E)).frame.2.2
  | newVariable n sp => exact ((declare_ends n sp E s).preparing (E := E)).frame.2.2
  | register e => exact (register_ends e E s).preparing.frame.2.2
  | errorRelation => exact (errorRelation_ends E s).preparing.frame.2.2
  | addRule e l => exact (addRule_ends e l E s).reason
  | query e => exact absurd rfl (hx e)
  | looked _ => rfl

lemma perform_query (e : Expr) (E : Engine) (s : Session) :
    (perform (.query e) E s).session = (query e E s).session :=
  (Action.bind_still (fun _ => .pure _) E s).1

end Horn.Session

import Horn.Proofs.Shape
import Horn.Yaml.Cursor

/-!
Computations with a state of which something is preserved. Main definition: a computation that ends well
preserves a property of the state, and its result has another one.
-/

namespace Horn.Yaml

variable {σ α β : Type} {inv : σ → Prop} {q : α → Prop} {q' : β → Prop}
  {m : StateT σ (Except Fault) α} {f : α → StateT σ (Except Fault) β}

/-- The computation preserves a property of the state, and its result has a property. -/
def Preserves (inv : σ → Prop) (m : StateT σ (Except Fault) α) (q : α → Prop) : Prop :=
  ∀ s a s', inv s → m s = .ok (a, s') → inv s' ∧ q a

abbrev Keeps (inv : σ → Prop) (m : StateT σ (Except Fault) α) : Prop := Preserves inv m fun _ => True

lemma preserves_pure {a : α} (h : q a) : Preserves inv (pure a) q := by
  intro s a' s' hs heq
  cases heq
  exact ⟨hs, h⟩

lemma keeps_pure {a : α} : Keeps inv (pure a) := preserves_pure trivial

lemma preserves_throw {e : Fault} : Preserves inv (throw e) q := by
  intro s a s' hs heq
  cases heq

lemma preserves_bind (hm : Preserves inv m q) (hf : ∀ a, q a → Preserves inv (f a) q') :
    Preserves inv (m >>= f) q' := by
  intro s b s' hs heq
  obtain ⟨⟨a, s₁⟩, ha, heq⟩ := bind_eq_ok heq
  obtain ⟨hs₁, hq⟩ := hm s a s₁ hs ha
  exact hf a hq s₁ b s' hs₁ heq

lemma preserves_map {f : α → β} (hm : Preserves inv m q) (hf : ∀ a, q a → q' (f a)) :
    Preserves inv (f <$> m) q' :=
  preserves_bind hm fun a ha => preserves_pure (hf a ha)

lemma preserves_get : Preserves inv (get : StateT σ (Except Fault) σ) inv := by
  intro s a s' hs heq
  cases heq
  exact ⟨hs, hs⟩

lemma keeps_set {t : σ} (h : inv t) : Keeps inv (set t : StateT σ (Except Fault) PUnit) := by
  intro s a s' hs heq
  cases heq
  exact ⟨h, trivial⟩

lemma keeps_modify {g : σ → σ} (h : ∀ s, inv s → inv (g s)) :
    Keeps inv (modify g : StateT σ (Except Fault) PUnit) := by
  intro s a s' hs heq
  cases heq
  exact ⟨h s hs, trivial⟩

/-- A computation without a state leaves it as it is. -/
lemma preserves_lift {x : Except Fault α} (h : ∀ a, x = .ok a → q a) :
    Preserves inv (liftM x : StateT σ (Except Fault) α) q := by
  intro s a s' hs heq
  rcases x with e | b
  · cases heq
  · cases heq
    exact ⟨hs, h _ rfl⟩

/-! ### Lists -/

variable {γ : Type} {p : γ → Prop} {g : γ → StateT σ (Except Fault) α} {xs : List γ}

lemma preserves_mapM (hg : ∀ x, Preserves inv (g x) q) :
    Preserves inv (xs.mapM g) fun ys => ∀ y ∈ ys, q y := by
  induction xs with
  | nil => exact preserves_pure (by simp)
  | cons x xs ih =>
    rw [List.mapM_cons]
    refine preserves_bind (hg x) fun y hy => preserves_bind ih fun ys hys => preserves_pure ?_
    exact List.forall_mem_cons.mpr ⟨hy, hys⟩

lemma keeps_forM {g : γ → StateT σ (Except Fault) PUnit} (hg : ∀ x, Keeps inv (g x)) :
    Keeps inv (xs.forM g) := by
  induction xs with
  | nil => exact keeps_pure
  | cons x xs ih => exact preserves_bind (hg x) fun _ _ => ih

lemma preserves_foldlM {g : β → γ → StateT σ (Except Fault) β} {b : β} (hb : q' b)
    (hg : ∀ b x, q' b → Preserves inv (g b x) q') : Preserves inv (xs.foldlM g b) q' := by
  induction xs generalizing b with
  | nil => exact preserves_pure hb
  | cons x xs ih =>
    rw [List.foldlM_cons]
    exact preserves_bind (hg b x hb) fun b' hb' => ih hb'

end Horn.Yaml

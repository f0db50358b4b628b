import ChannelMachine.Proofs.Ensures

/-!
# One action on two states

`Mirrors R x y s t` says that an action on the state `s` and one on the state `t` cannot be told apart:
they give the same value or end in the same fault, and the states they leave behind are related by `R`.
Mostly the two are one action.  They are two where an action looks at the whole state first.
-/

namespace ChannelMachine

/-- The results are the same, and the states behind them are related. -/
def Mirrors {ε σ α : Type} (R : σ → σ → Prop) (x y : EStateM ε σ α) (s t : σ) : Prop :=
  match x s, y t with
  | .ok a s, .ok b t => a = b ∧ R s t
  | .error e s, .error e' t => e = e' ∧ R s t
  | _, _ => False

namespace Mirrors

variable {ε σ α β : Type} {R : σ → σ → Prop} {s t : σ}

theorem pure (a : α) (h : R s t) :
    Mirrors R (Pure.pure a : EStateM ε σ α) (Pure.pure a) s t := ⟨rfl, h⟩

theorem throw (e : ε) (h : R s t) :
    Mirrors R (MonadExcept.throw e : EStateM ε σ α) (MonadExcept.throw e) s t := ⟨rfl, h⟩

/-- Only what the actions do on the two states counts. -/
theorem congr {x x' y y' : EStateM ε σ α} {s' t' : σ} (h : Mirrors R x y s t) (hx : x' s' = x s)
    (hy : y' t' = y t) : Mirrors R x' y' s' t' := by
  unfold Mirrors
  rw [hx, hy]
  exact h

/-- What would follow a fault does not matter. -/
theorem throw_bind (e : ε) {f g : α → EStateM ε σ β} (h : R s t) :
    Mirrors R (MonadExcept.throw e >>= f) (MonadExcept.throw e >>= g) s t := ⟨rfl, h⟩

theorem modifyGet {f : σ → α × σ} (hvalue : (f s).1 = (f t).1) (h : R (f s).2 (f t).2) :
    Mirrors R (MonadState.modifyGet f : EStateM ε σ α) (MonadState.modifyGet f) s t := ⟨hvalue, h⟩

/-- Both go on with the state that they find. -/
theorem get {f g : σ → EStateM ε σ α} (h : Mirrors R (f s) (g t) s t) :
    Mirrors R (do f (← MonadState.get)) (do g (← MonadState.get)) s t := h

/-- An action follows, and what the first one ensures is known of its result. -/
theorem bind_ensures {x y : EStateM ε σ α} {f g : α → EStateM ε σ β} {good : α → σ → Prop}
    {bad : ε → σ → Prop} (hx : Mirrors R x y s t) (he : Ensures x s good bad)
    (h : ∀ a s' t', good a s' → R s' t' → Mirrors R (f a) (g a) s' t') :
    Mirrors R (x >>= f) (y >>= g) s t := by
  unfold Mirrors at hx ⊢
  change match EStateM.bind x f s, EStateM.bind y g t with
    | .ok a s, .ok b t => a = b ∧ R s t
    | .error e s, .error e' t => e = e' ∧ R s t
    | _, _ => False
  unfold EStateM.bind
  cases hxs : x s with
  | ok a s' =>
    cases hyt : y t with
    | ok b t' =>
      rw [hxs, hyt] at hx
      obtain ⟨rfl, hr⟩ := hx
      exact h a s' t' (he.of_ok hxs) hr
    | error e t' => rw [hxs, hyt] at hx; exact hx.elim
  | error e s' =>
    cases hyt : y t with
    | ok b t' => rw [hxs, hyt] at hx; exact hx.elim
    | error e' t' => rw [hxs, hyt] at hx; exact hx

/-- An action follows. -/
theorem bind {x y : EStateM ε σ α} {f g : α → EStateM ε σ β} (hx : Mirrors R x y s t)
    (h : ∀ a s' t', R s' t' → Mirrors R (f a) (g a) s' t') : Mirrors R (x >>= f) (y >>= g) s t :=
  hx.bind_ensures .trivial fun a s' t' _ => h a s' t'

/-- Both give values, or both end in faults. -/
theorem cases {x y : EStateM ε σ α} (h : Mirrors R x y s t) :
    (∃ a s' t', x s = .ok a s' ∧ y t = .ok a t' ∧ R s' t') ∨
      ∃ e s' t', x s = .error e s' ∧ y t = .error e t' ∧ R s' t' := by
  unfold Mirrors at h
  cases hxs : x s with
  | ok a s' =>
    cases hyt : y t with
    | ok b t' =>
      rw [hxs, hyt] at h
      exact .inl ⟨a, s', t', rfl, h.1 ▸ rfl, h.2⟩
    | error e t' => rw [hxs, hyt] at h; exact h.elim
  | error e s' =>
    cases hyt : y t with
    | ok b t' => rw [hxs, hyt] at h; exact h.elim
    | error e' t' =>
      rw [hxs, hyt] at h
      exact .inr ⟨e, s', t', rfl, h.1 ▸ rfl, h.2⟩

end Mirrors

end ChannelMachine

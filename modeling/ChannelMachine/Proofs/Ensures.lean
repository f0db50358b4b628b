/-!
# What an action ensures

`Ensures x s good bad` says of an action `x` that runs on the state `s`: if it gives a value, the
value and the state it leaves behind satisfy `good`, and if it ends in a fault, the fault and the
state it leaves behind satisfy `bad`.  The lemmas take an action apart at its first step.
-/

namespace ChannelMachine

/-- The result of an action satisfies one of two conditions: one on its value, one on its fault. -/
def Ensures {ε σ α : Type} (x : EStateM ε σ α) (s : σ) (good : α → σ → Prop)
    (bad : ε → σ → Prop) : Prop :=
  match x s with
  | .ok a s => good a s
  | .error e s => bad e s

namespace Ensures

variable {ε σ α β : Type} {s : σ} {bad : ε → σ → Prop}

theorem pure {a : α} {good : α → σ → Prop} (h : good a s) :
    Ensures (Pure.pure a : EStateM ε σ α) s good bad := h

theorem throw {e : ε} {good : α → σ → Prop} (h : bad e s) :
    Ensures (MonadExcept.throw e : EStateM ε σ α) s good bad := h

theorem get {good : σ → σ → Prop} (h : good s s) :
    Ensures (MonadState.get : EStateM ε σ σ) s good bad := h

theorem modifyGet {f : σ → α × σ} {good : α → σ → Prop} (h : good (f s).1 (f s).2) :
    Ensures (MonadState.modifyGet f : EStateM ε σ α) s good bad := h

theorem bind {x : EStateM ε σ α} {f : α → EStateM ε σ β} {good : β → σ → Prop}
    (h : Ensures x s (fun a t => Ensures (f a) t good bad) bad) :
    Ensures (x >>= f) s good bad := by
  unfold Ensures at h ⊢
  change match EStateM.bind x f s with
    | .ok a t => good a t
    | .error e t => bad e t
  unfold EStateM.bind
  cases hx : x s with
  | ok a t =>
    rw [hx] at h
    exact h
  | error e t =>
    rw [hx] at h
    exact h

/-- An action whose value is known. -/
theorem ok {x : EStateM ε σ α} {a : α} {t : σ} {good : α → σ → Prop} (hx : x s = .ok a t)
    (h : good a t) : Ensures x s good bad := by
  rw [Ensures, hx]
  exact h

/-- A weaker condition is ensured as well. -/
theorem mono {x : EStateM ε σ α} {good good' : α → σ → Prop} {bad' : ε → σ → Prop}
    (h : Ensures x s good bad) (hgood : ∀ a t, good a t → good' a t)
    (hbad : ∀ e t, bad e t → bad' e t) : Ensures x s good' bad' := by
  unfold Ensures at h ⊢
  split
  next a t hx =>
    rw [hx] at h
    exact hgood a t h
  next e t hx =>
    rw [hx] at h
    exact hbad e t h

/-- What is ensured of an action twice holds together. -/
theorem and {x : EStateM ε σ α} {good good' : α → σ → Prop} {bad' : ε → σ → Prop}
    (h : Ensures x s good bad) (h' : Ensures x s good' bad') :
    Ensures x s (fun a t => good a t ∧ good' a t) (fun e t => bad e t ∧ bad' e t) := by
  unfold Ensures at h h' ⊢
  cases hx : x s with
  | ok a t =>
    rw [hx] at h h'
    exact ⟨h, h'⟩
  | error e t =>
    rw [hx] at h h'
    exact ⟨h, h'⟩

/-- What is ensured of an action holds of its value. -/
theorem of_ok {x : EStateM ε σ α} {good : α → σ → Prop} (h : Ensures x s good bad) {a : α} {t : σ}
    (hx : x s = .ok a t) : good a t := by
  rw [Ensures, hx] at h
  exact h

theorem trivial {x : EStateM ε σ α} : Ensures x s (fun _ _ => True) fun _ _ => True := by
  unfold Ensures
  split <;> exact True.intro

/-- An action without faults gives a value. -/
theorem exists_ok {x : EStateM ε σ α} {good : α → σ → Prop}
    (h : Ensures x s good fun _ _ => False) : ∃ a t, x s = .ok a t ∧ good a t := by
  unfold Ensures at h
  split at h
  next a t hx => exact ⟨a, t, hx, h⟩
  next => exact h.elim

/-- What is ensured of an action holds of its fault. -/
theorem of_error {x : EStateM ε σ α} {good : α → σ → Prop} (h : Ensures x s good bad) {e : ε}
    {t : σ} (hx : x s = .error e t) : bad e t := by
  rw [Ensures, hx] at h
  exact h

end Ensures

end ChannelMachine

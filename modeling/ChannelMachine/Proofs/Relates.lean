import ChannelMachine.Fault
import ChannelMachine.Proofs.Ensures

/-!
# Two actions side by side

`Relates x y s t good bad` compares an action `x` on the state `s` with an action `y` on the state
`t`.  Where `x` runs out of nodes nothing is said about `y`.  Otherwise both give values, and
these and the states they leave behind satisfy `good`, or both end in the same fault, and the
states satisfy `bad`.
-/

namespace ChannelMachine

/-- Two actions do the same, unless the first one runs out of nodes. -/
def Relates {σ τ α β : Type} (x : EStateM Fault σ α) (y : EStateM Fault τ β) (s : σ) (t : τ)
    (good : α → σ → β → τ → Prop) (bad : σ → τ → Prop) : Prop :=
  match x s, y t with
  | .ok a s, .ok b t => good a s b t
  | .ok _ _, .error _ _ => False
  | .error e _, .ok _ _ => e = .heapExhausted
  | .error e s, .error e' t => e = .heapExhausted ∨ (e' = e ∧ bad s t)

namespace Relates

variable {σ τ α β γ δ : Type} {s : σ} {t : τ} {bad : σ → τ → Prop}

theorem pure {a : α} {b : β} {good : α → σ → β → τ → Prop} (h : good a s b t) :
    Relates (Pure.pure a : EStateM Fault σ α) (Pure.pure b : EStateM Fault τ β) s t good bad := h

theorem throw {e : Fault} {good : α → σ → β → τ → Prop} (h : bad s t) :
    Relates (MonadExcept.throw e : EStateM Fault σ α) (MonadExcept.throw e : EStateM Fault τ β) s t
      good bad :=
  .inr ⟨rfl, h⟩

theorem get {good : σ → σ → τ → τ → Prop} (h : good s s t t) :
    Relates (MonadState.get : EStateM Fault σ σ) (MonadState.get : EStateM Fault τ τ) s t good bad :=
  h

theorem modifyGet {f : σ → α × σ} {g : τ → β × τ} {good : α → σ → β → τ → Prop}
    (h : good (f s).1 (f s).2 (g t).1 (g t).2) :
    Relates (MonadState.modifyGet f : EStateM Fault σ α)
      (MonadState.modifyGet g : EStateM Fault τ β) s t good bad :=
  h

theorem bind {x : EStateM Fault σ α} {y : EStateM Fault τ β} {f : α → EStateM Fault σ γ}
    {g : β → EStateM Fault τ δ} {good : γ → σ → δ → τ → Prop}
    (h : Relates x y s t (fun a s b t => Relates (f a) (g b) s t good bad) bad) :
    Relates (x >>= f) (y >>= g) s t good bad := by
  unfold Relates at h ⊢
  change match EStateM.bind x f s, EStateM.bind y g t with
    | .ok a s, .ok b t => good a s b t
    | .ok _ _, .error _ _ => False
    | .error e _, .ok _ _ => e = .heapExhausted
    | .error e s, .error e' t => e = .heapExhausted ∨ (e' = e ∧ bad s t)
  unfold EStateM.bind
  cases hx : x s with
  | ok a s =>
    cases hy : y t with
    | ok b t =>
      rw [hx, hy] at h
      exact h
    | error e t =>
      rw [hx, hy] at h
      exact h.elim
  | error e s =>
    cases hy : y t with
    | ok b t =>
      rw [hx, hy] at h
      simp only
      cases g b t with
      | ok _ _ => exact h
      | error _ _ => exact .inl h
    | error e' t =>
      rw [hx, hy] at h
      exact h

/-- The first action does something before both go on. -/
theorem bind_left {x : EStateM Fault σ α} {f : α → EStateM Fault σ γ} {y : EStateM Fault τ β}
    {good : γ → σ → β → τ → Prop} {left : α → σ → Prop}
    (hx : Ensures x s left fun e _ => e = .heapExhausted)
    (h : ∀ a s, left a s → Relates (f a) y s t good bad) : Relates (x >>= f) y s t good bad := by
  cases hxs : x s with
  | ok a s' =>
    have hrest := h a s' (hx.of_ok hxs)
    have hbind : (x >>= f) s = f a s' := by
      change EStateM.bind x f s = f a s'
      rw [EStateM.bind, hxs]
    unfold Relates at hrest ⊢
    rw [hbind]
    exact hrest
  | error e s' =>
    have he := hx.of_error hxs
    have hbind : (x >>= f) s = .error e s' := by
      change EStateM.bind x f s = .error e s'
      rw [EStateM.bind, hxs]
    unfold Relates
    rw [hbind]
    cases y t with
    | ok b t' => exact he
    | error e' t' => exact .inl he

theorem mono {x : EStateM Fault σ α} {y : EStateM Fault τ β} {good good' : α → σ → β → τ → Prop}
    (h : Relates x y s t good bad) (hgood : ∀ a s b t, good a s b t → good' a s b t) :
    Relates x y s t good' bad := by
  unfold Relates at h ⊢
  cases hx : x s with
  | ok a s =>
    cases hy : y t with
    | ok b t =>
      rw [hx, hy] at h
      exact hgood a s b t h
    | error e t =>
      rw [hx, hy] at h
      exact h
  | error e s =>
    cases hy : y t with
    | ok b t =>
      rw [hx, hy] at h
      exact h
    | error e' t =>
      rw [hx, hy] at h
      exact h

/-- Two actions are compared by what each of them ensures. -/
theorem of_ensures {x : EStateM Fault σ α} {y : EStateM Fault τ β}
    {good : α → σ → β → τ → Prop} {left : α → σ → Prop} {left' : Fault → σ → Prop}
    {right : β → τ → Prop} {right' : Fault → τ → Prop} (hx : Ensures x s left left')
    (hy : Ensures y t right right') (hok : ∀ a s b t, left a s → right b t → good a s b t)
    (hright : ∀ a s e t, left a s → right' e t → False)
    (hleft : ∀ e s b t, left' e s → right b t → e = .heapExhausted)
    (hbad : ∀ e s e' t, left' e s → right' e' t → e = .heapExhausted ∨ (e' = e ∧ bad s t)) :
    Relates x y s t good bad := by
  unfold Relates
  cases hxs : x s with
  | ok a s =>
    cases hyt : y t with
    | ok b t => exact hok _ _ _ _ (hx.of_ok hxs) (hy.of_ok hyt)
    | error e t => exact hright _ _ _ _ (hx.of_ok hxs) (hy.of_error hyt)
  | error e s =>
    cases hyt : y t with
    | ok b t => exact hleft _ _ _ _ (hx.of_error hxs) (hy.of_ok hyt)
    | error e' t => exact hbad _ _ _ _ (hx.of_error hxs) (hy.of_error hyt)

/-- What the two actions ensure holds as well. -/
theorem with_both {x : EStateM Fault σ α} {y : EStateM Fault τ β} {good : α → σ → β → τ → Prop}
    (h : Relates x y s t good bad) {left : α → σ → Prop} {left' : Fault → σ → Prop}
    {right : β → τ → Prop} {right' : Fault → τ → Prop} (hx : Ensures x s left left')
    (hy : Ensures y t right right') :
    Relates x y s t (fun a s b t => left a s ∧ right b t ∧ good a s b t) bad := by
  unfold Relates at h ⊢
  cases hxs : x s with
  | ok a s =>
    cases hyt : y t with
    | ok b t =>
      rw [hxs, hyt] at h
      exact ⟨hx.of_ok hxs, hy.of_ok hyt, h⟩
    | error e t =>
      rw [hxs, hyt] at h
      exact h
  | error e s =>
    cases hyt : y t with
    | ok b t =>
      rw [hxs, hyt] at h
      exact h
    | error e' t =>
      rw [hxs, hyt] at h
      exact h

/-- What the first action ensures holds as well. -/
theorem with_left {x : EStateM Fault σ α} {y : EStateM Fault τ β} {good : α → σ → β → τ → Prop}
    (h : Relates x y s t good bad) {left : α → σ → Prop} {left' : Fault → σ → Prop}
    (hx : Ensures x s left left') :
    Relates x y s t (fun a s b t => left a s ∧ good a s b t) bad :=
  (h.with_both hx .trivial).mono fun _ _ _ _ ⟨hleft, _, hgood⟩ => ⟨hleft, hgood⟩

/-- Two actions with known results. -/
theorem of_ok {x : EStateM Fault σ α} {y : EStateM Fault τ β} {a : α} {b : β} {s' : σ} {t' : τ}
    {good : α → σ → β → τ → Prop} (hx : x s = .ok a s') (hy : y t = .ok b t')
    (h : good a s' b t') : Relates x y s t good bad := by
  rw [Relates, hx, hy]
  exact h

end Relates

end ChannelMachine

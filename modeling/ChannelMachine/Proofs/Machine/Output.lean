import ChannelMachine.Proofs.Machine.Calls
import ChannelMachine.Proofs.Machine.Composed

/-!
# What a step prints

A step only adds to what was printed, and a step that runs out of nodes prints nothing.  All but
the calls of builtins are quiet: they leave the output as it is.
-/

namespace ChannelMachine.Machine

variable {α β : Type}

/-- An action that prints nothing. -/
def Quiet (x : Action α) : Prop :=
  ∀ m, Ensures x m (fun _ k => k.output = m.output) (fun _ k => k.output = m.output)

/-- The second machine has printed what the first one has, and perhaps more. -/
def Continues (m k : Machine) : Prop := ∃ text, k.output = m.output ++ text

theorem Continues.refl (m : Machine) : Continues m m := ⟨"", String.append_empty.symm⟩

theorem Continues.of_eq {m k : Machine} (h : k.output = m.output) : Continues m k :=
  ⟨"", h.trans String.append_empty.symm⟩

theorem Continues.trans {m k l : Machine} (first : Continues m k) (second : Continues k l) :
    Continues m l := by
  obtain ⟨s, hs⟩ := first
  obtain ⟨t, ht⟩ := second
  exact ⟨s ++ t, by rw [ht, hs, String.append_assoc]⟩

/-- An action that only adds to the output, and nothing if it runs out of nodes. -/
def Speaks (x : Action α) : Prop :=
  ∀ m, Ensures x m (fun _ k => Continues m k)
    (fun e k => Continues m k ∧ (e = .heapExhausted → k.output = m.output))

namespace Quiet

theorem bind {x : Action α} {f : α → Action β} (hx : Quiet x) (hf : ∀ a, Quiet (f a)) :
    Quiet (x >>= f) := fun m =>
  .bind ((hx m).mono (fun a k hk => (hf a k).mono (fun _ _ h => h.trans hk) fun _ _ h => h.trans hk)
    fun _ _ h => h)

theorem pure (a : α) : Quiet (Pure.pure a : Action α) := fun _ => .pure rfl

theorem throw (e : Fault) : Quiet (MonadExcept.throw e : Action α) := fun _ => .throw rfl

theorem throw_bind (e : Fault) (f : β → Action α) : Quiet (MonadExcept.throw e >>= f) :=
  fun _ => .bind (.throw rfl)

theorem get : Quiet (MonadState.get : Action Machine) := fun _ => .get rfl

theorem speaks {x : Action α} (hx : Quiet x) : Speaks x := fun m =>
  (hx m).mono (fun _ _ h => .of_eq h) fun _ _ h => ⟨.of_eq h, fun _ => h⟩

end Quiet

theorem output_note (m : Machine) (e : Event) : (m.note e).output = m.output := by
  unfold note
  split <;> rfl

/-- An action that does not print is quiet. -/
theorem Composed.quiet {D : Deed → Prop} {x : Action α} (hx : Composed D x) (hD : ¬ D .print) :
    Quiet x := by
  induction hx with
  | pure a => exact .pure a
  | bind _ _ ihx ihf => exact .bind ihx ihf
  | throw | compare => exact .throw _
  | get => exact .get
  | registersNow | move | push | write => exact fun _ => rfl
  | read _ ih => exact fun m => .bind (ensures_readHeap (ih m.heap m))
  | pop => exact fun _ => ensures_pop (fun _ _ _ => rfl) fun _ => rfl
  | make | assign =>
    intro m
    refine ensures_onHeap ?_
    unfold Ensures
    split <;> rfl
  | print h => exact absurd h hD
  | meet _ hf => exact fun m => .modifyGet (hf m).output

/-! ## Calls of builtins

A builtin prints or allocates, but never both, and what follows it does not allocate. -/

/-- An action that prints nothing, and does not run out of nodes. -/
def Light (x : Action α) : Prop :=
  ∀ m, Ensures x m (fun _ k => k.output = m.output)
    (fun e k => k.output = m.output ∧ e ≠ .heapExhausted)

theorem Speaks.bind {x : Action α} {f : α → Action β} (hx : Speaks x) (hf : ∀ a, Light (f a)) :
    Speaks (x >>= f) := fun m =>
  .bind ((hx m).mono (fun a k hk => (hf a k).mono (fun _ _ h => hk.trans (.of_eq h))
    fun _ _ h => ⟨hk.trans (.of_eq h.1), fun he => absurd he h.2⟩) fun _ _ h => h)

theorem Composed.light {x : Action α} (hx : Composed (fun d => d ≠ .print ∧ d ≠ .make) x) :
    Light x := by
  intro m
  have hquiet := hx.quiet (fun h => h.1 rfl) m
  have hfrugal := (hx.frugal fun h => h.2 rfl).ensures m
  refine (hquiet.and hfrugal).mono (fun _ _ h => h.1) fun e k h => ⟨h.1, ?_⟩
  rintro rfl
  cases h.2

theorem ensures_printAll (as : List Address) : ∀ m, Ensures (printAll as) m
    (fun _ k => Continues m k) (fun _ _ => False) := by
  induction as with
  | nil => exact fun m => .pure (.refl m)
  | cons a rest ih =>
    intro m
    refine .bind (ensures_readHeap (.bind ((ih _).mono (fun _ k hk => ?_) fun _ _ h => h)))
    exact Continues.trans ⟨_, rfl⟩ hk

theorem speaks_runBuiltin (b : Builtin) (arguments : List Address) :
    Speaks (runBuiltin b arguments) := by
  by_cases hb : b = .print ∨ b = .println
  · intro m
    rcases hb with rfl | rfl
    · exact .bind ((ensures_printAll _ m).mono (fun _ _ h => .pure h) fun _ _ h => h.elim)
    · refine .bind ((ensures_printAll _ m).mono (fun _ k h => ?_) fun _ _ h => h.elim)
      exact .bind (ensures_update (.pure (h.trans ⟨_, rfl⟩)))
  · have composed : Composed (· ≠ .print) (runBuiltin b arguments) :=
      composed_runBuiltin nofun (fun h => absurd h hb) _
    exact (composed.quiet fun h => h rfl).speaks

theorem speaks_callBuiltin (slot n : Nat) (tail : Bool) : Speaks (callBuiltin slot n tail) := by
  intro m
  refine ensures_callBuiltin (fun _ => ⟨.refl m, fun _ => rfl⟩)
    (fun _ _ _ => ⟨.refl m, fun _ => rfl⟩) fun entry _ _ => ?_
  exact ((speaks_runBuiltin entry.action _).bind fun result =>
    Composed.light (.bind (.push (by decide)) fun _ => composed_finish tail)) m

theorem speaks_call (n : Nat) (tail : Bool) : Speaks (call n tail) := by
  intro m
  have composed (a : Address) : Composed (· ≠ .print) (callClosure a n tail) :=
    composed_callClosure nofun a n tail
  exact ensures_call (fun _ => ⟨.refl m, fun _ => rfl⟩) (fun _ _ _ => speaks_callBuiltin _ n tail m)
    (fun a _ _ => ((composed a).quiet fun h => h rfl).speaks m) fun _ => ⟨.refl m, fun _ => rfl⟩

/-! ## Instructions -/

theorem Speaks.proceed {x : Action Unit} (hx : Speaks x) : Speaks (proceed x) :=
  hx.bind fun _ _ => .pure rfl

theorem speaks_execute (program : Program) (i : Instruction) : Speaks (execute program i) := by
  have hquiet (hi : i.deeds.contains .print = false) : Speaks (execute program i) :=
    ((composed_execute program i).quiet (ne_true_of_eq_false hi)).speaks
  cases i with
  | call n => exact (speaks_call n false).proceed
  | tailCall n => exact (speaks_call n true).proceed
  | _ => exact hquiet rfl

/-- A step only adds to the output, and prints nothing if it runs out of nodes. -/
theorem speaks_step (program : Program) : Speaks (step program) := by
  intro m
  refine .bind (ensures_registersNow ?_)
  split
  · exact speaks_execute program _ m
  · have composed : Composed (· ≠ .print) halt := composed_halt
    exact (composed.quiet fun h => h rfl).speaks m

end ChannelMachine.Machine

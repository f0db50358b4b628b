import ChannelMachine.Proofs.Machine.Actions
import ChannelMachine.Machine.Step

/-!
# Actions that do not tell types apart

Only the check in a send tells types of elements apart.  All other actions are `Tolerant`, those on the
heap among them.
-/

namespace ChannelMachine

/-- Whether a value has the wrong type for a channel. -/
def Fault.isMismatch : Fault → Bool
  | .channelItemType .. => true
  | _ => false

/-- An action that does not tell types of elements apart. -/
structure Tolerant {σ α : Type} (x : EStateM Fault σ α) : Prop where
  /-- Whatever the fault, it is another one. -/
  ensures : ∀ s, Ensures x s (fun _ _ => True) fun e _ => e.isMismatch = false

namespace Tolerant

variable {σ α β : Type}

theorem pure (a : α) : Tolerant (Pure.pure a : EStateM Fault σ α) := ⟨fun _ => trivial⟩

theorem throw {e : Fault} (he : e.isMismatch = false) :
    Tolerant (MonadExcept.throw e : EStateM Fault σ α) := ⟨fun _ => he⟩

theorem bind {x : EStateM Fault σ α} {f : α → EStateM Fault σ β} (hx : Tolerant x)
    (hf : ∀ a, Tolerant (f a)) : Tolerant (x >>= f) :=
  ⟨fun s => .bind ((hx.ensures s).mono (fun a t _ => (hf a).ensures t) fun _ _ h => h)⟩

theorem throw_bind {e : Fault} (he : e.isMismatch = false) (f : α → EStateM Fault σ β) :
    Tolerant (MonadExcept.throw e >>= f) := ⟨fun _ => he⟩

theorem get : Tolerant (MonadState.get : EStateM Fault σ σ) := ⟨fun _ => trivial⟩

theorem modifyGet (f : σ → α × σ) : Tolerant (MonadState.modifyGet f : EStateM Fault σ α) :=
  ⟨fun _ => trivial⟩

end Tolerant

/-! ## Actions on the heap -/

namespace Heap

variable {α : Type} (roots : Roots)

theorem tolerant_allocate (t : Tag) (n : Nat) : Tolerant (allocate t n roots) := by
  refine ⟨fun h => ?_⟩
  unfold Ensures allocate
  dsimp only
  by_cases hsize : n = 0 ∨ nodeSize < n
  · rw [if_pos hsize]
    rfl
  rw [if_neg hsize]
  by_cases hfree : (h.refill roots).free = noNode
  · rw [if_pos hfree]
    rfl
  · rw [if_neg hfree]
    trivial

theorem tolerant_holding {x : Action α} (a : Address) (hx : Tolerant x) : Tolerant (holding a x) := by
  refine ⟨fun h => ?_⟩
  have hheld := hx.ensures { h with building := a :: h.building }
  unfold Ensures holding at *
  dsimp only
  cases hresult : x { h with building := a :: h.building } with
  | ok v k => trivial
  | error e k =>
    rw [hresult] at hheld
    exact hheld

theorem tolerant_newNumber (x : Number) : Tolerant (newNumber x roots) :=
  .bind (tolerant_allocate ..) fun _ => .bind (.modifyGet _) fun _ => .pure _

theorem tolerant_newString (s : String) : Tolerant (newString s roots) := by
  refine .bind .get fun h => ?_
  split
  · exact .pure _
  · exact .bind (tolerant_allocate ..) fun _ => .bind (.modifyGet _) fun _ => .pure _

theorem tolerant_applyUnary (op : UnaryOp) (a : Address) : Tolerant (applyUnary op a roots) := by
  cases op with
  | neg =>
    refine .bind .get fun h => ?_
    split
    · exact tolerant_newNumber ..
    · exact .bind .get fun _ => .throw rfl
  | not =>
    refine .bind .get fun h => ?_
    split
    · exact .pure _
    · exact .bind .get fun _ => .throw rfl

theorem tolerant_applyBinary (op : BinaryOp) (a b : Address) :
    Tolerant (applyBinary op a b roots) := by
  cases op with
  | eq | ne => exact .bind .get fun _ => .pure _
  | lt | le | gt | ge =>
    refine .bind .get fun h => ?_
    split
    · exact .pure _
    · exact .pure _
    · exact .bind .get fun _ => .throw rfl
  | add =>
    refine .bind .get fun h => ?_
    split
    · exact tolerant_newNumber ..
    · exact tolerant_newString ..
    · exact .bind .get fun _ => .throw rfl
  | sub | mul | div | mod =>
    refine .bind .get fun h => ?_
    split
    · exact tolerant_newNumber ..
    · exact .bind .get fun _ => .throw rfl

theorem tolerant_newChannel (capacity : Nat) : Tolerant (newChannel capacity roots) := by
  unfold newChannel
  split
  · exact .throw_bind rfl _
  · exact .bind (tolerant_allocate ..) fun _ => .bind (.modifyGet _) fun _ => .pure _

theorem tolerant_newWaitGroup : Tolerant (newWaitGroup roots) :=
  .bind (tolerant_newNumber ..) fun _ => .bind (tolerant_holding _ (tolerant_allocate ..)) fun _ =>
    .bind (.modifyGet _) fun _ => .pure _

theorem tolerant_extend (environment frame : Address) : Tolerant (extend environment frame roots) :=
  .bind .get fun _ => .bind (tolerant_allocate ..) fun _ => .bind (.modifyGet _) fun _ => .pure _

theorem tolerant_newScope (environment : Address) (slots : Nat) :
    Tolerant (newScope environment slots roots) := by
  refine .bind (tolerant_allocate ..) fun _ => .bind (.modifyGet _) fun _ => tolerant_holding _ ?_
  exact .bind (tolerant_allocate ..) fun _ =>
    .bind (tolerant_holding _ (tolerant_extend ..)) fun _ => .pure _

theorem tolerant_newArguments (captured : Address) (arguments : List Address) :
    Tolerant (newArguments captured arguments roots) :=
  .bind (tolerant_allocate ..) fun _ => .bind (.modifyGet _) fun _ =>
    tolerant_holding _ (tolerant_extend ..)

theorem tolerant_newCall (resume : Nat) (environment captured : Address) (arguments : List Address) :
    Tolerant (newCall resume environment captured arguments roots) :=
  .bind (tolerant_allocate ..) fun _ => .bind (.modifyGet _) fun _ =>
    tolerant_holding _ (.bind (tolerant_newArguments ..) fun _ => .pure _)

end Heap

end ChannelMachine

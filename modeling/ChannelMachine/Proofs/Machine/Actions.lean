import ChannelMachine.Machine.Action
import ChannelMachine.Proofs.Heap.Building

/-!
# What the actions of a machine ensure

One rule for each action that the instructions are made of.  An action on the heap leaves the
machine as it was, but for the heap and for the reports that it moved to the journal
(`Machine.withHeap`).
-/

namespace ChannelMachine.Machine

variable {m : Machine} {α : Type} {bad : Fault → Machine → Prop}

/-- The machine with another heap, whose reports are moved to the journal. -/
def withHeap (m : Machine) (h : Heap) : Machine :=
  { m with heap := (absorb h m.journal).1, journal := (absorb h m.journal).2 }

/-- The machine with other registers. -/
def withRegisters (m : Machine) (r : Registers) : Machine := { m with registers := r }

theorem absorb_eq (h : Heap) (journal : Array Event) :
    (absorb h journal).1 = { h with reports := [] } := by
  unfold absorb
  split
  next hreports => rw [← hreports]
  next => rfl

theorem alike_withHeap (m : Machine) (h : Heap) : Heap.Alike h (m.withHeap h).heap := by
  change Heap.Alike h (absorb h m.journal).1
  rw [absorb_eq]
  exact ⟨⟨rfl, rfl, rfl, rfl⟩, rfl, rfl, rfl⟩

theorem building_withHeap (m : Machine) (h : Heap) : (m.withHeap h).heap.building = h.building := by
  change (absorb h m.journal).1.building = h.building
  rw [absorb_eq]

/-- The rule for actions on the heap. -/
theorem ensures_onHeap {action : Roots → Heap.Action α} {good : α → Machine → Prop}
    (h : Ensures (action (threadRoots m.registers m.threads)) m.heap
      (fun x k => good x (m.withHeap k)) (fun e k => bad e (m.withHeap k))) :
    Ensures (onHeap action) m good bad := by
  unfold Ensures at h ⊢
  unfold onHeap
  cases m with
  | mk heap registers current threads nextThread channels groups runnable builtins output
      typedChannels tracing journal =>
    simp only at h ⊢
    split at h
    next x k heq =>
      rw [heq]
      exact h
    next e k heq =>
      rw [heq]
      exact h

theorem ensures_update {f : Machine → Machine} {good : Unit → Machine → Prop}
    (h : good () (f m)) : Ensures (update f) m good bad := h

theorem ensures_readHeap {f : Heap → α} {good : α → Machine → Prop} (h : good (f m.heap) m) :
    Ensures (readHeap f) m good bad := h

theorem ensures_updateHeap {f : Heap → Heap} {good : Unit → Machine → Prop}
    (h : good () { m with heap := f m.heap }) : Ensures (updateHeap f) m good bad := h

theorem ensures_registersNow {good : Registers → Machine → Prop} (h : good m.registers m) :
    Ensures registersNow m good bad := h

theorem ensures_setRegisters {f : Registers → Registers} {good : Unit → Machine → Prop}
    (h : good () (m.withRegisters (f m.registers))) : Ensures (setRegisters f) m good bad := h

theorem ensures_push {a : Address} {good : Unit → Machine → Prop}
    (h : good () (m.withRegisters { m.registers with stack := a :: m.registers.stack })) :
    Ensures (push a) m good bad := h

theorem ensures_replace {n : Nat} {a : Address} {good : Unit → Machine → Prop}
    (h : good () (m.withRegisters
      { m.registers with stack := a :: m.registers.stack.drop n })) :
    Ensures (replace n a) m good bad := h

theorem ensures_goTo {pc : Nat} {good : Unit → Machine → Prop}
    (h : good () (m.withRegisters { m.registers with pc })) : Ensures (goTo pc) m good bad := h

theorem ensures_advance {good : Unit → Machine → Prop}
    (h : good () (m.withRegisters { m.registers with pc := m.registers.pc + 1 })) :
    Ensures advance m good bad := h

/-- The rule for an operand: it is there, or the stack is too short. -/
theorem ensures_peek {depth : Nat} {good : Address → Machine → Prop}
    (h : ∀ a, m.registers.stack[depth]? = some a → good a m)
    (hbad : m.registers.stack[depth]? = none → bad .stackUnderflow m) :
    Ensures (peek depth) m good bad := by
  refine .bind (ensures_registersNow ?_)
  split
  next a ha => exact .pure (h a ha)
  next hnone => exact .throw (hbad hnone)

theorem ensures_pop {good : Address → Machine → Prop}
    (h : ∀ a rest, m.registers.stack = a :: rest →
      good a (m.withRegisters { m.registers with stack := rest }))
    (hbad : m.registers.stack = [] → bad .stackUnderflow m) :
    Ensures pop m good bad := by
  refine .bind (ensures_registersNow ?_)
  split
  next hnil => exact .throw (hbad hnil)
  next a rest hcons => exact .bind (ensures_setRegisters (.pure (h a rest hcons)))

end ChannelMachine.Machine

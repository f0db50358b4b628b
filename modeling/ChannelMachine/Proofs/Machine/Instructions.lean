import ChannelMachine.Machine.Step
import ChannelMachine.Proofs.Machine.Sound

/-!
# What the instructions ensure

The rule for an instruction names the machines that it may leave behind, with a value and with a
fault.  The nodes that it makes are new, and everything else that is live is as it was.
-/

namespace ChannelMachine.Machine

variable {m : Machine} {bad : Fault → Machine → Prop}

theorem ensures_argumentsNow {n : Nat} {good : List Address → Machine → Prop}
    (h : good (m.registers.stack.take n).reverse m) : Ensures (argumentsNow n) m good bad := h

/-! ## Values -/

/-- What an action on the heap that makes a value ensures. -/
def MakesValue (action : Roots → Heap.Action Address) (h : Heap) : Prop :=
  ∀ roots : Roots, (∀ a ∈ roots.get, h.InUse a) →
    Ensures (action roots) h (fun a k => Heap.Grows h k roots.get ∧ k.IsValue a)
      (fun _ k => Heap.Grows h k roots.get)

theorem makesValue_newNumber {h : Heap} (hs : h.Sound) (x : Number) :
    MakesValue (Heap.newNumber x) h := by
  intro roots hroots
  refine (hs.newNumber_ensures hroots x).mono ?_ ?_
  · intro a k made
    exact ⟨made.toGrows, made.toInUse, made.toHolds.tag ▸ rfl⟩
  · exact fun _ _ refused => refused.toGrows

theorem makesValue_newString {h : Heap} (hs : h.Sound) (s : String) :
    MakesValue (Heap.newString s) h := by
  intro roots hroots
  refine (hs.newString_ensures hroots s).mono ?_ ?_
  · intro a k hastext
    exact ⟨hastext.toGrows, hastext.toInUse, hastext.is_string ▸ rfl⟩
  · exact fun _ _ refused => refused.1.toGrows

theorem makesValue_applyUnary {h : Heap} (hs : h.Sound) (op : UnaryOp) (a : Address) :
    MakesValue (Heap.applyUnary op a) h := by
  intro roots hroots
  unfold Heap.applyUnary
  cases op with
  | neg =>
    refine .bind (.get ?_)
    split
    · exact makesValue_newNumber hs _ roots hroots
    · exact .bind (.get (.throw (.refl hs _)))
  | not =>
    refine .bind (.get ?_)
    split
    next b _ => exact .pure ⟨.refl hs _, hs.isValue_boolean (!b)⟩
    · exact .bind (.get (.throw (.refl hs _)))

theorem makesValue_applyBinary {h : Heap} (hs : h.Sound) (op : BinaryOp) (a b : Address) :
    MakesValue (Heap.applyBinary op a b) h := by
  intro roots hroots
  unfold Heap.applyBinary
  have hbool : ∀ b : Bool, Ensures (pure (Heap.boolean b) : Heap.Action Address) h
      (fun a k => Heap.Grows h k roots.get ∧ k.IsValue a) (fun _ k => Heap.Grows h k roots.get) :=
    fun b => .pure ⟨.refl hs _, hs.isValue_boolean b⟩
  have hthrow : Ensures (do throw ((← get).badOperands op a b) : Heap.Action Address) h
      (fun a k => Heap.Grows h k roots.get ∧ k.IsValue a) (fun _ k => Heap.Grows h k roots.get) :=
    .bind (.get (.throw (.refl hs _)))
  cases op
  case eq => exact .bind (.get (hbool _))
  case ne => exact .bind (.get (hbool _))
  case add =>
    refine .bind (.get ?_)
    split
    · exact makesValue_newNumber hs _ roots hroots
    · exact makesValue_newString hs _ roots hroots
    · exact hthrow
  case lt | le | gt | ge =>
    refine .bind (.get ?_)
    split
    · exact hbool _
    · exact hbool _
    · exact hthrow
  all_goals
    refine .bind (.get ?_)
    split
    · exact makesValue_newNumber hs _ roots hroots
    · exact hthrow

/-- The rule for an action on the heap that makes a value. -/
theorem Sound.ensures_makesValue (hm : m.Sound) {action : Roots → Heap.Action Address}
    (h : MakesValue action m.heap) {good : Address → Machine → Prop}
    (hgood : ∀ a k, Heap.Grows m.heap k m.roots → (m.withHeap k).Sound →
      (m.withHeap k).heap.IsValue a → good a (m.withHeap k))
    (hbad : ∀ e k, Heap.Grows m.heap k m.roots → (m.withHeap k).Sound → bad e (m.withHeap k)) :
    Ensures (onHeap action) m good bad := by
  refine ensures_onHeap ((h (threadRoots m.registers m.threads) hm.inUse_root).mono ?_ ?_)
  · rintro a k ⟨g, hin, hvalue⟩
    have alike := alike_withHeap m k
    refine hgood a k g (hm.withHeap g) ⟨alike.inUse.2 hin, ?_⟩
    rw [alike.tag]
    exact hvalue
  · exact fun e k g => hbad e k g (hm.withHeap g)

/-- A step executes the instruction at the thread's index. -/
theorem step_eq {program : Program} {i : Instruction} (h : program.at? m.registers.pc = some i) :
    m.step program = execute program i m := by
  have hnow : registersNow m = .ok m.registers m := rfl
  unfold Machine.step
  change EStateM.bind registersNow _ m = _
  rw [EStateM.bind, hnow]
  dsimp only
  rw [h]

end ChannelMachine.Machine

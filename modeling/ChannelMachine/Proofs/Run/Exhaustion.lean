import ChannelMachine.Proofs.Machine.Composed
import ChannelMachine.Proofs.Run.Ledger

/-!
# When memory runs out

An instruction may need several nodes, and any of them may be refused.  What was made before is garbage
then, and the machine is the one before the instruction otherwise (`Run.leaves_no_trace`): an instruction
takes its operands, and changes anything that others see, only after its last allocation.  Actions that
come after it, and instructions that allocate nothing, make no nodes (`Composed`), so their faults have
other causes.
-/

namespace ChannelMachine

namespace Machine

/-! ## Actions that allocate -/

variable {α β : Type}

/-- A machine that differs from another one in garbage only.  Collections may be reported. -/
structure Unchanged (m k : Machine) : Prop where
  /-- The registers, the threads, the queues, the output and all else but the heap. -/
  machine : k = { m with heap := k.heap, journal := k.journal }
  /-- The nodes being built. -/
  building : k.heap.building = m.heap.building
  /-- What is reachable. -/
  node : ∀ a, m.heap.Live m.roots a → Heap.SameNode m.heap k.heap a
  /-- The texts that are reachable. -/
  text : ∀ a, m.heap.Live m.roots a → k.heap.text? a = m.heap.text? a
  /-- Where they are found. -/
  interned : ∀ (s : String) (a : Address), m.heap.Live m.roots a →
    (k.heap.strings[s]? = some a ↔ m.heap.strings[s]? = some a)

/-- An action that leaves no trace where it runs out of memory. -/
def LeavesNoTrace (x : Action α) (m : Machine) : Prop :=
  Ensures x m (fun _ _ => True) fun e k => e.isMemory = true → Unchanged m k

variable {m : Machine}

namespace LeavesNoTrace

/-- A frugal action does not run out of memory. -/
theorem frugal {x : Action α} (hx : Frugal x) : LeavesNoTrace x m :=
  (hx.ensures m).mono (fun _ _ _ => trivial) fun _ _ he hmemory =>
    absurd (he.symm.trans hmemory) Bool.false_ne_true

/-- An action that makes no nodes. -/
theorem composed {x : Action α} (hx : Composed (· ≠ .make) x) : LeavesNoTrace x m :=
  .frugal (hx.frugal fun h => h rfl)

/-- All nodes are made before the rest is done. -/
theorem before {x : Action α} {f : α → Action β} (hx : LeavesNoTrace x m)
    (hf : ∀ a, Composed (· ≠ .make) (f a)) : LeavesNoTrace (x >>= f) m := by
  refine Ensures.bind (Ensures.mono hx (fun a k _ => ?_) fun _ _ h => h)
  have hfrugal := (hf a).frugal fun h => h rfl
  exact (hfrugal.ensures k).mono (fun _ _ _ => trivial) fun _ _ he hmemory =>
    absurd (he.symm.trans hmemory) Bool.false_ne_true

theorem proceed {x : Action Unit} (hx : LeavesNoTrace x m) : LeavesNoTrace (Machine.proceed x) m :=
  hx.before fun _ => .pure _

/-- Looking at an operand leaves the machine as it is. -/
theorem peek {depth : Nat} {f : Address → Action α}
    (hf : ∀ a, m.registers.stack[depth]? = some a → LeavesNoTrace (f a) m) :
    LeavesNoTrace (Machine.peek depth >>= f) m :=
  Ensures.bind (ensures_peek hf fun _ => nofun)

end LeavesNoTrace

namespace Sound

variable (hm : m.Sound)
include hm

/-- Texts that stay where they are are still found there. -/
theorem unchanged {h : Heap} (g : Heap.Grows m.heap h m.roots) : Unchanged m (m.withHeap h) := by
  have alike := alike_withHeap m h
  have text (a : Address) (ha : m.heap.Live m.roots a) : (m.withHeap h).heap.text? a = m.heap.text? a :=
    (alike.text? a).trans (g.text a ha)
  have hroots := hm.inUse_root
  have hsound := (hm.withHeap g).heap
  refine ⟨rfl, (building_withHeap m h).trans g.building,
    fun a ha => (g.node a ha).trans (alike.same a), text, fun s a ha => ⟨fun hs => ?_, fun hs => ?_⟩⟩
  · obtain ⟨-, -, htext⟩ := hsound.toInterned.text? hs
    exact hm.heap.toInterned.strings_of_text? (hm.heap.inUse_of_live hroots ha).toIsBlock
      ((text a ha).symm.trans htext)
  · obtain ⟨hblock, -, htext⟩ := hm.heap.toInterned.text? hs
    exact hsound.toInterned.strings_of_text?
      (alike.isBlock.2 ((g.toKeeps.isBlock).2 hblock)) ((text a ha).trans htext)

/-- An action on the heap leaves no trace if all that is reachable outlives its faults. -/
theorem noTrace_onHeap {action : Roots → Heap.Action α}
    (h : Ensures (action (threadRoots m.registers m.threads)) m.heap (fun _ _ => True)
      fun _ k => Heap.Grows m.heap k m.roots) : LeavesNoTrace (onHeap action) m :=
  ensures_onHeap (h.mono (fun _ _ h => h) fun _ _ g _ => hm.unchanged g)

theorem noTrace_makesValue {action : Roots → Heap.Action Address} (h : MakesValue action m.heap) :
    LeavesNoTrace (onHeap action) m :=
  hm.noTrace_onHeap ((h (threadRoots m.registers m.threads) hm.inUse_root).mono (fun _ _ _ => trivial)
    fun _ _ g => g)

theorem noTrace_newNumber (x : Number) : LeavesNoTrace (onHeap (Heap.newNumber x)) m :=
  hm.noTrace_makesValue (makesValue_newNumber hm.heap x)

theorem noTrace_newString (s : String) : LeavesNoTrace (onHeap (Heap.newString s)) m :=
  hm.noTrace_makesValue (makesValue_newString hm.heap s)

/-! ### Values -/

theorem noTrace_constant (l : Literal) : LeavesNoTrace (constant l) m := by
  unfold constant
  cases l with
  | number x => exact (hm.noTrace_newNumber x).before (composed_push_advance nofun)
  | text s => exact (hm.noTrace_newString s).before (composed_push_advance nofun)
  | bool b => exact LeavesNoTrace.before (.composed (.pure _)) (composed_push_advance nofun)
  | null => exact LeavesNoTrace.before (.composed (.pure _)) (composed_push_advance nofun)
  | undefined => exact LeavesNoTrace.before (.composed (.pure _)) (composed_push_advance nofun)

theorem noTrace_unary (op : UnaryOp) : LeavesNoTrace (unary op) m :=
  .peek fun a _ => (hm.noTrace_makesValue (makesValue_applyUnary hm.heap op a)).before
    (composed_replace_advance nofun 1)

theorem noTrace_binary (op : BinaryOp) : LeavesNoTrace (binary op) m :=
  .peek fun b _ => .peek fun a _ =>
    (hm.noTrace_makesValue (makesValue_applyBinary hm.heap op a b)).before
      (composed_replace_advance nofun 2)

/-- A builtin allocates its result, or it prints and allocates nothing. -/
theorem noTrace_runBuiltin (b : Builtin) (arguments : List Address) :
    LeavesNoTrace (runBuiltin b arguments) m := by
  have hneed {β : Type} {f : Heap → Except Fault β} {g : β → Action Address}
      (hfault : ∀ e, f m.heap = .error e → e.isPlain = true) (hg : ∀ x, LeavesNoTrace (g x) m) :
      LeavesNoTrace (need f >>= g) m := by
    refine .bind (.bind (ensures_readHeap ?_))
    cases hresult : f m.heap with
    | ok x => exact hg x
    | error e =>
      have he := Fault.isMemory_of_isPlain (hfault e hresult)
      exact fun hmemory => absurd (he.symm.trans hmemory) Bool.false_ne_true
  unfold runBuiltin
  split
  · exact .composed (.bind (composed_printAll nofun _) fun _ => .pure _)
  · exact .composed (.bind (composed_printAll nofun _) fun _ => .bind (.print nofun) fun _ => .pure _)
  · exact hneed (fun _ => Heap.isPlain_of_lengthOf) fun _ => hm.noTrace_newNumber _
  · exact hneed (fun _ => Heap.isPlain_of_needNumber) fun _ => hm.noTrace_newNumber _
  · exact hneed (fun _ => Heap.isPlain_of_needNumbers) fun _ => hm.noTrace_newNumber _
  · exact hneed (fun _ => Heap.isPlain_of_needNumbers) fun _ => hm.noTrace_newNumber _
  · exact .bind (ensures_readHeap (hm.noTrace_newString _))
  · exact .composed (.throw rfl)

theorem noTrace_callBuiltin (slot n : Nat) (tail : Bool) : LeavesNoTrace (callBuiltin slot n tail) m := by
  refine ensures_callBuiltin (fun _ => nofun) (fun _ _ _ => nofun) fun entry _ _ => ?_
  exact (hm.noTrace_runBuiltin _ _).before fun result => .bind (.push nofun) fun _ =>
    composed_finish tail

/-! ### Functions and scopes -/

theorem noTrace_closure (arity entry : Nat) : LeavesNoTrace (closure arity entry) m := by
  refine .bind (ensures_registersNow ?_)
  refine (hm.noTrace_onHeap ?_).before (composed_push_advance nofun)
  exact (hm.heap.newClosure_ensures hm.inUse_roots arity entry live_environment hm.registers.tag).mono
    (fun _ _ _ => trivial) fun _ _ refused => refused.toGrows

theorem noTrace_enterScope (slots : Nat) : LeavesNoTrace (enterScope slots) m := by
  refine .bind (ensures_registersNow ?_)
  refine LeavesNoTrace.before (hm.noTrace_onHeap ?_) fun _ => .move fun _ => List.Subset.refl _
  exact (hm.heap.newScope_ensures hm.inUse_roots live_environment hm.registers.tag slots).mono
    (fun _ _ _ => trivial) fun _ _ failed => failed.toGrows

theorem noTrace_callClosure {function : Address} (hfunction : function ∈ m.registers.stack)
    (htag : m.heap.tag function = .closure) (n : Nat) (tail : Bool) :
    LeavesNoTrace (callClosure function n tail) m := by
  have harguments := hm.live_arguments n
  refine hm.ensures_callClosure hfunction htag (fun _ => nofun) fun _ hctag hcaptured =>
    .bind (ensures_argumentsNow ?_)
  split
  next =>
    refine LeavesNoTrace.before (hm.noTrace_onHeap ?_) fun _ => .bind .registersNow fun _ =>
      .read fun _ => .move fun _ => List.drop_subset _ _
    exact (hm.heap.newArguments_ensures hm.inUse_roots hcaptured hctag harguments).mono
      (fun _ _ _ => trivial) fun _ _ failed => failed.toGrows
  next =>
    refine .bind (ensures_registersNow ?_)
    refine LeavesNoTrace.before (hm.noTrace_onHeap ?_) fun _ => .move fun _ => List.drop_subset _ _
    exact (hm.heap.newCall_ensures hm.inUse_roots (m.registers.pc + 1) live_environment
      hm.registers.tag hcaptured hctag harguments).mono (fun _ _ _ => trivial) fun _ _ failed => failed.toGrows

theorem noTrace_call (n : Nat) (tail : Bool) : LeavesNoTrace (call n tail) m := by
  exact ensures_call (fun _ => nofun) (fun _ _ _ => hm.noTrace_callBuiltin _ n tail)
    (fun _ ha htag => hm.noTrace_callClosure (List.mem_of_getElem? ha) htag n tail) fun _ => nofun

/-! ### Channels and wait-groups -/

theorem noTrace_newChannel (capacity : Nat) : LeavesNoTrace (newChannel capacity) m := by
  refine LeavesNoTrace.before (hm.noTrace_onHeap ?_) fun a =>
    .bind (composed_update nofun fun _ => ⟨rfl, rfl, rfl⟩) fun _ => composed_push_advance nofun a
  refine (hm.heap.newChannel_ensures hm.inUse_roots capacity).mono (fun _ _ _ => trivial) ?_
  rintro e k (⟨-, -, rfl⟩ | ⟨-, refused⟩)
  · exact .refl hm.heap _
  · exact refused.toGrows

theorem noTrace_newWaitGroup : LeavesNoTrace newWaitGroup m := by
  refine LeavesNoTrace.before (hm.noTrace_onHeap ?_) fun a =>
    .bind (composed_update nofun fun _ => ⟨rfl, rfl, rfl⟩) fun _ => composed_push_advance nofun a
  exact (hm.heap.newWaitGroup_ensures hm.inUse_roots).mono (fun _ _ _ => trivial)
    fun _ _ failed => failed.toGrows

/-! ### All instructions -/

/-- An instruction that makes no nodes does not run out of memory. -/
theorem noTrace_execute (program : Program) (i : Instruction) : LeavesNoTrace (execute program i) m := by
  have hfrugal (hi : i.deeds.contains .make = false) : LeavesNoTrace (execute program i) m :=
    .frugal ((composed_execute program i).frugal (ne_true_of_eq_false hi))
  cases i with
  | constant l => exact (hm.noTrace_constant l).proceed
  | closure arity entry => exact (hm.noTrace_closure arity entry).proceed
  | call n => exact (hm.noTrace_call n false).proceed
  | tailCall n => exact (hm.noTrace_call n true).proceed
  | enterScope n => exact (hm.noTrace_enterScope n).proceed
  | unary op => exact (hm.noTrace_unary op).proceed
  | binary op => exact (hm.noTrace_binary op).proceed
  | newChannel capacity => exact (hm.noTrace_newChannel capacity).proceed
  | newWaitGroup => exact hm.noTrace_newWaitGroup.proceed
  | _ => exact hfrugal rfl

/-- No step leaves a trace where it runs out of memory. -/
theorem noTrace_step (program : Program) : LeavesNoTrace (Machine.step program) m := by
  refine .bind (ensures_registersNow ?_)
  split
  · exact hm.noTrace_execute program _
  · exact LeavesNoTrace.composed composed_halt

end Sound

end Machine

/-! ## Runs -/

namespace Run

/-- An instruction that runs out of memory in the run of any program leaves garbage, and nothing else. -/
theorem leaves_no_trace {config : Config} {m : Machine}
    (hcreate : Machine.create config standardBuiltins = .ok m) (program : Program) {before after : Machine}
    {s : Scheduler} {left : Nat} {e : Fault}
    (hreach : Reaches program (begin m (.create config.maxQuantum config.seed)) (running before s left))
    (hstep : before.step program = .error e after) (he : e.isMemory = true) : before.Unchanged after := by
  have sound : before.Sound := hreach.sound_of_create hcreate
  exact (sound.noTrace_step program).of_error hstep he

/-- How the next instruction fails: its fault, and how many nodes are free before and after it. -/
def failure? (program : Program) : Run → Option (Fault × Nat × Nat)
  | running m _ _ =>
      match m.step program with
      | .error e k => some (e, m.heap.freeCount, k.heap.freeCount)
      | .ok _ _ => none
  | _ => none

theorem exists_of_failure? {program : Program} {run : Run} {e : Fault} {n n' : Nat}
    (h : run.failure? program = some (e, n, n')) : ∃ m s left k, run = running m s left ∧
      m.step program = .error e k ∧ m.heap.freeCount = n ∧ k.heap.freeCount = n' := by
  unfold failure? at h
  split at h
  next m s left =>
    split at h
    next e' k hstep =>
      cases h
      exact ⟨m, s, left, k, rfl, hstep, rfl, rfl⟩
    next => cases h
  next => cases h

/-- The main thread opens scopes that need three nodes each. -/
def exhausting : Program :=
  ⟨#[.constant (.number .zero), .enterScope 1, .enterScope 1, .halt]⟩

/-- Two nodes are left for the second scope.  They are taken before the third one is refused. -/
theorem leaves_no_trace_exhausting : ∃ m before s left after,
    Machine.create { heapWords := 200, seed := 7 } standardBuiltins = .ok m ∧
      Reaches exhausting (begin m (.create 15 7)) (running before s left) ∧
      before.step exhausting = .error .heapExhausted after ∧
      before.heap.freeCount = 2 ∧ after.heap.freeCount = 0 ∧ before.Unchanged after := by
  obtain ⟨m, hcreate, heq⟩ := exists_sample
  have hfails : (sample.after exhausting 3).failure? exhausting = some (.heapExhausted, 2, 0) := by
    decide +kernel
  have hreach := reaches_after exhausting (begin m (.create 15 7)) 3
  rw [heq] at hfails
  obtain ⟨before, s, left, after, hrun, hstep, hfree, hempty⟩ := exists_of_failure? hfails
  rw [hrun] at hreach
  exact ⟨m, before, s, left, after, hcreate, hreach, hstep, hfree, hempty,
    leaves_no_trace hcreate exhausting hreach hstep rfl⟩

end Run

end ChannelMachine

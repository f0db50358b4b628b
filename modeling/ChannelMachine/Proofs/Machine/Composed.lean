import ChannelMachine.Proofs.Machine.Tolerance

/-!
# What instructions are made of

An instruction is put together from parts that look at the machine, drop operands, move on or refuse what
they find, and from parts that do one of six things more (`Deed`).  `Composed D x` says that an action is
made of such parts and does no deeds but those in `D`, and `Instruction.deeds` lists the deeds of each
instruction (`composed_execute`).  What holds of all actions that make no nodes, or that do not print, is
proved for the parts only; that an action is such a one is read off its deeds.
-/

namespace ChannelMachine

/-- Whether a fault is one of an allocation. -/
def Fault.isMemory : Fault → Bool
  | .heapExhausted | .nodeTooLarge _ => true
  | _ => false

/-- Whether a fault refuses what an instruction found: not for the type of an element, and neither for
want of memory nor of threads. -/
def Fault.isPlain : Fault → Bool
  | .heapExhausted | .nodeTooLarge _ | .channelItemType .. | .deadlock => false
  | _ => true

namespace Fault

variable {e : Fault}

theorem isMemory_of_isPlain (he : e.isPlain = true) : e.isMemory = false := by
  cases e with
  | heapExhausted | nodeTooLarge => cases he
  | _ => rfl

theorem isMismatch_of_isPlain (he : e.isPlain = true) : e.isMismatch = false := by
  cases e with
  | channelItemType => cases he
  | _ => rfl

theorem ne_deadlock_of_isPlain (he : e.isPlain = true) : e ≠ .deadlock := by
  rintro rfl
  cases he

end Fault

/-- An action that never runs out of memory. -/
structure Frugal {σ α : Type} (x : EStateM Fault σ α) : Prop where
  /-- Whatever the fault, it has another cause. -/
  ensures : ∀ s, Ensures x s (fun _ _ => True) fun e _ => e.isMemory = false

/-! ## Plain faults -/

namespace Heap

variable {h : Heap} {e : Fault}

theorem isPlain_of_lookup {environment : Address} {p : Position}
    (he : h.lookup environment p = .error e) : e.isPlain = true := by
  unfold lookup at he
  split at he
  next => cases he
  next =>
    obtain rfl := Except.error.inj he
    rfl

theorem isPlain_of_needNumber {a : Address} (he : h.needNumber a = .error e) : e.isPlain = true := by
  unfold needNumber at he
  split at he
  next => cases he
  next =>
    obtain rfl := Except.error.inj he
    rfl

theorem isPlain_of_needNumbers {a b : Address} (he : h.needNumbers a b = .error e) :
    e.isPlain = true := by
  unfold needNumbers at he
  split at he
  next hfirst =>
    obtain rfl := Except.error.inj he
    exact isPlain_of_needNumber hfirst
  next hsecond _ =>
    obtain rfl := Except.error.inj he
    exact isPlain_of_needNumber hsecond
  next => cases he

theorem isPlain_of_lengthOf {a : Address} (he : h.lengthOf a = .error e) : e.isPlain = true := by
  unfold lengthOf at he
  split at he
  next => cases he
  next => cases he
  next =>
    obtain rfl := Except.error.inj he
    rfl

theorem ensures_assign (environment : Address) (p : Position) (value : Address)
    {good : Unit → Heap → Prop} {bad : Fault → Heap → Prop} (hgood : ∀ k, good () k)
    (hbad : ∀ e, e.isPlain = true → bad e h) : Ensures (assign environment p value) h good bad := by
  unfold Ensures assign
  cases h.slotOf? environment p with
  | none => exact hbad _ rfl
  | some slot => exact hgood _

end Heap

/-! ## Deeds -/

/-- What an instruction does beside dropping operands, moving on and refusing what it finds. -/
inductive Deed where
  /-- It pushes an operand. -/
  | push
  /-- It makes nodes. -/
  | make
  /-- It writes into nodes that are there. -/
  | write
  /-- It prints. -/
  | print
  /-- It starts, wakes or queues threads. -/
  | meet
  /-- It tells types of elements apart. -/
  | compare
deriving DecidableEq, Repr

namespace Machine

variable {α β : Type} {D : Deed → Prop}

/-- What parts of instructions do to threads is done outside of the heap, the registers and the
output. -/
structure Meeting (m k : Machine) : Prop where
  /-- The heap. -/
  heap : k.heap = m.heap
  /-- The registers. -/
  registers : k.registers = m.registers
  /-- What was printed. -/
  output : k.output = m.output

/-- An action that is made of parts of instructions, and does no other deeds than some. -/
inductive Composed (D : Deed → Prop) : {α : Type} → Action α → Prop where
  /-- Nothing is done. -/
  | pure {α : Type} (a : α) : Composed D (Pure.pure a : Action α)
  /-- One action after the other. -/
  | bind {α β : Type} {x : Action α} {f : α → Action β} (hx : Composed D x)
      (hf : ∀ a, Composed D (f a)) : Composed D (x >>= f)
  /-- Something is refused. -/
  | throw {α : Type} {e : Fault} (he : e.isPlain = true) :
      Composed D (MonadExcept.throw e : Action α)
  /-- The machine is looked at. -/
  | get : Composed D (MonadState.get : Action Machine)
  /-- The registers are looked at. -/
  | registersNow : Composed D registersNow
  /-- What is done depends on something that is looked up in the heap. -/
  | read {α β : Type} {f : Heap → α} {g : α → Action β} (hg : ∀ h, Composed D (g (f h))) :
      Composed D (readHeap f >>= g)
  /-- An operand is taken off. -/
  | pop : Composed D pop
  /-- The registers change, and operands are dropped at most. -/
  | move {f : Registers → Registers} (hf : ∀ r, (f r).stack ⊆ r.stack) :
      Composed D (setRegisters f)
  /-- An operand is pushed. -/
  | push {f : Registers → Registers} (h : D .push) : Composed D (setRegisters f)
  /-- Nodes are made. -/
  | make {α : Type} {action : Roots → Heap.Action α} (h : D .make)
      (hx : ∀ roots, Tolerant (action roots)) : Composed D (onHeap action)
  /-- A variable is written. -/
  | assign {environment a : Address} {p : Position} (h : D .write) :
      Composed D (onHeap fun _ => Heap.assign environment p a)
  /-- A node is written. -/
  | write {f : Heap → Heap} (h : D .write) : Composed D (updateHeap f)
  /-- Something is printed. -/
  | print {text : String} (h : D .print) : Composed D (print text)
  /-- Something is done to threads. -/
  | meet {α : Type} {f : Machine → α × Machine} (h : D .meet) (hf : ∀ m, Meeting m (f m).2) :
      Composed D (MonadStateOf.modifyGet f : Action α)
  /-- An element has the wrong type. -/
  | compare {α : Type} {expected got : Tag} (h : D .compare) :
      Composed D (MonadExcept.throw (.channelItemType expected got) : Action α)

namespace Composed

theorem throw_bind {e : Fault} (he : e.isPlain = true) (f : α → Action β) :
    Composed D (MonadExcept.throw e >>= f) :=
  show Composed D (MonadExcept.throw e : Action β) from .throw he

theorem mono {D' : Deed → Prop} {x : Action α} (hx : Composed D x) (hD : ∀ d, D d → D' d) :
    Composed D' x := by
  induction hx with
  | pure a => exact .pure a
  | bind _ _ ihx ihf => exact .bind ihx ihf
  | throw he => exact .throw he
  | get => exact .get
  | registersNow => exact .registersNow
  | read _ ih => exact .read ih
  | pop => exact .pop
  | move hf => exact .move hf
  | push h => exact .push (hD _ h)
  | make h hx => exact .make (hD _ h) hx
  | assign h => exact .assign (hD _ h)
  | write h => exact .write (hD _ h)
  | print h => exact .print (hD _ h)
  | meet h hf => exact .meet (hD _ h) hf
  | compare h => exact .compare (hD _ h)

/-- The faults of an action: plain ones, and those of its deeds. -/
theorem ensures_fault {Q : Fault → Prop} {x : Action α} (hx : Composed D x)
    (hplain : ∀ e, e.isPlain = true → Q e) (hmake : D .make → ∀ e, e.isMismatch = false → Q e)
    (hcompare : D .compare → ∀ expected got, Q (.channelItemType expected got)) (m : Machine) :
    Ensures x m (fun _ _ => True) fun e _ => Q e := by
  induction hx generalizing m with
  | pure | get | registersNow | move | push | write | print | meet => trivial
  | bind _ _ ihx ihf => exact .bind ((ihx m).mono (fun a k _ => ihf a k) fun _ _ h => h)
  | throw he => exact hplain _ he
  | read _ ih => exact .bind (ensures_readHeap (ih m.heap m))
  | pop => exact ensures_pop (fun _ _ _ => trivial) fun _ => hplain _ rfl
  | make h htolerant =>
    exact ensures_onHeap (((htolerant _).ensures _).mono (fun _ _ _ => trivial)
      fun e _ he => hmake h e he)
  | assign => exact ensures_onHeap (Heap.ensures_assign _ _ _ (fun _ => trivial) fun e => hplain e)
  | compare h => exact hcompare h _ _

/-- An action that tells no types apart is tolerant. -/
theorem tolerant {x : Action α} (hx : Composed D x) (hD : ¬ D .compare) : Tolerant x :=
  ⟨hx.ensures_fault (fun _ => Fault.isMismatch_of_isPlain) (fun _ _ h => h) fun h => absurd h hD⟩

/-- An action that makes no nodes is frugal. -/
theorem frugal {x : Action α} (hx : Composed D x) (hD : ¬ D .make) : Frugal x :=
  ⟨hx.ensures_fault (fun _ => Fault.isMemory_of_isPlain) (fun h => absurd h hD) fun _ _ _ => rfl⟩

end Composed

/-! ### Threads -/

theorem meeting_note {m k : Machine} (h : Meeting m k) (e : Event) : Meeting m (k.note e) := by
  unfold note
  split
  · exact ⟨h.heap, h.registers, h.output⟩
  · exact h

theorem composed_update {f : Machine → Machine} (h : D .meet) (hf : ∀ m, Meeting m (f m)) :
    Composed D (update f) := .meet h hf

theorem composed_start (h : D .meet) (r : Registers) : Composed D (start r) := by
  refine composed_update h fun m => ?_
  refine meeting_note ?_ _
  exact ⟨rfl, rfl, rfl⟩

theorem composed_wake (h : D .meet) (t : ThreadId) : Composed D (wake t) := by
  refine composed_update h fun m => ?_
  refine meeting_note ?_ _
  exact ⟨rfl, rfl, rfl⟩

theorem composed_waitAt (h : D .meet) (side : Side) (a : Address) : Composed D (waitAt side a) :=
  composed_update h fun _ => ⟨rfl, rfl, rfl⟩

theorem composed_wakeAt (h : D .meet) (side : Side) (a : Address) : Composed D (wakeAt side a) := by
  refine .bind (.meet h fun _ => ⟨rfl, rfl, rfl⟩) fun t => ?_
  split
  · exact composed_wake h _
  · exact .pure _

theorem composed_wakeAll (h : D .meet) (ts : List ThreadId) : Composed D (wakeAll ts) := by
  induction ts with
  | nil => exact .pure _
  | cons t rest ih => exact .bind (composed_wake h t) fun _ => ih

/-! ### Registers -/

theorem composed_advance : Composed D advance := .move fun _ => List.Subset.refl _

theorem composed_goTo (pc : Nat) : Composed D (goTo pc) := .move fun _ => List.Subset.refl _

theorem composed_peek (depth : Nat) : Composed D (peek depth) := by
  refine .bind .registersNow fun r => ?_
  split
  · exact .pure _
  · exact .throw rfl

theorem composed_drop : Composed D drop := .bind .pop fun _ => composed_advance

theorem composed_push_advance (h : D .push) (a : Address) : Composed D (do push a; advance) :=
  .bind (.push h) fun _ => composed_advance

theorem composed_replace_advance (h : D .push) (n : Nat) (a : Address) :
    Composed D (do replace n a; advance) := .bind (.push h) fun _ => composed_advance

theorem composed_need {f : Heap → Except Fault α}
    (hf : ∀ h e, f h = .error e → e.isPlain = true) : Composed D (need f) := by
  refine .read fun h => ?_
  cases hresult : f h with
  | ok x => exact .pure x
  | error e => exact .throw (hf h e hresult)

/-! ### Values, variables and scopes -/

theorem composed_constant (hmake : D .make) (hpush : D .push) (l : Literal) :
    Composed D (constant l) := by
  unfold constant
  cases l with
  | number x =>
    exact .bind (.make hmake fun _ => Heap.tolerant_newNumber ..) (composed_push_advance hpush)
  | text s =>
    exact .bind (.make hmake fun _ => Heap.tolerant_newString ..) (composed_push_advance hpush)
  | bool b => exact .bind (.pure _) (composed_push_advance hpush)
  | null => exact .bind (.pure _) (composed_push_advance hpush)
  | undefined => exact .bind (.pure _) (composed_push_advance hpush)

theorem composed_unary (hmake : D .make) (hpush : D .push) (op : UnaryOp) : Composed D (unary op) :=
  .bind (composed_peek 0) fun _ => .bind (.make hmake fun _ => Heap.tolerant_applyUnary ..)
    fun _ => composed_replace_advance hpush _ _

theorem composed_binary (hmake : D .make) (hpush : D .push) (op : BinaryOp) :
    Composed D (binary op) :=
  .bind (composed_peek 0) fun _ => .bind (composed_peek 1) fun _ =>
    .bind (.make hmake fun _ => Heap.tolerant_applyBinary ..) fun _ =>
    composed_replace_advance hpush _ _

theorem composed_load (hpush : D .push) (p : Position) : Composed D (load p) := by
  refine .bind .registersNow fun r => .read fun h => ?_
  split
  next fault hfault => exact .throw (Heap.isPlain_of_lookup hfault)
  next a _ =>
    dsimp only
    split
    · exact .throw_bind rfl _
    · exact composed_push_advance hpush a

theorem composed_store (hwrite : D .write) (p : Position) : Composed D (store p) :=
  .bind (composed_peek 0) fun _ => .bind .registersNow fun _ => .bind (.assign hwrite) fun _ =>
    composed_advance

theorem composed_enterScope (hmake : D .make) (slots : Nat) : Composed D (enterScope slots) :=
  .bind .registersNow fun _ => .bind (.make hmake fun _ => Heap.tolerant_newScope ..)
    fun _ => .move fun _ => List.Subset.refl _

theorem composed_exitScope : Composed D exitScope := by
  refine .bind .registersNow fun r => ?_
  split
  · exact .throw rfl
  · refine .bind (.move fun _ => List.Subset.refl _) fun _ => .read fun h => ?_
    split
    · exact .read fun _ => .move fun _ => List.Subset.refl _
    · exact .throw rfl

theorem composed_exitScopes (n : Nat) : Composed D (exitScopes n) := by
  induction n with
  | zero => exact .pure _
  | succ n ih => exact .bind composed_exitScope fun _ => ih

theorem composed_leaveLoop (closed target : Nat) : Composed D (leaveLoop closed target) :=
  .bind (composed_exitScopes _) fun _ => composed_goTo _

theorem composed_leave (program : Program) (isBreak : Bool) : Composed D (leave program isBreak) := by
  refine .bind .registersNow fun r => ?_
  split
  · exact .bind (composed_leaveLoop _ _) fun _ => .pure _
  · exact .throw rfl
  · exact .pure _

theorem composed_jumpUnless (target : Nat) : Composed D (jumpUnless target) := by
  refine .bind .pop fun a => .read fun h => ?_
  split
  · exact composed_advance
  · exact composed_goTo _
  · exact .read fun _ => .throw rfl

/-! ### Functions and calls -/

theorem composed_closure (hmake : D .make) (hpush : D .push) (arity entry : Nat) :
    Composed D (closure arity entry) :=
  .bind .registersNow fun _ => .bind (.make hmake fun _ => .bind (Heap.tolerant_allocate ..)
    fun _ => .bind (.modifyGet _) fun _ => .pure _) (composed_push_advance hpush)

theorem composed_ret : Composed D ret := by
  refine .bind .registersNow fun r => .read fun h => ?_
  split
  · exact .bind (.move fun _ => List.Subset.refl _) fun _ => .throw rfl
  · exact .read fun _ => .read fun _ => .move fun _ => List.Subset.refl _

theorem composed_argumentsNow (n : Nat) : Composed D (argumentsNow n) :=
  .bind .registersNow fun _ => .pure _

theorem composed_printAll (hprint : D .print) (as : List Address) : Composed D (printAll as) := by
  induction as with
  | nil => exact .pure _
  | cons a rest ih => exact .read fun _ => .bind (.print hprint) fun _ => ih

/-- Only two builtins print. -/
theorem composed_runBuiltin (hmake : D .make) {b : Builtin}
    (hprint : b = .print ∨ b = .println → D .print) (arguments : List Address) :
    Composed D (runBuiltin b arguments) := by
  have hnumber (x : Number) : Composed D (onHeap (Heap.newNumber x)) :=
    .make hmake fun _ => Heap.tolerant_newNumber ..
  unfold runBuiltin
  split
  · exact .bind (composed_printAll (hprint (.inl rfl)) _) fun _ => .pure _
  · have h := hprint (.inr rfl)
    exact .bind (composed_printAll h _) fun _ => .bind (.print h) fun _ => .pure _
  · exact .bind (composed_need fun _ _ => Heap.isPlain_of_lengthOf) fun _ => hnumber _
  · exact .bind (composed_need fun _ _ => Heap.isPlain_of_needNumber) fun _ => hnumber _
  · exact .bind (composed_need fun _ _ => Heap.isPlain_of_needNumbers) fun _ => hnumber _
  · exact .bind (composed_need fun _ _ => Heap.isPlain_of_needNumbers) fun _ => hnumber _
  · exact .read fun _ => .make hmake fun _ => Heap.tolerant_newString ..
  · exact .throw rfl

/-- What follows a call of a builtin. -/
theorem composed_finish (tail : Bool) : Composed D (if tail then ret else advance) := by
  split
  · exact composed_ret
  · exact composed_advance

theorem composed_callBuiltin (hmake : D .make) (hprint : D .print) (hpush : D .push) (slot n : Nat)
    (tail : Bool) : Composed D (callBuiltin slot n tail) := by
  refine .bind .get fun m => ?_
  split
  · exact .throw rfl
  dsimp only
  split
  · exact .throw_bind rfl _
  exact .bind (composed_argumentsNow n) fun _ =>
    .bind (composed_runBuiltin hmake (fun _ => hprint) _) fun _ => .bind (.push hpush) fun _ =>
    composed_finish tail

theorem composed_callClosure (hmake : D .make) (function : Address) (n : Nat) (tail : Bool) :
    Composed D (callClosure function n tail) := by
  refine .read fun h => ?_
  dsimp only
  split
  · exact .throw_bind rfl _
  refine .read fun _ => .read fun _ => .bind (composed_argumentsNow n) fun arguments => ?_
  split
  · exact .bind (.make hmake fun _ => Heap.tolerant_newArguments ..) fun _ =>
      .bind .registersNow fun _ => .read fun _ => .move fun _ => List.drop_subset _ _
  · exact .bind .registersNow fun _ => .bind (.make hmake fun _ => Heap.tolerant_newCall ..)
      fun _ => .move fun _ => List.drop_subset _ _

theorem composed_call (hmake : D .make) (hprint : D .print) (hpush : D .push) (n : Nat)
    (tail : Bool) : Composed D (call n tail) := by
  refine .bind (composed_peek n) fun a => .read fun h => ?_
  split
  · exact .read fun _ => composed_callBuiltin hmake hprint hpush _ n tail
  · exact composed_callClosure hmake _ n tail
  · exact .throw rfl

theorem composed_spawn (hmeet : D .meet) (hpush : D .push) (n : Nat) : Composed D (spawn n) := by
  refine .bind .registersNow fun r => ?_
  dsimp only
  split
  · exact .throw_bind rfl _
  · exact .bind (composed_start hmeet _) fun _ => .bind (.push hpush) fun _ => composed_goTo _

/-! ### Channels and wait-groups -/

theorem composed_newChannel (hmake : D .make) (hmeet : D .meet) (hpush : D .push) (capacity : Nat) :
    Composed D (newChannel capacity) :=
  .bind (.make hmake fun _ => Heap.tolerant_newChannel ..) fun a =>
    .bind (composed_update hmeet fun _ => ⟨rfl, rfl, rfl⟩) fun _ => composed_push_advance hpush a

theorem composed_newWaitGroup (hmake : D .make) (hmeet : D .meet) (hpush : D .push) :
    Composed D newWaitGroup :=
  .bind (.make hmake fun _ => Heap.tolerant_newWaitGroup ..) fun a =>
    .bind (composed_update hmeet fun _ => ⟨rfl, rfl, rfl⟩) fun _ => composed_push_advance hpush a

theorem composed_needChannel (a : Address) : Composed D (needChannel a) := by
  refine .read fun h => ?_
  split
  · exact .throw rfl
  · exact .pure _

theorem composed_needWaitGroup (a : Address) : Composed D (needWaitGroup a) := by
  refine .read fun h => ?_
  split
  · exact .throw rfl
  · exact .pure _

theorem composed_checkElement (hwrite : D .write) (hcompare : D .compare) (channel value : Address) :
    Composed D (checkElement channel value) := by
  refine .read fun _ => .read fun h => ?_
  split
  · exact .write hwrite
  · split
    · exact .compare hcompare
    · exact .pure _

/-- A send whose value was checked tells no types apart. -/
theorem composed_accepting (hwrite : D .write) (hmeet : D .meet) (hpush : D .push)
    (channel value : Address) : Composed D (do
      if ← readHeap (·.isFull channel) then
        waitAt .writer channel
        return Progress.blocked
      updateHeap (·.channelPush channel value)
      replace 2 Heap.undefined
      advance
      wakeAt .reader channel
      if ← readHeap (·.isUnbuffered channel) then
        waitAt .sender channel
        return Progress.blocked
      return Progress.advanced) := by
  refine .read fun h => ?_
  split
  · exact .bind (composed_waitAt hmeet _ _) fun _ => .pure _
  refine .bind (.write hwrite) fun _ => .bind (.push hpush) fun _ => .bind composed_advance fun _ =>
    .bind (composed_wakeAt hmeet _ _) fun _ => .read fun h => ?_
  split
  · exact .bind (composed_waitAt hmeet _ _) fun _ => .pure _
  · exact .pure _

theorem composed_send (hwrite : D .write) (hmeet : D .meet) (hpush : D .push)
    (hcompare : D .compare) : Composed D send := by
  refine .bind (composed_peek 0) fun value => .bind (composed_peek 1) fun channel =>
    .bind (composed_needChannel _) fun _ => .bind .get fun m => ?_
  have hrest := composed_accepting hwrite hmeet hpush channel value
  split
  · exact .bind (composed_checkElement hwrite hcompare _ _) fun _ => hrest
  · exact hrest

theorem composed_receive (hwrite : D .write) (hmeet : D .meet) (hpush : D .push) :
    Composed D receive := by
  refine .bind (composed_peek 0) fun channel => .bind (composed_needChannel _) fun _ =>
    .read fun h => ?_
  dsimp only
  split
  · exact .bind (composed_waitAt hmeet _ _) fun _ => .pure _
  have hlast : Composed D (do
      wakeAt .writer channel
      return Progress.advanced) := .bind (composed_wakeAt hmeet _ _) fun _ => .pure _
  refine .read fun _ => .bind (.write hwrite) fun _ => .bind (.push hpush) fun _ =>
    .bind composed_advance fun _ => .read fun h => ?_
  split
  · exact .bind (composed_wakeAt hmeet _ _) fun _ => hlast
  · exact hlast

theorem composed_adjust (hwrite : D .write) (hmeet : D .meet) (group : Address) (delta : Number) :
    Composed D (adjust group delta) := by
  refine .bind .get fun m => ?_
  dsimp only
  split
  · exact .throw_bind rfl _
  refine .read fun h => ?_
  split
  · exact .throw_bind rfl _
  refine .bind (.write hwrite) fun _ => ?_
  split
  · exact .bind (composed_update hmeet fun _ => ⟨rfl, rfl, rfl⟩) fun _ => composed_wakeAll hmeet _
  · exact .pure _

theorem composed_groupAdd (hwrite : D .write) (hmeet : D .meet) (hpush : D .push) :
    Composed D groupAdd := by
  refine .bind (composed_peek 0) fun delta => .bind (composed_peek 1) fun group =>
    .bind (composed_needWaitGroup _) fun _ => .read fun h => ?_
  split
  · exact .read fun _ => .throw rfl
  · exact .bind (composed_adjust hwrite hmeet _ _) fun _ => composed_replace_advance hpush _ _

theorem composed_groupDone (hwrite : D .write) (hmeet : D .meet) (hpush : D .push) :
    Composed D groupDone :=
  .bind (composed_peek 0) fun _ => .bind (composed_needWaitGroup _) fun _ =>
    .bind (composed_adjust hwrite hmeet _ _) fun _ => composed_replace_advance hpush _ _

theorem composed_groupWait (hmeet : D .meet) (hpush : D .push) : Composed D groupWait := by
  refine .bind (composed_peek 0) fun group => .bind (composed_needWaitGroup _) fun _ =>
    .read fun h => ?_
  split
  · exact .bind (composed_update hmeet fun _ => ⟨rfl, rfl, rfl⟩) fun _ => .pure _
  · exact .bind (.push hpush) fun _ => .bind composed_advance fun _ => .pure _

theorem composed_halt : Composed D halt := .bind .registersNow fun _ => .pure _

end Machine

/-! ## Instructions -/

/-- What an instruction may do. -/
def Instruction.deeds : Instruction → List Deed
  | .load _ => [.push]
  | .store _ => [.write]
  | .enterScope _ => [.make]
  | .constant _ | .closure .. | .unary _ | .binary _ => [.make, .push]
  | .call _ | .tailCall _ => [.make, .print, .push]
  | .spawn _ | .groupWait => [.meet, .push]
  | .newChannel _ | .newWaitGroup => [.make, .meet, .push]
  | .receive | .groupAdd | .groupDone => [.write, .meet, .push]
  | .send => [.write, .meet, .push, .compare]
  | .ret | .exitScope | .pop | .jumpUnless _ | .jump _ | .loopEnd _ | .breakLoop | .continueLoop
  | .endThread | .halt => []

namespace Machine

theorem Composed.proceed {D : Deed → Prop} {x : Action Unit} (hx : Composed D x) :
    Composed D (proceed x) := hx.bind fun _ => .pure _

/-- An instruction does no other deeds than its own. -/
theorem composed_execute (program : Program) (i : Instruction) :
    Composed (i.deeds.contains · = true) (execute program i) := by
  cases i with
  | constant l => exact .proceed (composed_constant (by rfl) (by rfl) l)
  | load p => exact .proceed (composed_load (by rfl) p)
  | store p => exact .proceed (composed_store (by rfl) p)
  | closure arity entry => exact .proceed (composed_closure (by rfl) (by rfl) arity entry)
  | call n => exact .proceed (composed_call (by rfl) (by rfl) (by rfl) n false)
  | tailCall n => exact .proceed (composed_call (by rfl) (by rfl) (by rfl) n true)
  | ret => exact .proceed composed_ret
  | enterScope n => exact .proceed (composed_enterScope (by rfl) n)
  | exitScope => exact .proceed (composed_exitScope.bind fun _ => composed_advance)
  | pop => exact .proceed composed_drop
  | unary op => exact .proceed (composed_unary (by rfl) (by rfl) op)
  | binary op => exact .proceed (composed_binary (by rfl) (by rfl) op)
  | jumpUnless target => exact .proceed (composed_jumpUnless target)
  | jump target => exact .proceed (composed_goTo target)
  | loopEnd _ => exact .proceed composed_advance
  | breakLoop => exact composed_leave program true
  | continueLoop => exact composed_leave program false
  | spawn n => exact .proceed (composed_spawn (by rfl) (by rfl) n)
  | endThread => exact .pure _
  | newChannel capacity =>
    exact .proceed (composed_newChannel (by rfl) (by rfl) (by rfl) capacity)
  | send => exact composed_send (by rfl) (by rfl) (by rfl) (by rfl)
  | receive => exact composed_receive (by rfl) (by rfl) (by rfl)
  | newWaitGroup => exact .proceed (composed_newWaitGroup (by rfl) (by rfl) (by rfl))
  | groupAdd => exact .proceed (composed_groupAdd (by rfl) (by rfl) (by rfl))
  | groupDone => exact .proceed (composed_groupDone (by rfl) (by rfl) (by rfl))
  | groupWait => exact composed_groupWait (by rfl) (by rfl)
  | halt => exact composed_halt

/-- No instruction but a send refuses a value for its type. -/
theorem tolerant_execute (program : Program) {i : Instruction} (hi : i ≠ .send) :
    Tolerant (execute program i) := by
  refine (composed_execute program i).tolerant ?_
  cases i with
  | send => exact absurd rfl hi
  | _ => exact Bool.false_ne_true

end Machine

end ChannelMachine

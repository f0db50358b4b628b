import ChannelMachine.Proofs.Heap.Meeting
import ChannelMachine.Proofs.Machine.Composed
import ChannelMachine.Proofs.Machine.Queues
import ChannelMachine.Proofs.Machine.Safety

/-!
# Instructions that are about one thread

Most instructions change the registers and the heap only.  No thread starts, waits or is woken, and
every channel and every wait-group stays what it is (`Apart`).  The proof goes by the parts of an
instruction.  Parts without an allocation leave even the heap as it is (`Still`), whatever the machine;
an instruction has at most one part that allocates or writes, and this one spares what is not its
business (`Heap.Spares`).

No instruction ends in the fault that stands for a deadlock; only the scheduler reports that.
-/

namespace ChannelMachine

namespace Heap

/-! ## Actions on the heap -/

section Sparing

variable {h k : Heap} {α β : Type}

/-- What an action on a heap leaves behind spares all channels and wait-groups. -/
def Sparing (x : Action α) (h : Heap) (roots : List Address) : Prop :=
  Ensures x h (fun _ k => Spares h k roots fun _ => False)
    (fun e k => e ≠ .deadlock ∧ Spares h k roots fun _ => False)

variable {roots : Roots}

/-- Actions that make plain nodes are sparing. -/
theorem Sound.sparing (hs : h.Sound) (hroots : ∀ a ∈ roots.get, h.InUse a) {x : Action α}
    (hgrows : Ensures x h (fun _ k => Grows h k roots.get)
      (fun e k => e ≠ .deadlock ∧ Grows h k roots.get))
    {values : Address → Prop} (hadds : Adds values x h) : Sparing x h roots.get := by
  refine (hgrows.and hadds).mono ?_ ?_
  · exact fun _ _ ⟨grows, adds⟩ => .of_addsPlain hs hroots grows adds
  · exact fun _ _ ⟨⟨hne, grows⟩, adds⟩ => ⟨hne, .of_addsPlain hs hroots grows adds⟩

theorem Sparing.get {f : Heap → Action α} (hf : Sparing (f h) h roots.get) :
    Sparing (do f (← get)) h roots.get :=
  .bind (.get hf)

section Values

variable (hs : h.Sound) (hroots : ∀ a ∈ roots.get, h.InUse a)

include hs hroots

theorem Sound.sparing_pure (x : α) : Sparing (pure x) h roots.get := .pure (.refl hs hroots)

theorem Sound.sparing_throw {e : Fault} (he : e ≠ .deadlock) :
    Sparing (throw e : Action α) h roots.get :=
  .throw ⟨he, .refl hs hroots⟩

theorem Sound.sparing_newNumber (x : Number) : Sparing (newNumber x roots) h roots.get :=
  hs.sparing hroots ((hs.newNumber_ensures hroots x).mono (fun _ _ made => made.toGrows)
    fun _ _ refused => ⟨refused.ne_deadlock, refused.toGrows⟩) (hs.adds_newNumber hroots (P := fun _ => True) x)

theorem Sound.sparing_newString (s : String) : Sparing (newString s roots) h roots.get :=
  hs.sparing hroots ((hs.newString_ensures hroots s).mono (fun _ _ made => made.toGrows)
    fun _ _ refused => ⟨refused.1.ne_deadlock, refused.1.toGrows⟩) (hs.adds_newString hroots (P := fun _ => True) s)

theorem Sound.sparing_applyUnary (op : UnaryOp) (a : Address) :
    Sparing (applyUnary op a roots) h roots.get := by
  cases op with
  | neg =>
    refine .get ?_
    split
    next => exact hs.sparing_newNumber hroots _
    next => exact .get (hs.sparing_throw hroots (by simp))
  | not =>
    refine .get ?_
    split
    next => exact hs.sparing_pure hroots _
    next => exact .get (hs.sparing_throw hroots (by simp))

theorem Sound.sparing_badOperands (op : BinaryOp) (a b : Address) :
    Sparing (do throw ((← get).badOperands op a b) : Action Address) h roots.get :=
  .get (hs.sparing_throw hroots (by simp [badOperands]))

theorem Sound.sparing_applyBinary (op : BinaryOp) (a b : Address) :
    Sparing (applyBinary op a b roots) h roots.get := by
  cases op
  case eq | ne => exact .get (hs.sparing_pure hroots _)
  case add =>
    refine .get ?_
    split
    next => exact hs.sparing_newNumber hroots _
    next => exact hs.sparing_newString hroots _
    next => exact hs.sparing_badOperands hroots _ a b
  case lt | le | gt | ge =>
    refine .get ?_
    split
    next => exact hs.sparing_pure hroots _
    next => exact hs.sparing_pure hroots _
    next => exact hs.sparing_badOperands hroots _ a b
  case sub | mul | div | mod =>
    refine .get ?_
    split
    next => exact hs.sparing_newNumber hroots _
    next => exact hs.sparing_badOperands hroots _ a b

end Values

section Environments

variable {environment : Address} (hs : h.Sound) (hroots : ∀ a ∈ roots.get, h.InUse a)
  (hlive : h.Live roots.get environment) (htag : h.tag environment = .environment)

include hs hroots hlive htag

/-- An assignment writes into a frame. -/
theorem Sound.sparing_assign (p : Position) {a : Address} (ha : h.InUse a)
    (hvalue : (h.tag a).isValue = true) : Sparing (assign environment p a) h roots.get := by
  unfold Sparing Ensures assign
  have henv := hs.inUse_of_live hroots hlive
  cases hslot : h.slotOf? environment p with
  | some slot =>
    obtain ⟨frame, i⟩ := slot
    obtain ⟨hframe, hftag, hpos, hlt⟩ := hs.slotOf? henv htag hslot
    have u := hs.setVariable hframe hftag hpos hlt ha hvalue
    exact .of_updated_plain hs hroots u (by rw [hftag]; decide) (by rw [hftag]; rfl)
  | none => exact ⟨by simp, .refl hs hroots⟩

theorem Sound.sparing_newClosure (arity entry : Nat) :
    Sparing (newClosure arity entry environment roots) h roots.get := by
  refine ((hs.newClosure_ensures hroots arity entry hlive htag).and
    (hs.newClosure_inherits hroots arity entry environment)).mono ?_ ?_
  · rintro a k ⟨made, inherits⟩
    refine .of_inherits hs hroots made.toGrows inherits fun b _ hb hmeeting => ?_
    rw [hb, made.toHolds.tag] at hmeeting
    cases hmeeting
  · rintro e k ⟨refused, inherits⟩
    exact ⟨refused.ne_deadlock, .of_inherits hs hroots refused.toGrows inherits
      fun _ _ hnew _ => hnew⟩

theorem Sound.sparing_newScope (slots : Nat) :
    Sparing (newScope environment slots roots) h roots.get :=
  hs.sparing hroots ((hs.newScope_ensures hroots hlive htag slots).mono
    (fun _ _ ⟨_, _, made⟩ => made.toGrows) fun _ _ failed => ⟨failed.ne_deadlock, failed.toGrows⟩)
    (hs.adds_newScope hroots hlive htag (P := fun _ => True) trivial slots)

theorem Sound.sparing_newArguments {arguments : List Nat}
    (harguments : ∀ w ∈ arguments, h.Live roots.get w ∧ (h.tag w).isValue = true) :
    Sparing (newArguments environment arguments roots) h roots.get :=
  hs.sparing hroots ((hs.newArguments_ensures hroots hlive htag harguments).mono
    (fun _ _ ⟨_, made⟩ => made.toGrows) fun _ _ failed => ⟨failed.ne_deadlock, failed.toGrows⟩)
    (hs.adds_newArguments hroots hlive htag harguments (P := fun _ => True) fun _ _ => trivial)

theorem Sound.sparing_newCall (resume : Nat) {captured : Nat}
    (hclive : h.Live roots.get captured) (hctag : h.tag captured = .environment)
    {arguments : List Nat}
    (harguments : ∀ w ∈ arguments, h.Live roots.get w ∧ (h.tag w).isValue = true) :
    Sparing (newCall resume environment captured arguments roots) h roots.get :=
  hs.sparing hroots ((hs.newCall_ensures hroots resume hlive htag hclive hctag harguments).mono
    (fun _ _ ⟨_, _, made⟩ => made.toGrows) fun _ _ failed => ⟨failed.ne_deadlock, failed.toGrows⟩)
    (hs.adds_newCall hroots resume hlive htag hclive hctag harguments (P := fun _ => True)
      fun _ _ => trivial)

end Environments

end Sparing

end Heap

namespace Machine

variable {α β : Type} {m k l : Machine}

/-! ## Machines that differ in registers -/

/-- All but the registers, the output and the events is the same. -/
structure Still (m k : Machine) : Prop where
  /-- The heap. -/
  heap : k.heap = m.heap
  /-- The running thread. -/
  current : k.current = m.current
  /-- The other threads. -/
  threads : k.threads = m.threads
  /-- The number of the next thread. -/
  nextThread : k.nextThread = m.nextThread
  /-- The threads that wait for channels. -/
  channels : k.channels = m.channels
  /-- The threads that wait for wait-groups. -/
  groups : k.groups = m.groups
  /-- The threads that were started or woken. -/
  runnable : k.runnable = m.runnable
  /-- Whether channels are typed. -/
  typedChannels : k.typedChannels = m.typedChannels

theorem Still.trans (first : Still m k) (second : Still k l) : Still m l :=
  ⟨second.heap.trans first.heap, second.current.trans first.current,
    second.threads.trans first.threads, second.nextThread.trans first.nextThread,
    second.channels.trans first.channels, second.groups.trans first.groups,
    second.runnable.trans first.runnable, second.typedChannels.trans first.typedChannels⟩

/-- What an action leaves behind differs in the registers only, whatever the machine. -/
def LeavesStill (x : Action α) : Prop :=
  ∀ m, Ensures x m (fun _ k => Still m k) (fun e k => e ≠ .deadlock ∧ Still m k)

namespace LeavesStill

theorem bind {x : Action α} {f : α → Action β} (hx : LeavesStill x)
    (hf : ∀ a, LeavesStill (f a)) : LeavesStill (x >>= f) := fun m =>
  .bind ((hx m).mono (fun a k hk => (hf a k).mono (fun _ _ h => hk.trans h)
    fun _ _ h => ⟨h.1, hk.trans h.2⟩) fun _ _ h => h)

theorem pure (a : α) : LeavesStill (Pure.pure a : Action α) :=
  fun _ => .pure ⟨rfl, rfl, rfl, rfl, rfl, rfl, rfl, rfl⟩

theorem throw {e : Fault} (he : e ≠ .deadlock) :
    LeavesStill (MonadExcept.throw e : Action α) :=
  fun _ => .throw ⟨he, rfl, rfl, rfl, rfl, rfl, rfl, rfl, rfl⟩

end LeavesStill

theorem still_setRegisters (f : Registers → Registers) : LeavesStill (setRegisters f) :=
  fun _ => ⟨rfl, rfl, rfl, rfl, rfl, rfl, rfl, rfl⟩

/-- An action that neither makes or writes nodes nor has to do with threads differs in the registers
only. -/
theorem Composed.still {x : Action α} (hx : Composed (fun d => d = .push ∨ d = .print) x) :
    LeavesStill x := by
  induction hx with
  | pure a => exact .pure a
  | bind _ _ ihx ihf => exact .bind ihx ihf
  | throw he => exact .throw (Fault.ne_deadlock_of_isPlain he)
  | get | registersNow => exact fun _ => ⟨rfl, rfl, rfl, rfl, rfl, rfl, rfl, rfl⟩
  | read _ ih => exact fun m => .bind (ensures_readHeap (ih m.heap m))
  | pop =>
    exact fun _ => ensures_pop (fun _ _ _ => ⟨rfl, rfl, rfl, rfl, rfl, rfl, rfl, rfl⟩)
      fun _ => ⟨nofun, rfl, rfl, rfl, rfl, rfl, rfl, rfl, rfl⟩
  | move | push => exact still_setRegisters _
  | print => exact fun _ => ⟨rfl, rfl, rfl, rfl, rfl, rfl, rfl, rfl⟩
  | make h | assign h | write h | meet h | compare h => simp at h

theorem still_advance : LeavesStill advance := still_setRegisters _

theorem still_push_advance (a : Address) : LeavesStill (do push a; advance) :=
  .bind (still_setRegisters _) fun _ => still_advance

theorem still_replace_advance (n : Nat) (a : Address) : LeavesStill (do replace n a; advance) :=
  .bind (still_setRegisters _) fun _ => still_advance

/-! ## Machines that are apart -/

/-- No thread was started, waits or was woken, and channels and wait-groups are as they were. -/
structure Apart (m k : Machine) : Prop where
  /-- The running thread. -/
  current : k.current = m.current
  /-- The other threads. -/
  threads : k.threads = m.threads
  /-- The number of the next thread. -/
  nextThread : k.nextThread = m.nextThread
  /-- The threads that wait for channels. -/
  channels : k.channels = m.channels
  /-- The threads that wait for wait-groups. -/
  groups : k.groups = m.groups
  /-- The threads that were started or woken. -/
  runnable : k.runnable = m.runnable
  /-- Whether channels are typed. -/
  typedChannels : k.typedChannels = m.typedChannels
  /-- The heap. -/
  heap : m.heap.Spares k.heap m.roots fun _ => False

theorem Apart.still (apart : Apart m k) (still : Still k l) : Apart m l :=
  ⟨still.current.trans apart.current, still.threads.trans apart.threads,
    still.nextThread.trans apart.nextThread, still.channels.trans apart.channels,
    still.groups.trans apart.groups, still.runnable.trans apart.runnable,
    still.typedChannels.trans apart.typedChannels, still.heap.symm ▸ apart.heap⟩

/-- What an action leaves behind is apart. -/
def LeavesApart (x : Action α) (m : Machine) : Prop :=
  Ensures x m (fun _ k => Apart m k) (fun e k => e ≠ .deadlock ∧ Apart m k)

theorem LeavesApart.bind_still {x : Action α} {f : α → Action β} (hx : LeavesApart x m)
    (hf : ∀ a, LeavesStill (f a)) : LeavesApart (x >>= f) m :=
  .bind (hx.mono (fun a k hk => (hf a k).mono (fun _ _ h => hk.still h)
    fun _ _ h => ⟨h.1, hk.still h.2⟩) fun _ _ h => h)

/-- An action on the heap that is sparing leaves a machine behind that is apart. -/
theorem apart_onHeap {action : Roots → Heap.Action α}
    (h : Heap.Sparing (action (threadRoots m.registers m.threads)) m.heap m.roots) :
    LeavesApart (onHeap action) m := by
  have hall : ∀ k : Heap, m.heap.Spares k m.roots (fun _ => False) → Apart m (m.withHeap k) :=
    fun k spares => ⟨rfl, rfl, rfl, rfl, rfl, rfl, rfl,
      spares.congr (alike_withHeap m k).toSameArena⟩
  refine ensures_onHeap (h.mono ?_ ?_)
  · exact fun _ k spares => hall k spares
  · exact fun _ k ⟨hne, spares⟩ => ⟨hne, hall k spares⟩

namespace Sound

theorem apart (hm : m.Sound) : Apart m m :=
  ⟨rfl, rfl, rfl, rfl, rfl, rfl, rfl, .refl hm.heap hm.inUse_root⟩

theorem leavesApart (hm : m.Sound) {x : Action α} (hx : LeavesStill x) : LeavesApart x m :=
  (hx m).mono (fun _ _ h => hm.apart.still h) fun _ _ h => ⟨h.1, hm.apart.still h.2⟩

/-- The rule for an operand of an instruction that is apart. -/
theorem apart_peek (hm : m.Sound) {depth : Nat} {f : Address → Action β}
    (hf : ∀ a, m.registers.stack[depth]? = some a → LeavesApart (f a) m) :
    LeavesApart (peek depth >>= f) m :=
  .bind (ensures_peek hf fun _ => ⟨by simp, hm.apart⟩)

/-! ## Values and variables -/

theorem apart_newNumber (hm : m.Sound) (x : Number) : LeavesApart (onHeap (Heap.newNumber x)) m :=
  apart_onHeap (hm.heap.sparing_newNumber hm.inUse_roots x)

theorem apart_newString (hm : m.Sound) (s : String) : LeavesApart (onHeap (Heap.newString s)) m :=
  apart_onHeap (hm.heap.sparing_newString hm.inUse_roots s)

theorem apart_constant (hm : m.Sound) (l : Literal) : LeavesApart (constant l) m := by
  unfold constant
  cases l with
  | number x => exact (hm.apart_newNumber x).bind_still still_push_advance
  | text s => exact (hm.apart_newString s).bind_still still_push_advance
  | bool b => exact hm.leavesApart (.bind (.pure _) still_push_advance)
  | null => exact hm.leavesApart (.bind (.pure _) still_push_advance)
  | undefined => exact hm.leavesApart (.bind (.pure _) still_push_advance)

theorem apart_store (hm : m.Sound) (p : Position) : LeavesApart (store p) m := by
  refine hm.apart_peek fun a ha => .bind (ensures_registersNow ?_)
  obtain ⟨hin, hvalue⟩ := hm.isValue_stack ha
  have hassign : Heap.Sparing (Heap.assign m.registers.environment p a) m.heap m.roots :=
    hm.heap.sparing_assign hm.inUse_roots live_environment hm.registers.tag p hin hvalue
  exact (apart_onHeap hassign).bind_still fun _ => still_advance

theorem apart_unary (hm : m.Sound) (op : UnaryOp) : LeavesApart (unary op) m :=
  hm.apart_peek fun a _ =>
    (apart_onHeap (hm.heap.sparing_applyUnary hm.inUse_roots op a)).bind_still
      fun _ => still_replace_advance _ _

theorem apart_binary (hm : m.Sound) (op : BinaryOp) : LeavesApart (binary op) m :=
  hm.apart_peek fun b _ => hm.apart_peek fun a _ =>
    (apart_onHeap (hm.heap.sparing_applyBinary hm.inUse_roots op a b)).bind_still
      fun _ => still_replace_advance _ _

/-! ## Functions and scopes -/

theorem apart_closure (hm : m.Sound) (arity entry : Nat) : LeavesApart (closure arity entry) m :=
  .bind (ensures_registersNow ((apart_onHeap (hm.heap.sparing_newClosure hm.inUse_roots
    live_environment hm.registers.tag arity entry)).bind_still still_push_advance))

theorem apart_enterScope (hm : m.Sound) (slots : Nat) : LeavesApart (enterScope slots) m :=
  .bind (ensures_registersNow ((apart_onHeap (hm.heap.sparing_newScope hm.inUse_roots
    live_environment hm.registers.tag slots)).bind_still fun _ => still_setRegisters _))

theorem apart_runBuiltin (hm : m.Sound) (b : Builtin) (arguments : List Address) :
    LeavesApart (runBuiltin b arguments) m := by
  have hneed : ∀ {γ : Type} (f : Heap → Except Fault γ) (g : γ → Action Address),
      (∀ e, f m.heap = .error e → e.isPlain = true) → (∀ x, LeavesApart (g x) m) →
      LeavesApart (need f >>= g) m := by
    intro γ f g hf hg
    refine .bind (.bind (ensures_readHeap ?_))
    split
    next => exact .pure (hg _)
    next e he => exact .throw ⟨Fault.ne_deadlock_of_isPlain (hf e he), hm.apart⟩
  unfold runBuiltin
  split
  next => exact hm.leavesApart (Composed.still (.bind (composed_printAll (by simp) _) fun _ => .pure _))
  next =>
    exact hm.leavesApart (Composed.still (.bind (composed_printAll (by simp) _) fun _ =>
      .bind (.print (by simp)) fun _ => .pure _))
  next => exact hneed _ _ (fun _ => Heap.isPlain_of_lengthOf) fun _ => hm.apart_newNumber _
  next => exact hneed _ _ (fun _ => Heap.isPlain_of_needNumber) fun _ => hm.apart_newNumber _
  next => exact hneed _ _ (fun _ => Heap.isPlain_of_needNumbers) fun _ => hm.apart_newNumber _
  next => exact hneed _ _ (fun _ => Heap.isPlain_of_needNumbers) fun _ => hm.apart_newNumber _
  next => exact .bind (ensures_readHeap (hm.apart_newString _))
  next => exact .throw ⟨by simp, hm.apart⟩

theorem apart_callBuiltin (hm : m.Sound) (slot n : Nat) (tail : Bool) :
    LeavesApart (callBuiltin slot n tail) m := by
  refine ensures_callBuiltin (fun _ => ⟨by simp, hm.apart⟩) (fun _ _ _ => ⟨by simp, hm.apart⟩)
    fun entry _ _ => ?_
  exact (hm.apart_runBuiltin _ _).bind_still fun result =>
    Composed.still (.bind (.push (by simp)) fun _ => composed_finish tail)

theorem apart_callClosure (hm : m.Sound) {function : Address}
    (hfunction : function ∈ m.registers.stack) (htag : m.heap.tag function = .closure) (n : Nat)
    (tail : Bool) : LeavesApart (callClosure function n tail) m := by
  have harguments := hm.live_arguments n
  refine hm.ensures_callClosure hfunction htag (fun _ => ⟨by simp, hm.apart⟩)
    fun _ hctag hcaptured => .bind (ensures_argumentsNow ?_)
  split
  next =>
    refine (apart_onHeap (hm.heap.sparing_newArguments hm.inUse_roots hcaptured hctag
      harguments)).bind_still fun inside => ?_
    exact Composed.still (.bind .registersNow fun _ => .read fun _ => .push (by simp))
  next =>
    refine .bind (ensures_registersNow ?_)
    exact (apart_onHeap (hm.heap.sparing_newCall hm.inUse_roots live_environment
      hm.registers.tag _ hcaptured hctag harguments)).bind_still fun _ => still_setRegisters _

theorem apart_call (hm : m.Sound) (n : Nat) (tail : Bool) : LeavesApart (call n tail) m := by
  exact ensures_call (fun _ => ⟨by simp, hm.apart⟩) (fun _ _ _ => hm.apart_callBuiltin _ n tail)
    (fun _ ha htag => hm.apart_callClosure (List.mem_of_getElem? ha) htag n tail)
    fun _ => ⟨by simp, hm.apart⟩

end Sound

/-! ## Instructions -/

/-- What an instruction leaves behind is apart, and the thread does not wait. -/
def GoesOnApart (x : Action Progress) (m : Machine) : Prop :=
  Ensures x m (fun p k => p ≠ .blocked ∧ Apart m k) (fun e k => e ≠ .deadlock ∧ Apart m k)

theorem LeavesApart.proceed {x : Action Unit} (hx : LeavesApart x m) :
    GoesOnApart (proceed x) m :=
  .bind (hx.mono (fun _ _ h => .pure ⟨by simp, h⟩) fun _ _ h => h)

theorem Sound.apart_leave (hm : m.Sound) (program : Program) (isBreak : Bool) :
    GoesOnApart (leave program isBreak) m := by
  refine .bind (ensures_registersNow ?_)
  split
  next =>
    exact .bind ((hm.leavesApart (composed_leaveLoop _ _).still).mono (fun _ _ h => .pure ⟨by simp, h⟩)
      fun _ _ h => h)
  next => exact .throw ⟨by simp, hm.apart⟩
  next => exact .pure ⟨by simp, hm.apart⟩

end Machine

/-- Whether an instruction starts a thread or is about a channel or a wait-group. -/
def Instruction.meets : Instruction → Bool
  | .spawn _ | .newChannel _ | .send | .receive | .newWaitGroup | .groupAdd | .groupDone
  | .groupWait => true
  | _ => false

namespace Machine

variable {m : Machine}

/-- An instruction that starts no thread and is about no channel and no wait-group is apart. -/
theorem Sound.apart_execute (hm : m.Sound) (program : Program) {i : Instruction}
    (hi : i.meets = false) : GoesOnApart (execute program i) m := by
  cases i with
  | constant l => exact (hm.apart_constant l).proceed
  | load p => exact (hm.leavesApart (composed_load (by simp) p).still).proceed
  | store p => exact (hm.apart_store p).proceed
  | closure arity entry => exact (hm.apart_closure arity entry).proceed
  | call n => exact (hm.apart_call n false).proceed
  | tailCall n => exact (hm.apart_call n true).proceed
  | ret => exact (hm.leavesApart composed_ret.still).proceed
  | enterScope n => exact (hm.apart_enterScope n).proceed
  | exitScope => exact (hm.leavesApart (composed_exitScope.bind fun _ => composed_advance).still).proceed
  | pop => exact (hm.leavesApart composed_drop.still).proceed
  | unary op => exact (hm.apart_unary op).proceed
  | binary op => exact (hm.apart_binary op).proceed
  | jumpUnless target => exact (hm.leavesApart (composed_jumpUnless target).still).proceed
  | jump target => exact (hm.leavesApart (still_setRegisters _)).proceed
  | loopEnd _ => exact (hm.leavesApart still_advance).proceed
  | breakLoop => exact hm.apart_leave program true
  | continueLoop => exact hm.apart_leave program false
  | endThread => exact .pure ⟨by simp, hm.apart⟩
  | halt => exact .bind (ensures_registersNow (.pure ⟨by simp, hm.apart⟩))
  | spawn _ | newChannel _ | send | receive | newWaitGroup | groupAdd | groupDone | groupWait =>
    cases hi

end Machine

end ChannelMachine

import ChannelMachine.Proofs.Heap.Hiding
import ChannelMachine.Proofs.Machine.Counters

/-!
# No thread gets hold of a counter

A machine is `Veiled` if its heap hides the counters of wait-groups and no operand of a thread is one.
Instructions keep it so: an operand is pushed only if it was just made, is a constant, or was taken out
of a variable or of a slot of a channel, and variables and slots are written with operands only.

Most instructions also leave all live nodes as they are (`Preserves`), also where they end in a fault.
For the five others `Rewrites` lists the words that they may write, and `Marks` tells when the kind of
the elements of a channel may be recorded in its header.
-/

namespace ChannelMachine.Machine

variable {α β : Type} {m k l : Machine}

/-- The heap hides the counters, and no operand of a thread is one. -/
structure Veiled (m : Machine) : Prop where
  /-- The heap. -/
  heap : m.heap.Hides
  /-- The operands of the running thread. -/
  registers : ∀ a ∈ m.registers.stack, ¬ m.heap.Counter a
  /-- The operands of the other threads. -/
  threads : ∀ (t : ThreadId) (r : Registers), m.threads[t]? = some r →
    ∀ a ∈ r.stack, ¬ m.heap.Counter a

/-- The nodes that were live are as they were, with their texts. -/
structure Preserves (m k : Machine) : Prop where
  /-- The header and the words behind it. -/
  node : ∀ a, m.heap.Live m.roots a → Heap.SameNode m.heap k.heap a
  /-- The text. -/
  text : ∀ a, m.heap.Live m.roots a → k.heap.text? a = m.heap.text? a

/-- An action preserves what is live, and no thread gets hold of a counter. -/
def LeavesVeiled (x : Action α) (m : Machine) : Prop :=
  Ensures x m (fun _ k => Preserves m k ∧ k.Veiled) fun _ k => Preserves m k

/-- The same of an action that gives a value, which is no counter. -/
def LeavesShown (x : Action Address) (m : Machine) : Prop :=
  Ensures x m (fun a k => Preserves m k ∧ k.Veiled ∧ ¬ k.heap.Counter a) fun _ k => Preserves m k

theorem preserves_of_eq (heap : k.heap = m.heap) : Preserves m k :=
  ⟨fun a _ => heap ▸ Heap.SameNode.refl m.heap a, fun _ _ => heap ▸ rfl⟩

theorem Preserves.still (preserves : Preserves m k) (still : Still k l) : Preserves m l :=
  ⟨fun a ha => still.heap.symm ▸ preserves.node a ha, fun a ha => still.heap.symm ▸ preserves.text a ha⟩

theorem preserves_withHeap {h : Heap} (g : Heap.Grows m.heap h m.roots) : Preserves m (m.withHeap h) :=
  have alike := alike_withHeap m h
  ⟨fun a ha => (g.node a ha).trans (alike.toSameArena.same a),
    fun a ha => (alike.text? a).trans (g.text a ha)⟩

namespace Veiled

/-- Whatever keeps the counters hidden keeps the other threads from getting one. -/
theorem concealed (veiled : m.Veiled) (conceals : m.heap.Conceals k.heap)
    (threads : k.threads = m.threads) (registers : ∀ a ∈ k.registers.stack, ¬ k.heap.Counter a) :
    k.Veiled where
  heap := conceals.hides veiled.heap
  registers := registers
  threads := by
    intro t r hr a ha hc
    rw [threads] at hr
    exact veiled.threads t r hr a ha (conceals.counter a hc)

/-- Only the heap, the operands and the other threads count. -/
theorem congr (veiled : m.Veiled) (heap : k.heap = m.heap) (threads : k.threads = m.threads)
    (registers : ∀ a ∈ k.registers.stack, ¬ m.heap.Counter a) : k.Veiled :=
  veiled.concealed (heap ▸ .refl _) threads (heap ▸ registers)

theorem withHeap (veiled : m.Veiled) {h : Heap} (quiet : m.heap.Quiet h m.roots) :
    (m.withHeap h).Veiled := by
  have arena := (alike_withHeap m h).toSameArena
  have conceals := quiet.toConceals.trans (.of_arena arena)
  exact veiled.concealed conceals rfl fun a ha hc => veiled.registers a ha (conceals.counter a hc)

end Veiled

/-! ## Operands -/

/-- If all operands satisfy a condition, those that an action leaves behind do. -/
def Within (P : Address → Prop) (x : Action α) : Prop :=
  ∀ m, (∀ a ∈ m.registers.stack, P a) →
    Ensures x m (fun _ k => ∀ a ∈ k.registers.stack, P a) fun _ _ => True

section Within

variable {P : Address → Prop}

theorem Within.bind {x : Action α} {f : α → Action β} (hx : Within P x) (hf : ∀ a, Within P (f a)) :
    Within P (x >>= f) := fun m hm =>
  .bind ((hx m hm).mono (fun a k hk => hf a k hk) fun _ _ _ => trivial)

/-- An action that pushes nothing leaves operands behind that were there. -/
theorem Composed.within {D : Deed → Prop} {x : Action α} (hx : Composed D x) (hD : ¬ D .push) :
    Within P x := by
  induction hx with
  | bind _ _ ihx ihf => exact .bind ihx ihf
  | pure | get | registersNow | write | print => exact fun _ hm => hm
  | throw | compare => exact fun _ _ => trivial
  | read _ ih => exact fun m hm => .bind (ensures_readHeap (ih m.heap m hm))
  | pop =>
    exact fun _ hm => ensures_pop (fun a _ hstack b hb => hm b (hstack ▸ List.mem_cons_of_mem a hb))
      fun _ => trivial
  | move hf => exact fun _ hm => ensures_setRegisters fun a ha => hm a (hf _ ha)
  | push h => exact absurd h hD
  | make | assign =>
    intro m hm
    refine ensures_onHeap ?_
    unfold Ensures
    split
    · exact hm
    · trivial
  | meet _ hf => exact fun m hm => .modifyGet fun a ha => hm a ((hf m).registers ▸ ha)

theorem within_advance : Within P advance := Composed.within (D := fun _ => False) composed_advance id

theorem within_replace (n : Nat) {a : Address} (ha : P a) : Within P (replace n a) := fun m hm =>
  ensures_replace fun b hb => by
    rcases List.mem_cons.1 hb with rfl | hb
    · exact ha
    · exact hm b (List.mem_of_mem_drop hb)

theorem within_push_advance {a : Address} (ha : P a) : Within P (do push a; advance) :=
  .bind (fun m hm => ensures_push fun b hb => by
    rcases List.mem_cons.1 hb with rfl | hb
    · exact ha
    · exact hm b hb) fun _ => within_advance

theorem within_replace_advance (n : Nat) {a : Address} (ha : P a) :
    Within P (do replace n a; advance) :=
  .bind (within_replace n ha) fun _ => within_advance

end Within

/-! ## Rules -/

/-- An action that leaves the heap alone and pushes nothing. -/
theorem Veiled.leaves (veiled : m.Veiled) {x : Action α} (hstill : LeavesStill x)
    (hwithin : Within (¬ m.heap.Counter ·) x) : LeavesVeiled x m :=
  ((hstill m).and (hwithin m veiled.registers)).mono
    (fun _ _ h => ⟨preserves_of_eq h.1.heap, veiled.congr h.1.heap h.1.threads h.2⟩)
    fun _ _ h => preserves_of_eq h.1.2.heap

/-- The same behind an action. -/
theorem LeavesVeiled.bind_still {x : Action α} {f : α → Action β} (hx : LeavesVeiled x m)
    (hstill : ∀ a, LeavesStill (f a)) (hwithin : ∀ (P : Address → Prop) a, Within P (f a)) :
    LeavesVeiled (x >>= f) m :=
  .bind (hx.mono (fun _ k ⟨preserves, veiled⟩ =>
    ((hstill _ k).and (hwithin _ _ k veiled.registers)).mono
      (fun _ _ h => ⟨preserves.still h.1, veiled.congr h.1.heap h.1.threads h.2⟩)
      fun _ _ h => preserves.still h.1.2) fun _ _ h => h)

/-- A value that is no counter may be pushed. -/
theorem LeavesShown.bind_still {x : Action Address} {f : Address → Action β} (hx : LeavesShown x m)
    (hstill : ∀ a, LeavesStill (f a)) (hwithin : ∀ (P : Address → Prop) a, P a → Within P (f a)) :
    LeavesVeiled (x >>= f) m :=
  .bind (hx.mono (fun _ k ⟨preserves, veiled, ha⟩ =>
    ((hstill _ k).and (hwithin _ _ ha k veiled.registers)).mono
      (fun _ _ h => ⟨preserves.still h.1, veiled.congr h.1.heap h.1.threads h.2⟩)
      fun _ _ h => preserves.still h.1.2) fun _ _ h => h)

theorem Veiled.shown_onHeap (veiled : m.Veiled) {action : Roots → Heap.Action Address}
    (h : Heap.Shows (action (threadRoots m.registers m.threads)) m.heap m.roots) :
    LeavesShown (onHeap action) m :=
  ensures_onHeap (h.mono (fun _ k ⟨quiet, ha⟩ => ⟨preserves_withHeap quiet.toGrows,
    veiled.withHeap quiet, fun hc =>
      ha ((Heap.Counter.congr (alike_withHeap m k).toSameArena).1 hc)⟩)
    fun _ _ grows => preserves_withHeap grows)

theorem Veiled.leaves_onHeap (veiled : m.Veiled) {action : Roots → Heap.Action α}
    (h : Ensures (action (threadRoots m.registers m.threads)) m.heap
      (fun _ k => m.heap.Quiet k m.roots) fun _ k => m.heap.Grows k m.roots) :
    LeavesVeiled (onHeap action) m :=
  ensures_onHeap (h.mono
    (fun _ _ quiet => ⟨preserves_withHeap quiet.toGrows, veiled.withHeap quiet⟩)
    fun _ _ grows => preserves_withHeap grows)

/-- An action that prints at most. -/
theorem Veiled.leaves_composed (veiled : m.Veiled) {x : Action α} (hx : Composed (· = .print) x) :
    LeavesVeiled x m :=
  veiled.leaves (hx.mono fun _ => .inr).still (hx.within nofun)

/-- The same behind an action. -/
theorem LeavesVeiled.bind_composed {x : Action α} {f : α → Action β} (hx : LeavesVeiled x m)
    (hf : ∀ a, Composed (· = .print) (f a)) : LeavesVeiled (x >>= f) m :=
  hx.bind_still (fun a => ((hf a).mono fun _ => .inr).still) fun _ a => (hf a).within nofun

theorem LeavesVeiled.throw {e : Fault} : LeavesVeiled (MonadExcept.throw e : Action α) m :=
  Ensures.throw (preserves_of_eq rfl)

theorem LeavesVeiled.throw_bind {e : Fault} {f : β → Action α} :
    LeavesVeiled (MonadExcept.throw e >>= f) m :=
  Ensures.bind (Ensures.throw (preserves_of_eq rfl))

/-- The rule for an operand. -/
theorem LeavesVeiled.peek {depth : Nat} {f : Address → Action β}
    (hf : ∀ a, m.registers.stack[depth]? = some a → LeavesVeiled (f a) m) :
    LeavesVeiled (peek depth >>= f) m :=
  Ensures.bind (ensures_peek hf fun _ => preserves_of_eq rfl)

/-- The rule for starting a thread. -/
theorem ensures_start {r : Registers} {good : Unit → Machine → Prop} {bad : Fault → Machine → Prop}
    (h : ∀ k, k.heap = m.heap → k.registers = m.registers →
      k.threads = m.threads.insert m.nextThread r → good () k) : Ensures (start r) m good bad := by
  obtain ⟨core, -⟩ := sameCore_note { m with
      threads := m.threads.insert m.nextThread r
      nextThread := m.nextThread + 1
      runnable := m.runnable ++ [m.nextThread] } (.spawned m.nextThread m.current)
  exact ensures_update (h _ core.heap core.registers core.threads)

namespace Sound

variable (hm : m.Sound) (veiled : m.Veiled)

include hm veiled

/-! ## Values and variables -/

/-- A constant is pushed. -/
theorem veiled_push_advance {a : Address} (ha : m.heap.tag a ≠ .number) :
    LeavesVeiled (do push a; advance) m :=
  veiled.leaves (still_push_advance a) (within_push_advance (hm.heap.not_counter ha))

theorem veiled_constant (l : Literal) : LeavesVeiled (constant l) m := by
  have hmade : ∀ {action : Roots → Heap.Action Address},
      Heap.Shows (action (threadRoots m.registers m.threads)) m.heap m.roots →
      LeavesVeiled (do let a ← onHeap action; push a; advance) m := fun h =>
    (veiled.shown_onHeap h).bind_still still_push_advance fun _ _ => within_push_advance
  unfold constant
  cases l with
  | number x => exact hmade (hm.heap.shows_newNumber hm.inUse_roots x)
  | text s => exact hmade (hm.heap.shows_newString hm.inUse_roots s)
  | bool b =>
    refine .bind (.pure (hm.veiled_push_advance veiled ?_))
    rw [hm.heap.tag_boolean]
    cases b <;> decide
  | null =>
    refine .bind (.pure (hm.veiled_push_advance veiled ?_))
    rw [hm.heap.tag_null]
    decide
  | undefined =>
    refine .bind (.pure (hm.veiled_push_advance veiled ?_))
    rw [hm.heap.tag_undefined]
    decide

/-- A variable that is read holds no counter. -/
theorem veiled_load (p : Position) : LeavesVeiled (load p) m := by
  refine .bind (ensures_registersNow (.bind (ensures_readHeap ?_)))
  split
  next => exact .throw (preserves_of_eq rfl)
  next a ha =>
    dsimp only
    split
    next => exact LeavesVeiled.throw_bind
    next =>
      refine veiled.leaves (still_push_advance a) (within_push_advance ?_)
      unfold Heap.lookup at ha
      split at ha
      next frame i hslot =>
        obtain ⟨hin, htag, hpos, hlt⟩ := hm.heap.slotOf? hm.registers.inUse hm.registers.tag hslot
        have hrange := Heap.childRange_frame htag
        obtain rfl : m.heap.word frame i = a := Except.ok.inj ha
        exact veiled.heap.slot frame i hin ⟨.inl htag, by rw [hrange]; exact hpos,
          by rw [hrange]; exact hlt⟩
      next => cases ha

theorem veiled_unary (op : UnaryOp) : LeavesVeiled (unary op) m :=
  .peek fun a _ =>
    (veiled.shown_onHeap (hm.heap.shows_applyUnary hm.inUse_roots op a)).bind_still
      (fun _ => still_replace_advance _ _) fun _ _ => within_replace_advance _

theorem veiled_binary (op : BinaryOp) : LeavesVeiled (binary op) m :=
  .peek fun b _ => .peek fun a _ =>
    (veiled.shown_onHeap (hm.heap.shows_applyBinary hm.inUse_roots op a b)).bind_still
      (fun _ => still_replace_advance _ _) fun _ _ => within_replace_advance _

/-! ## Functions and scopes -/

theorem veiled_closure (arity entry : Nat) : LeavesVeiled (closure arity entry) m :=
  .bind (ensures_registersNow ((veiled.shown_onHeap (hm.heap.shows_newClosure hm.inUse_roots
    live_environment hm.registers.tag arity entry)).bind_still still_push_advance
      fun _ _ => within_push_advance))

theorem veiled_enterScope (slots : Nat) : LeavesVeiled (enterScope slots) m :=
  .bind (ensures_registersNow ((veiled.leaves_onHeap (hm.heap.quiet_newScope hm.inUse_roots
    live_environment hm.registers.tag slots)).bind_composed fun _ =>
      .move fun _ => List.Subset.refl _))

theorem shown_runBuiltin (b : Builtin) (arguments : List Address) :
    LeavesShown (runBuiltin b arguments) m := by
  have hnumber : ∀ x, LeavesShown (onHeap (Heap.newNumber x)) m := fun x =>
    veiled.shown_onHeap (hm.heap.shows_newNumber hm.inUse_roots x)
  have hneed : ∀ {γ : Type} (f : Heap → Except Fault γ) (g : γ → Action Address),
      (∀ x, LeavesShown (g x) m) → LeavesShown (need f >>= g) m := by
    intro γ f g hg
    refine .bind (.bind (ensures_readHeap ?_))
    split
    next => exact .pure (hg _)
    next => exact .throw (preserves_of_eq rfl)
  have hundefined : ∀ x : Action Unit, Composed (· = .print) x →
      LeavesShown (do x; return Heap.undefined) m := by
    intro x hx
    have hstill := (hx.mono fun _ => .inr).still m
    refine .bind ((veiled.leaves_composed hx).and hstill |>.mono ?_ fun _ _ h => h.1)
    rintro - k ⟨⟨preserves, hk⟩, still⟩
    refine .pure ⟨preserves, hk, ?_⟩
    rw [still.heap]
    exact hm.heap.not_counter_undefined
  unfold runBuiltin
  split
  next => exact hundefined _ (composed_printAll (by rfl) _)
  next =>
    rw [← bind_assoc]
    exact hundefined _ (.bind (composed_printAll (by rfl) _) fun _ => .print rfl)
  next => exact hneed _ _ fun _ => hnumber _
  next => exact hneed _ _ fun _ => hnumber _
  next => exact hneed _ _ fun _ => hnumber _
  next => exact hneed _ _ fun _ => hnumber _
  next =>
    exact .bind (ensures_readHeap (veiled.shown_onHeap (hm.heap.shows_newString hm.inUse_roots _)))
  next => exact .throw (preserves_of_eq rfl)

theorem veiled_callBuiltin (slot n : Nat) (tail : Bool) : LeavesVeiled (callBuiltin slot n tail) m := by
  refine ensures_callBuiltin (fun _ => preserves_of_eq rfl) (fun _ _ _ => preserves_of_eq rfl)
    fun entry _ _ => ?_
  refine (hm.shown_runBuiltin veiled _ _).bind_still
    (fun result => .bind (still_setRegisters _) fun _ => (composed_finish tail).still)
    fun P result hresult => .bind (within_replace _ hresult) fun _ => ?_
  have composed : Composed (· = .print) (if tail then ret else advance) := composed_finish tail
  exact composed.within nofun

/-- The arguments of a call are operands. -/
theorem veiled_callClosure {function : Address} (hfunction : function ∈ m.registers.stack)
    (htag : m.heap.tag function = .closure) (n : Nat) (tail : Bool) :
    LeavesVeiled (callClosure function n tail) m := by
  have harguments := hm.live_arguments n
  have hcounters : ∀ w ∈ (m.registers.stack.take n).reverse, ¬ m.heap.Counter w := fun w hw =>
    veiled.registers w (List.mem_of_mem_take (List.mem_reverse.1 hw))
  refine hm.ensures_callClosure hfunction htag (fun _ => preserves_of_eq rfl)
    fun _ hctag hcaptured => .bind (ensures_argumentsNow ?_)
  split
  next =>
    refine (veiled.leaves_onHeap (hm.heap.quiet_newArguments hm.inUse_roots hcaptured hctag
      harguments hcounters)).bind_composed fun inside => ?_
    exact .bind .registersNow fun _ => .read fun _ => .move fun _ => List.drop_subset _ _
  next =>
    refine .bind (ensures_registersNow ?_)
    exact (veiled.leaves_onHeap (hm.heap.quiet_newCall hm.inUse_roots live_environment
      hm.registers.tag harguments hcounters _ hcaptured hctag)).bind_composed fun inside =>
        .move fun _ => List.drop_subset _ _

theorem veiled_call (n : Nat) (tail : Bool) : LeavesVeiled (call n tail) m := by
  exact ensures_call (fun _ => preserves_of_eq rfl)
    (fun _ _ _ => hm.veiled_callBuiltin veiled _ n tail)
    (fun _ ha htag => hm.veiled_callClosure veiled (List.mem_of_getElem? ha) htag n tail)
    fun _ => preserves_of_eq rfl

/-! ## Threads, channels and wait-groups -/

/-- A new thread takes operands of the one that starts it. -/
theorem veiled_spawn (n : Nat) : LeavesVeiled (spawn n) m := by
  refine .bind (ensures_registersNow ?_)
  split
  next => exact LeavesVeiled.throw_bind
  next =>
    refine .bind (ensures_start fun k heap registers threads =>
      .bind (ensures_replace (ensures_goTo ?_)))
    refine ⟨preserves_of_eq heap, heap.symm ▸ veiled.heap, fun a ha hc => ?_, fun t r hr a ha hc => ?_⟩
    · rw [registers] at ha
      replace hc : m.heap.Counter a := heap ▸ hc
      rcases List.mem_cons.1 ha with rfl | ha
      · exact hm.heap.not_counter_undefined hc
      · exact veiled.registers a (List.mem_of_mem_drop ha) hc
    · replace hr : k.threads[t]? = some r := hr
      replace hc : m.heap.Counter a := heap ▸ hc
      rw [threads, Std.TreeMap.getElem?_insert] at hr
      split at hr
      next =>
        obtain rfl := Option.some.inj hr
        exact veiled.registers a (List.mem_of_mem_take ha) hc
      next => exact veiled.threads t r hr a ha hc

theorem veiled_newChannel (capacity : Nat) : LeavesVeiled (newChannel capacity) m := by
  refine .bind ((veiled.shown_onHeap (hm.heap.shows_newChannel hm.inUse_roots capacity)).mono ?_
    fun _ _ h => h)
  rintro a k ⟨preserves, hk, ha⟩
  refine .bind (ensures_update (.bind (ensures_push (ensures_advance ⟨⟨preserves.node,
    preserves.text⟩, hk.congr rfl rfl fun b hb => ?_⟩))))
  rcases List.mem_cons.1 hb with rfl | hb
  · exact ha
  · exact hk.registers b hb

theorem veiled_newWaitGroup : LeavesVeiled newWaitGroup m := by
  refine .bind (ensures_onHeap ((hm.heap.newWaitGroup_hides hm.inUse_roots).mono ?_
    fun _ _ grows => preserves_withHeap grows))
  rintro a k ⟨grows, htag, hides, hcounter⟩
  have arena := (alike_withHeap m k).toSameArena
  have preserves : Preserves m (m.withHeap k) := preserves_withHeap grows
  -- The new counter was not live, so no thread has it.
  have hother : ∀ b, m.heap.Live m.roots b → ¬ m.heap.Counter b →
      ¬ (m.withHeap k).heap.Counter b := by
    intro b hb hnot hc
    rcases hcounter b ((Heap.Counter.congr arena).1 hc) with hc | hc
    · exact hnot hc
    · exact hc hb
  refine .bind (ensures_update (.bind (ensures_push (ensures_advance
    ⟨⟨preserves.node, preserves.text⟩, ?_, ?_, ?_⟩))))
  · exact (Heap.Conceals.of_arena arena).hides (hides veiled.heap)
  · intro b hb
    rcases List.mem_cons.1 hb with rfl | hb
    · exact fun hc => (grows.sound.not_counter (by rw [htag]; decide))
        ((Heap.Counter.congr arena).1 hc)
    · exact hother b (live_stack hb) (veiled.registers b hb)
  · intro t r hr b hb
    exact hother b (.root (mem_threadRoots.2 (.inr ⟨t, r, hr, Registers.mem_roots.2 (.inl hb)⟩)))
      (veiled.threads t r hr b hb)

theorem veiled_groupWait : LeavesVeiled groupWait m := by
  refine .peek fun g _ => .bind (ensures_waitGroup (fun _ => .bind (ensures_readHeap ?_))
    fun _ => preserves_of_eq rfl)
  split
  next => exact .bind (ensures_update (.pure ⟨preserves_of_eq rfl, veiled.congr rfl rfl veiled.registers⟩))
  next =>
    refine .bind (ensures_replace (.bind (ensures_advance (.pure ⟨preserves_of_eq rfl, ?_⟩))))
    refine veiled.congr rfl rfl fun b hb => ?_
    rcases List.mem_cons.1 hb with rfl | hb
    · exact hm.heap.not_counter_undefined
    · exact veiled.registers b (List.mem_of_mem_drop hb)

end Sound

/-! ## What is written -/

/-- The words behind headers that the next instruction may write. -/
inductive Rewrites (program : Program) (m : Machine) : Address → Nat → Prop where
  /-- The variable that is assigned. -/
  | assigned {p : Position} {a i : Nat} (instr : program.at? m.registers.pc = some (.store p))
      (slot : m.heap.slotOf? m.registers.environment p = some (a, i)) : Rewrites program m a i
  /-- The slot and the index of the channel that accepts a value. -/
  | sent {v a : Address} {rest : List Address} {i : Nat}
      (instr : program.at? m.registers.pc = some .send)
      (stack : m.registers.stack = v :: a :: rest) (tag : m.heap.tag a = .channel)
      (word : i = 2 ∨ i = ringStart + m.heap.writeSlot a) : Rewrites program m a i
  /-- The slot and the index of the channel that delivers a value. -/
  | received {a : Address} {rest : List Address} {i : Nat}
      (instr : program.at? m.registers.pc = some .receive)
      (stack : m.registers.stack = a :: rest) (tag : m.heap.tag a = .channel)
      (word : i = 3 ∨ i = ringStart + m.heap.readSlot a) : Rewrites program m a i
  /-- The counter of the wait-group that is counted up or down. -/
  | added {x g : Address} {rest : List Address}
      (instr : program.at? m.registers.pc = some .groupAdd)
      (stack : m.registers.stack = x :: g :: rest) (tag : m.heap.tag g = .waitGroup) :
      Rewrites program m (m.heap.word g 1) 1
  /-- The counter of the wait-group that is counted down by one. -/
  | done {g : Address} {rest : List Address}
      (instr : program.at? m.registers.pc = some .groupDone)
      (stack : m.registers.stack = g :: rest) (tag : m.heap.tag g = .waitGroup) :
      Rewrites program m (m.heap.word g 1) 1

/-- The next instruction may record the kind of the elements of a channel. -/
structure Marks (program : Program) (m : Machine) (a : Address) : Prop where
  /-- The next instruction sends to the channel. -/
  instr : program.at? m.registers.pc = some .send
  /-- The channel. -/
  stack : ∃ v rest, m.registers.stack = v :: a :: rest
  /-- It is one. -/
  tag : m.heap.tag a = .channel
  /-- It takes elements of one kind. -/
  typed : m.typedChannels = true
  /-- No kind is recorded yet. -/
  unknown : m.heap.elementKind? a = none

/-- Nothing but what the next instruction may write has changed among the nodes that were live. -/
structure Confined (program : Program) (m k : Machine) : Prop where
  /-- The headers, but for the kind of the elements of a channel. -/
  header : ∀ a, m.heap.Live m.roots a → k.heap.header a = m.heap.header a ∨
    Marks program m a ∧ ∃ kind : Tag, k.heap.header a =
      { m.heap.header a with payload := channelPayload (m.heap.isUnbuffered a) kind.code }
  /-- The words behind the headers. -/
  word : ∀ a i, m.heap.Live m.roots a → 1 ≤ i → i < nodeSize → ¬ Rewrites program m a i →
    k.heap.word a i = m.heap.word a i
  /-- The texts. -/
  text : ∀ a, m.heap.Live m.roots a → k.heap.text? a = m.heap.text? a

/-- What is live stays confined, and no thread gets hold of a counter. -/
def LeavesConfined (program : Program) (x : Action α) (m : Machine) : Prop :=
  Ensures x m (fun _ k => Confined program m k ∧ k.Veiled) fun _ k => Confined program m k

section Confined

variable {program : Program} {h : Heap} {a : Address}

theorem Preserves.confined (preserves : Preserves m k) : Confined program m k :=
  ⟨fun a ha => .inl (preserves.node a ha).header,
    fun a i ha hpos hlt _ => (preserves.node a ha).word i hpos hlt, preserves.text⟩

theorem LeavesVeiled.confined {x : Action α} (hx : LeavesVeiled x m) : LeavesConfined program x m :=
  hx.mono (fun _ _ h => ⟨h.1.confined, h.2⟩) fun _ _ h => h.confined

/-- What was confined stays so while the heap stays. -/
theorem Confined.still (confined : Confined program m k) (heap : l.heap = k.heap) :
    Confined program m l :=
  ⟨heap ▸ confined.header, heap ▸ confined.word, heap ▸ confined.text⟩

/-- A write into a node that is no text. -/
theorem Confined.of_updated (hm : m.Sound) (u : Heap.Updated m.heap h a)
    (alike : Heap.Alike h k.heap) (hstring : m.heap.tag a ≠ .string)
    (hheader : h.header a = m.heap.header a ∨ Marks program m a ∧ ∃ kind : Tag, h.header a =
      { m.heap.header a with payload := channelPayload (m.heap.isUnbuffered a) kind.code })
    (hword : ∀ i, 1 ≤ i → i < nodeSize → ¬ Rewrites program m a i → h.word a i = m.heap.word a i) :
    Confined program m k where
  header := by
    intro b hb
    rw [alike.toSameArena.header]
    by_cases hne : b = a
    · exact hne ▸ hheader
    · exact .inl (u.toWrites.same (hm.inUse_of_live hb).toIsBlock hne).header
  word := by
    intro b i hb hpos hlt hnot
    rw [alike.toSameArena.word]
    by_cases hne : b = a
    · exact hne ▸ hword i hpos hlt (hne ▸ hnot)
    · exact (u.toWrites.same (hm.inUse_of_live hb).toIsBlock hne).word i hpos hlt
  text := by
    intro b hb
    rw [alike.text?]
    by_cases hne : b = a
    · subst hne
      rw [Heap.text?, Heap.text?, u.kind, if_neg hstring, if_neg hstring]
    · exact u.toWrites.text? (hm.inUse_of_live hb).toIsBlock hne

/-- The only numbers that an instruction writes are counters. -/
theorem Confined.number? {x : Number} (confined : Confined program m k) (hm : m.Sound)
    (hlive : m.heap.Live m.roots a) (hcounter : ¬ m.heap.Counter a)
    (hnumber : m.heap.number? a = some x) : k.heap.number? a = some x := by
  have htag : m.heap.tag a = .number := by
    unfold Heap.number? at hnumber
    split at hnumber
    next htag => exact htag
    next => cases hnumber
  have hheader : k.heap.header a = m.heap.header a := by
    rcases confined.header a hlive with h | ⟨marks, -⟩
    · exact h
    · exact absurd (marks.tag.symm.trans htag) (by decide)
  have hword : k.heap.word a 1 = m.heap.word a 1 := by
    refine confined.word a 1 hlive (Nat.le_refl 1) (by decide) fun rewrites => ?_
    -- Variables and channels are no numbers, and the rest are counters.
    cases rewrites with
    | assigned _ slot =>
      have hframe := (hm.heap.slotOf? hm.registers.inUse hm.registers.tag slot).2.1
      exact absurd (hframe.symm.trans htag) (by decide)
    | sent _ _ tag | received _ _ tag => exact absurd (tag.symm.trans htag) (by decide)
    | added _ stack tag => exact hcounter ⟨_, hm.inUse_below stack, tag, rfl⟩
    | done _ stack tag => exact hcounter ⟨_, hm.inUse_top stack, tag, rfl⟩
  rw [← hnumber, Heap.number?, Heap.number?, hword, Heap.tag, Heap.tag, hheader]

theorem LeavesConfined.proceed {x : Action Unit} (hx : LeavesConfined program x m) :
    LeavesConfined program (proceed x) m :=
  Ensures.bind (hx.mono (fun _ _ h => .pure h) fun _ _ h => h)

theorem Veiled.leave (veiled : m.Veiled) (isBreak : Bool) : LeavesVeiled (leave program isBreak) m := by
  refine .bind (ensures_registersNow ?_)
  split
  next =>
    exact (veiled.leaves_composed (composed_leaveLoop _ _)).bind_composed fun _ => .pure _
  next => exact LeavesVeiled.throw
  next => exact .pure ⟨preserves_of_eq rfl, veiled⟩

namespace Sound

variable (hm : m.Sound) (veiled : m.Veiled)

include hm veiled

/-- An assignment writes a variable. -/
theorem confined_store {p : Position} (instr : program.at? m.registers.pc = some (.store p)) :
    LeavesConfined program (store p) m := by
  refine .bind (ensures_peek (fun a ha => ?_) fun _ => (preserves_of_eq rfl).confined)
  refine .bind (ensures_registersNow (.bind (ensures_onHeap ?_)))
  obtain ⟨hin, hvalue⟩ := hm.isValue_stack ha
  have hcounter := veiled.registers a (List.mem_of_getElem? ha)
  unfold Ensures Heap.assign
  cases hslot : m.heap.slotOf? m.registers.environment p with
  | none =>
    exact (preserves_withHeap (.refl hm.heap _)).confined
  | some slot =>
    obtain ⟨frame, i⟩ := slot
    obtain ⟨hframe, htag, hpos, hlt⟩ := hm.heap.slotOf? hm.registers.inUse hm.registers.tag hslot
    have hle := (hm.heap.typed frame hframe).le
    have hi : i < nodeSize := Nat.lt_of_lt_of_le hlt hle
    have hblock := hframe.toIsBlock
    have u := hm.heap.setVariable hframe htag hpos hlt hin hvalue
    have alike := alike_withHeap m (m.heap.setWord frame i a)
    have confined : Confined program m (m.withHeap (m.heap.setWord frame i a)) := by
      refine .of_updated hm u alike (by rw [htag]; decide)
        (.inl (Heap.header_setWord hblock hblock hpos hi a)) fun j hj hlt' hnot => ?_
      rw [Heap.word_setWord_block hblock hblock hi hlt', if_neg fun heq => hnot ?_]
      exact heq.2 ▸ .assigned instr hslot
    have conceals := (hm.heap.conceals_setVariable hframe htag hpos hlt hin hvalue hcounter).trans
      (.of_arena alike.toSameArena)
    have hveiled : (m.withHeap (m.heap.setWord frame i a)).Veiled :=
      veiled.concealed conceals rfl fun b hb hc => veiled.registers b hb (conceals.counter b hc)
    have hadvance : Ensures advance (m.withHeap (m.heap.setWord frame i a))
        (fun _ k => Confined program m k ∧ k.Veiled) fun _ k => Confined program m k :=
      ensures_advance ⟨confined.still rfl, hveiled.congr rfl rfl hveiled.registers⟩
    exact hadvance

omit veiled in
/-- The check of a value records at most the kind of the elements. -/
theorem confined_checked {v b : Address} {rest : List Address} {checked : Heap}
    (instr : program.at? m.registers.pc = some .send) (stack : m.registers.stack = v :: b :: rest)
    (tag : m.heap.tag b = .channel) (check : Checked m.heap checked m.typedChannels b v) :
    m.heap.Conceals checked ∧ (checked.header b = m.heap.header b ∨
      Marks program m b ∧ ∃ kind : Tag, checked.header b =
        { m.heap.header b with payload := channelPayload (m.heap.isUnbuffered b) kind.code }) := by
  have hin := hm.inUse_below stack
  rcases check.eq with rfl | ⟨htyped, hnone, kind, rfl⟩
  · exact ⟨.refl _, .inl rfl⟩
  · exact ⟨hm.heap.conceals_setElementKind hin tag kind,
      .inr ⟨⟨instr, ⟨v, rest, stack⟩, tag, htyped, hnone⟩, kind,
        Heap.header_setPayload hin.toIsBlock _⟩⟩

/-- A channel that accepts a value is written. -/
theorem confined_send (instr : program.at? m.registers.pc = some .send) :
    LeavesConfined program send m := by
  refine (hm.acts_send instr).mono (fun p k acts => ?_) fun e k h => ?_
  · generalize m.dealt program p k = d at acts
    cases acts with
    | apart notSend => exact absurd instr notSend
    | @sent v a rest checked _ stack tag room crew check heap registers =>
      obtain ⟨u, u', hin', htag'⟩ := hm.updated_sent stack tag check
      obtain ⟨conceals, hheader⟩ := hm.confined_checked instr stack tag check
      have hin := hm.inUse_below stack
      have hblock := hin.toIsBlock
      have hblock' := hin'.toIsBlock
      obtain ⟨-, hwrite, -⟩ := hm.channel_bounds (i := 1) (by rw [stack]; rfl) tag
      have hwrite' : ringStart + checked.writeSlot a < nodeSize := check.writeSlot hblock ▸ hwrite
      have hv := hm.isValue_stack (i := 0) (a := v) (by rw [stack]; rfl)
      have hcounter : ¬ m.heap.Counter v := veiled.registers v (by rw [stack]; simp)
      have conceals' := conceals.trans (u'.sound.conceals_channelPush hin' htag' (u'.inUse hv.1)
        (by rw [u'.tag hv.1.toIsBlock]; exact hv.2) fun hc => hcounter (conceals.counter v hc))
      rw [← heap] at u conceals'
      refine ⟨.of_updated hm u (.refl _) (by rw [tag]; decide) ?_ fun i hpos hlt hnot => ?_, ?_⟩
      · rw [heap, Heap.header_channelPush hblock' hwrite']
        exact hheader
      · rw [heap, Heap.channelPush, Heap.word_slot_index hblock' hwrite' (by decide) _ _ hlt,
          check.writeSlot hblock]
        rw [if_neg fun heq => hnot (.sent instr stack tag (.inl heq)),
          if_neg fun heq => hnot (.sent instr stack tag (.inr heq))]
        exact check.word hblock hpos hlt
      · refine veiled.concealed conceals' crew.threads fun b hb hc => ?_
        replace hc := conceals'.counter b hc
        rw [registers] at hb
        rcases List.mem_cons.1 hb with rfl | hb
        · exact hm.heap.not_counter_undefined hc
        · exact veiled.registers b (by rw [stack]; simp [hb]) hc
    | @full v a rest _ stack tag _ crew check registers =>
      obtain ⟨conceals, hheader⟩ := hm.confined_checked instr stack tag check
      have hin := hm.inUse_below stack
      have hblock := hin.toIsBlock
      refine ⟨.of_updated hm (check.updated hm.heap hin tag) (.refl _) (by rw [tag]; decide) hheader
        fun i hpos hlt _ => check.word hblock hpos hlt, ?_⟩
      refine veiled.concealed conceals crew.threads fun b hb hc => ?_
      exact veiled.registers b (registers ▸ hb) (conceals.counter b hc)
    | counted instr' => rw [instr] at instr'; simp at instr'
    | _ instr' => rw [instr] at instr'; cases instr'
  · exact (preserves_of_eq (h.2 ▸ rfl)).confined

/-- A channel that delivers a value is written. -/
theorem confined_receive (instr : program.at? m.registers.pc = some .receive) :
    LeavesConfined program receive m := by
  refine (hm.acts_receive instr).mono (fun p k acts => ?_) fun e k h => ?_
  · generalize m.dealt program p k = d at acts
    cases acts with
    | apart _ notReceive => exact absurd instr notReceive
    | @received a rest _ stack tag _ crew heap registers =>
      have hin := hm.inUse_top stack
      have hblock := hin.toIsBlock
      obtain ⟨-, -, hread⟩ := hm.channel_bounds (i := 0) (by rw [stack]; rfl) tag
      have u := hm.heap.channelPop hin tag
      have conceals := hm.heap.conceals_channelPop hin tag
      rw [← heap] at u conceals
      refine ⟨.of_updated hm u (.refl _) (by rw [tag]; decide) (.inl ?_)
        fun i hpos hlt hnot => ?_, ?_⟩
      · rw [heap, Heap.header_channelPop hblock hread]
      · rw [heap, Heap.channelPop, Heap.word_slot_index hblock hread (by decide) _ _ hlt]
        rw [if_neg fun heq => hnot (.received instr stack tag (.inl heq)),
          if_neg fun heq => hnot (.received instr stack tag (.inr heq))]
      · refine veiled.concealed conceals crew.threads fun b hb hc => ?_
        replace hc := conceals.counter b hc
        rw [registers] at hb
        rcases List.mem_cons.1 hb with rfl | hb
        · -- The value stood in a slot.
          obtain ⟨-, -, hlt⟩ := hm.heap.channel_bounds hin tag
          have hrange := Heap.childRange_channel tag
          refine veiled.heap.slot a _ hin ⟨.inr tag, ?_, ?_⟩ hc
          · rw [hrange]
            exact Nat.le_add_right ..
          · rw [hrange, ((hm.heap.typed a hin).ring tag).1]
            exact Nat.add_lt_add_left hlt _
        · exact veiled.registers b (by rw [stack]; simp [hb]) hc
    | empty _ stack _ _ crew heap registers =>
      refine ⟨(preserves_of_eq heap).confined, veiled.congr heap crew.threads fun b hb => ?_⟩
      exact veiled.registers b (registers ▸ hb)
    | counted instr' => rw [instr] at instr'; simp at instr'
    | _ instr' => rw [instr] at instr'; cases instr'
  · exact (preserves_of_eq (h.2 ▸ rfl)).confined

/-- The counter of a wait-group is written. -/
theorem confined_adjust {i : Nat} {g : Address} {delta : Number} (n : Nat)
    (hg : m.registers.stack[i]? = some g) (htag : m.heap.tag g = .waitGroup)
    (hrewrites : Rewrites program m (m.heap.word g 1) 1) :
    LeavesConfined program (do adjust g delta; replace n Heap.undefined; advance) m := by
  have hin := (hm.isValue_stack hg).1
  obtain ⟨hcin, hctag⟩ := hm.heap.counter hin htag
  refine .bind (ensures_adjust ?_ fun e _ => (preserves_of_eq rfl).confined)
  intro count k _ _ _ crew hregisters hheap _
  have u := hm.heap.setGroupCount hin htag count
  have conceals := hm.heap.conceals_setGroupCount hin htag count
  rw [← hheap] at u conceals
  refine .bind (ensures_replace (ensures_advance ⟨?_, veiled.concealed conceals crew.threads ?_⟩))
  · have confined : Confined program m k := by
      refine .of_updated hm u (.refl _) (by rw [hctag]; decide) (.inl ?_) fun j hpos hlt hnot => ?_
      · rw [hheap]
        exact Heap.header_setWord hcin.toIsBlock hcin.toIsBlock (Nat.le_refl 1) (by decide) _
      · rw [hheap, Heap.setGroupCount, Heap.setNumber,
          Heap.word_setWord_block hcin.toIsBlock hcin.toIsBlock (by decide) hlt,
          if_neg fun heq : _ = _ ∧ j = 1 => hnot (heq.2 ▸ hrewrites)]
    exact confined.still rfl
  · intro b hb hc
    replace hc := conceals.counter b hc
    rcases List.mem_cons.1 hb with rfl | hb
    · exact hm.heap.not_counter_undefined hc
    · exact veiled.registers b (hregisters ▸ List.mem_of_mem_drop hb) hc

theorem confined_groupAdd (instr : program.at? m.registers.pc = some .groupAdd) :
    LeavesConfined program groupAdd m := by
  have hsame : Confined program m m := (preserves_of_eq rfl).confined
  refine .bind (ensures_peek (fun x hx => ?_) fun _ => hsame)
  refine .bind (ensures_peek (fun g hg => ?_) fun _ => hsame)
  refine .bind (ensures_waitGroup (fun htag => .bind (ensures_readHeap ?_)) fun _ => hsame)
  obtain ⟨rest, stack⟩ := exists_top_two hx hg
  split
  next => exact .bind (ensures_readHeap (.throw hsame))
  next => exact hm.confined_adjust veiled 2 hg htag (.added instr stack htag)

theorem confined_groupDone (instr : program.at? m.registers.pc = some .groupDone) :
    LeavesConfined program groupDone m := by
  have hsame : Confined program m m := (preserves_of_eq rfl).confined
  refine .bind (ensures_peek (fun g hg => ?_) fun _ => hsame)
  refine .bind (ensures_waitGroup (fun htag => ?_) fun _ => hsame)
  obtain ⟨rest, stack⟩ := exists_top hg
  exact hm.confined_adjust veiled 1 hg htag (.done instr stack htag)

/-! ## Instructions -/

/-- No instruction writes more than it may, and none gives a counter to a thread. -/
theorem confined_execute {i : Instruction} (instr : program.at? m.registers.pc = some i) :
    LeavesConfined program (execute program i) m := by
  have hproceed : ∀ {x : Action Unit}, LeavesVeiled x m → LeavesConfined program (proceed x) m :=
    fun hx => hx.confined.proceed
  have hcomposed : ∀ {x : Action Unit}, Composed (· = .print) x →
      LeavesConfined program (proceed x) m := fun hx => hproceed (veiled.leaves_composed hx)
  cases i with
  | constant l => exact hproceed (hm.veiled_constant veiled l)
  | load p => exact hproceed (hm.veiled_load veiled p)
  | store p => exact (hm.confined_store veiled instr).proceed
  | closure arity entry => exact hproceed (hm.veiled_closure veiled arity entry)
  | call n => exact hproceed (hm.veiled_call veiled n false)
  | tailCall n => exact hproceed (hm.veiled_call veiled n true)
  | ret => exact hcomposed composed_ret
  | enterScope n => exact hproceed (hm.veiled_enterScope veiled n)
  | exitScope => exact hcomposed (.bind composed_exitScope fun _ => composed_advance)
  | pop => exact hcomposed composed_drop
  | unary op => exact hproceed (hm.veiled_unary veiled op)
  | binary op => exact hproceed (hm.veiled_binary veiled op)
  | jumpUnless target => exact hcomposed (composed_jumpUnless _)
  | jump target => exact hcomposed (composed_goTo _)
  | loopEnd _ => exact hcomposed composed_advance
  | breakLoop => exact (veiled.leave true).confined
  | continueLoop => exact (veiled.leave false).confined
  | spawn n => exact hproceed (hm.veiled_spawn veiled n)
  | endThread => exact LeavesVeiled.confined (.pure ⟨preserves_of_eq rfl, veiled⟩)
  | newChannel capacity => exact hproceed (hm.veiled_newChannel veiled capacity)
  | send => exact hm.confined_send veiled instr
  | receive => exact hm.confined_receive veiled instr
  | newWaitGroup => exact hproceed (hm.veiled_newWaitGroup veiled)
  | groupAdd => exact (hm.confined_groupAdd veiled instr).proceed
  | groupDone => exact (hm.confined_groupDone veiled instr).proceed
  | groupWait => exact (hm.veiled_groupWait veiled).confined
  | halt =>
    exact LeavesVeiled.confined (.bind (ensures_registersNow (.pure ⟨preserves_of_eq rfl, veiled⟩)))

theorem confined_step (program : Program) : LeavesConfined program (step program) m := by
  refine .bind (ensures_registersNow ?_)
  split
  next i instr => exact hm.confined_execute veiled instr
  next =>
    exact LeavesVeiled.confined (.bind (ensures_registersNow (.pure ⟨preserves_of_eq rfl, veiled⟩)))

end Sound

end Confined

end ChannelMachine.Machine

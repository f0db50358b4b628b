import ChannelMachine.Proofs.Machine.Calls

/-!
# Instructions preserve soundness

Every instruction of every program leaves a sound machine behind, also where it ends in a fault.
-/

namespace ChannelMachine.Machine

/-- What an action leaves behind is sound, with a value and with a fault. -/
def LeavesSound {α : Type} (x : Action α) (m : Machine) : Prop :=
  Ensures x m (fun _ k => k.Sound) (fun _ k => k.Sound)

namespace Sound

variable {m : Machine} {α β : Type}

/-! ## Steps of instructions -/

theorem leaves_bind {x : Action α} {f : α → Action β} (hx : LeavesSound x m)
    (hf : ∀ a k, k.Sound → LeavesSound (f a) k) : LeavesSound (x >>= f) m :=
  .bind (hx.mono (fun a k hk => hf a k hk) fun _ _ hk => hk)

theorem leaves_advance (hm : m.Sound) : LeavesSound advance m := ensures_advance (hm.moved _)

/-- Pushing a value that was just made, and going on. -/
theorem leaves_push_advance (hm : m.Sound) {a : Address} (ha : m.heap.IsValue a) :
    LeavesSound (do push a; advance) m :=
  .bind (ensures_push (leaves_advance (hm.pushed ha)))

theorem leaves_replace_advance (hm : m.Sound) (n : Nat) {a : Address} (ha : m.heap.IsValue a) :
    LeavesSound (do replace n a; advance) m :=
  .bind (ensures_replace (leaves_advance (hm.replaced n ha)))

theorem isValue_undefined (hm : m.Sound) : m.heap.IsValue Heap.undefined :=
  hm.heap.toIntact.isValue_undefined

theorem isValue_stack (hm : m.Sound) {i : Nat} {a : Address}
    (ha : m.registers.stack[i]? = some a) : m.heap.IsValue a :=
  hm.registers.stack a (List.mem_of_getElem? ha)

theorem inUse_top (hm : m.Sound) {a : Address} {rest : List Address}
    (stack : m.registers.stack = a :: rest) : m.heap.InUse a :=
  (hm.registers.stack a (stack ▸ List.mem_cons_self ..)).1

theorem inUse_below (hm : m.Sound) {v a : Address} {rest : List Address}
    (stack : m.registers.stack = v :: a :: rest) : m.heap.InUse a :=
  (hm.registers.stack a (stack ▸ List.mem_cons_of_mem _ (List.mem_cons_self ..))).1

/-! ## Constants and operators -/

theorem leaves_constant (hm : m.Sound) (l : Literal) : LeavesSound (constant l) m := by
  unfold constant
  cases l with
  | number x =>
    exact .bind (hm.ensures_makesValue (makesValue_newNumber hm.heap x)
      (fun a k _ hk ha => hk.leaves_push_advance ha) fun _ k _ hk => hk)
  | text s =>
    exact .bind (hm.ensures_makesValue (makesValue_newString hm.heap s)
      (fun a k _ hk ha => hk.leaves_push_advance ha) fun _ k _ hk => hk)
  | bool b => exact .bind (.pure (hm.leaves_push_advance (hm.heap.toIntact.isValue_boolean b)))
  | null => exact .bind (.pure (hm.leaves_push_advance hm.heap.toIntact.isValue_null))
  | undefined => exact .bind (.pure (hm.leaves_push_advance hm.isValue_undefined))

theorem leaves_unary (hm : m.Sound) (op : UnaryOp) : LeavesSound (unary op) m := by
  refine .bind (ensures_peek (fun a _ => ?_) fun _ => hm)
  refine .bind (hm.ensures_makesValue (makesValue_applyUnary hm.heap op a) ?_ fun _ k _ hk => hk)
  exact fun a k _ hk ha => hk.leaves_replace_advance 1 ha

theorem leaves_binary (hm : m.Sound) (op : BinaryOp) : LeavesSound (binary op) m := by
  refine .bind (ensures_peek (fun b _ => ?_) fun _ => hm)
  refine .bind (ensures_peek (fun a _ => ?_) fun _ => hm)
  refine .bind (hm.ensures_makesValue (makesValue_applyBinary hm.heap op a b) ?_ fun _ k _ hk => hk)
  exact fun a k _ hk ha => hk.leaves_replace_advance 2 ha

/-! ## Variables -/

theorem leaves_load (hm : m.Sound) (p : Position) : LeavesSound (load p) m := by
  refine .bind (ensures_registersNow (.bind (ensures_readHeap ?_)))
  split
  next fault _ => exact .throw hm
  next a ha =>
    have hvalue := hm.heap.lookup hm.registers.inUse hm.registers.tag ha
    split
    next => exact .throw hm
    next => exact hm.leaves_push_advance hvalue

theorem leaves_store (hm : m.Sound) (p : Position) : LeavesSound (store p) m := by
  refine .bind (ensures_peek (fun a ha => ?_) fun _ => hm)
  refine .bind (ensures_registersNow (.bind (ensures_onHeap ?_)))
  unfold Ensures Heap.assign
  split
  next _ k heq =>
    split at heq
    next frame i hslot =>
      cases heq
      obtain ⟨hframe, htag, hpos, hlt⟩ :=
        hm.heap.slotOf? hm.registers.inUse hm.registers.tag hslot
      obtain ⟨hin, hvalue⟩ := hm.isValue_stack ha
      have u := hm.heap.setVariable hframe htag hpos hlt hin hvalue
      exact (hm.withHeap_updated u).leaves_advance
    next => cases heq
  next e k heq =>
    split at heq
    next => cases heq
    next =>
      cases heq
      exact hm.withHeap (.refl hm.heap _)

/-! ## Scopes and loops -/

theorem leaves_enterScope (hm : m.Sound) (slots : Nat) : LeavesSound (enterScope slots) m := by
  refine .bind (ensures_registersNow (.bind (ensures_onHeap ?_)))
  refine (hm.heap.newScope_ensures hm.inUse_roots
    live_environment hm.registers.tag slots).mono ?_ ?_
  · rintro ⟨block, inside⟩ k ⟨hblock, frame, made⟩
    have hk := hm.withHeap made.toGrows
    have alike := alike_withHeap m k
    refine ensures_setRegisters (hk.withRegisters ⟨hk.registers.stack, ?_, ?_, ?_⟩)
    · exact alike.inUse.2 made.newInside.toInUse
    · exact (alike.tag _).trans made.newInside.toHolds.tag
    · intro a ha
      rcases List.mem_cons.1 ha with rfl | ha
      · exact ⟨alike.inUse.2 hblock.toInUse, .inl ((alike.tag _).trans hblock.toHolds.tag)⟩
      · exact hk.registers.frames a ha
  · exact fun e k failed => hm.withHeap failed.toGrows

theorem leaves_exitScope (hm : m.Sound) : LeavesSound exitScope m := by
  refine .bind (ensures_registersNow ?_)
  split
  next => exact .throw hm
  next frame rest hframes =>
    have hrest : (m.withRegisters { m.registers with frames := rest }).Sound := by
      refine hm.withRegisters ⟨hm.registers.stack, hm.registers.inUse, hm.registers.tag, ?_⟩
      intro a ha
      exact hm.registers.frames a (hframes ▸ List.mem_cons_of_mem _ ha)
    have hframe := hm.registers.frames frame (hframes ▸ List.mem_cons_self ..)
    obtain ⟨hin, htag⟩ := hm.heap.word_block hframe.1 hframe.2
    refine .bind (ensures_setRegisters (.bind (ensures_readHeap ?_)))
    split
    next => exact .bind (ensures_readHeap (ensures_setRegisters
      (hrest.withRegisters ⟨hrest.registers.stack, hin, htag, hrest.registers.frames⟩)))
    next => exact .throw hrest

theorem leaves_exitScopes (n : Nat) : ∀ {m : Machine}, m.Sound → LeavesSound (exitScopes n) m := by
  induction n with
  | zero => exact fun hm => .pure hm
  | succ n ih => exact fun hm => leaves_bind hm.leaves_exitScope fun _ _ hk => ih hk

theorem leaves_goTo (hm : m.Sound) (pc : Nat) : LeavesSound (goTo pc) m := ensures_goTo (hm.moved pc)

theorem leaves_leave (hm : m.Sound) (program : Program) (isBreak : Bool) :
    LeavesSound (leave program isBreak) m := by
  refine .bind (ensures_registersNow ?_)
  split
  next =>
    refine leaves_bind (leaves_bind (leaves_exitScopes _ hm) fun _ _ hk => ?_) fun _ _ hk => ?_
    · exact hk.leaves_goTo _
    · exact .pure hk
  next => exact .throw hm
  next => exact .pure hm

theorem leaves_drop (hm : m.Sound) : LeavesSound drop m := by
  refine .bind (ensures_pop (fun a rest hstack => ?_) fun _ => hm)
  refine leaves_advance (hm.withRegisters ⟨?_, hm.registers.inUse, hm.registers.tag,
    hm.registers.frames⟩)
  exact fun b hb => hm.registers.stack b (hstack ▸ List.mem_cons_of_mem _ hb)

theorem leaves_jumpUnless (hm : m.Sound) (target : Nat) : LeavesSound (jumpUnless target) m := by
  refine .bind (ensures_pop (fun a rest hstack => ?_) fun _ => hm)
  have hk : (m.withRegisters { m.registers with stack := rest }).Sound :=
    hm.withRegisters ⟨fun b hb => hm.registers.stack b (hstack ▸ List.mem_cons_of_mem _ hb),
      hm.registers.inUse, hm.registers.tag, hm.registers.frames⟩
  refine .bind (ensures_readHeap ?_)
  split
  next => exact hk.leaves_advance
  next => exact hk.leaves_goTo target
  next => exact .bind (ensures_readHeap (.throw hk))

/-! ## Functions and calls -/

theorem leaves_closure (hm : m.Sound) (arity entry : Nat) : LeavesSound (closure arity entry) m := by
  refine .bind (ensures_registersNow (.bind (ensures_onHeap ?_)))
  refine (hm.heap.newClosure_ensures hm.inUse_roots
    arity entry live_environment hm.registers.tag).mono ?_ ?_
  · intro a k made
    have alike := alike_withHeap m k
    refine (hm.withHeap made.toGrows).leaves_push_advance ⟨alike.inUse.2 made.toInUse, ?_⟩
    rw [alike.tag, made.toHolds.tag]
    rfl
  · exact fun e k refused => hm.withHeap refused.toGrows

theorem leaves_ret (hm : m.Sound) : LeavesSound ret m := by
  refine .bind (ensures_registersNow (.bind (ensures_readHeap ?_)))
  split
  next => exact .bind (ensures_setRegisters (.throw (hm.withRegisters
      ⟨hm.registers.stack, hm.registers.inUse, hm.registers.tag, fun _ h => absurd h List.not_mem_nil⟩)))
  next call rest hframes =>
    have hmem : ∀ a, a = call ∨ a ∈ rest → a ∈ m.registers.frames := by
      intro a ha
      have hin : a ∈ m.registers.frames.dropWhile fun a => m.heap.tag a ≠ .callframe := by
        rw [hframes]
        exact List.mem_cons.2 ha
      exact List.dropWhile_suffix _ |>.mem hin
    obtain ⟨hcall, hkind⟩ := hm.registers.frames call (hmem call (.inl rfl))
    obtain ⟨hin, htag⟩ := hm.heap.word_block hcall hkind
    refine .bind (ensures_readHeap (.bind (ensures_readHeap (ensures_setRegisters
      (hm.withRegisters ⟨hm.registers.stack, hin, htag, ?_⟩)))))
    exact fun a ha => hm.registers.frames a (hmem a (.inr ha))

/-! ## Builtins -/

theorem printed (hm : m.Sound) (text : String) :
    ({ m with output := m.output ++ text } : Machine).Sound :=
  hm.congr rfl rfl rfl

theorem leaves_printAll (as : List Address) :
    ∀ {m : Machine}, m.Sound → LeavesSound (printAll as) m := by
  induction as with
  | nil => exact fun hm => .pure hm
  | cons a rest ih => exact fun hm => .bind (ensures_readHeap (.bind (ih (hm.printed _))))

/-- A builtin gives a value. -/
theorem ensures_runBuiltin (hm : m.Sound) (b : Builtin) (arguments : List Address) :
    Ensures (runBuiltin b arguments) m (fun a k => k.Sound ∧ k.heap.IsValue a)
      (fun _ k => k.Sound) := by
  have hnumber : ∀ x, Ensures (onHeap (Heap.newNumber x)) m
      (fun a k => k.Sound ∧ k.heap.IsValue a) (fun _ k => k.Sound) := fun x =>
    hm.ensures_makesValue (makesValue_newNumber hm.heap x) (fun _ _ _ hk ha => ⟨hk, ha⟩)
      fun _ _ _ hk => hk
  have hneed : ∀ {β : Type} (f : Heap → Except Fault β) (g : β → Action Address),
      (∀ x, Ensures (g x) m (fun a k => k.Sound ∧ k.heap.IsValue a) (fun _ k => k.Sound)) →
      Ensures (need f >>= g) m (fun a k => k.Sound ∧ k.heap.IsValue a) (fun _ k => k.Sound) := by
    intro β f g hg
    refine .bind (.bind (ensures_readHeap ?_))
    split
    · exact .pure (hg _)
    · exact .throw hm
  have hprint : ∀ k : Machine, k.Sound → Ensures (pure Heap.undefined : Action Address) k
      (fun a k => k.Sound ∧ k.heap.IsValue a) (fun _ k => k.Sound) :=
    fun k hk => .pure ⟨hk, hk.isValue_undefined⟩
  unfold runBuiltin
  split
  next => exact .bind ((leaves_printAll _ hm).mono (fun _ k hk => hprint k hk) fun _ _ hk => hk)
  next => exact .bind ((leaves_printAll _ hm).mono
      (fun _ k hk => .bind (ensures_update (hprint _ (hk.printed _)))) fun _ _ hk => hk)
  next => exact hneed _ _ fun _ => hnumber _
  next => exact hneed _ _ fun _ => hnumber _
  next => exact hneed _ _ fun _ => hnumber _
  next => exact hneed _ _ fun _ => hnumber _
  next =>
    refine .bind (ensures_readHeap (hm.ensures_makesValue (makesValue_newString hm.heap _)
      (fun _ _ _ hk ha => ⟨hk, ha⟩) fun _ _ _ hk => hk))
  next => exact .throw hm

theorem leaves_callBuiltin (hm : m.Sound) (slot n : Nat) (tail : Bool) :
    LeavesSound (callBuiltin slot n tail) m := by
  refine ensures_callBuiltin (fun _ => hm) (fun _ _ _ => hm) fun entry _ _ => ?_
  refine .bind ((hm.ensures_runBuiltin _ _).mono (fun a k hk => ?_) fun _ _ hk => hk)
  refine .bind (ensures_replace ?_)
  split
  · exact leaves_ret (hk.1.replaced _ hk.2)
  · exact leaves_advance (hk.1.replaced _ hk.2)

/-! ## Calls -/

theorem leaves_callClosure (hm : m.Sound) {function : Address}
    (hfunction : function ∈ m.registers.stack) (htag : m.heap.tag function = .closure) (n : Nat)
    (tail : Bool) : LeavesSound (callClosure function n tail) m := by
  have harguments := hm.live_arguments n
  refine hm.ensures_callClosure hfunction htag (fun _ => hm) fun _ hctag hcaptured => ?_
  refine .bind (ensures_argumentsNow ?_)
  split
  next =>
    refine .bind (ensures_onHeap ((hm.heap.newArguments_ensures
      hm.inUse_roots hcaptured hctag
      harguments).mono ?_ ?_))
    · rintro inside k ⟨frame, made⟩
      have hk := hm.withHeap made.toGrows
      have alike := alike_withHeap m k
      refine .bind (ensures_registersNow (.bind (ensures_readHeap (ensures_setRegisters
        (hk.withRegisters ⟨?_, ?_, ?_, ?_⟩)))))
      · exact fun a ha => hk.registers.stack a (List.mem_of_mem_drop ha)
      · exact alike.inUse.2 made.newInside.toInUse
      · exact (alike.tag _).trans made.newInside.toHolds.tag
      · exact fun a ha => hk.registers.frames a ((List.dropWhile_suffix _).mem ha)
    · exact fun e k failed => hm.withHeap failed.toGrows
  next =>
    refine .bind (ensures_registersNow (.bind (ensures_onHeap ((hm.heap.newCall_ensures
      hm.inUse_roots (m.registers.pc + 1)
      live_environment hm.registers.tag hcaptured hctag harguments).mono ?_ ?_))))
    · rintro ⟨call, inside⟩ k ⟨hcall, frame, made⟩
      have hk := hm.withHeap made.toGrows
      have alike := alike_withHeap m k
      refine ensures_setRegisters (hk.withRegisters ⟨?_, ?_, ?_, ?_⟩)
      · exact fun a ha => hk.registers.stack a (List.mem_of_mem_drop ha)
      · exact alike.inUse.2 made.newInside.toInUse
      · exact (alike.tag _).trans made.newInside.toHolds.tag
      · intro a ha
        rcases List.mem_cons.1 ha with rfl | ha
        · exact ⟨alike.inUse.2 hcall.toInUse, .inr ((alike.tag _).trans hcall.toHolds.tag)⟩
        · exact hk.registers.frames a ha
    · exact fun e k failed => hm.withHeap failed.toGrows

theorem leaves_call (hm : m.Sound) (n : Nat) (tail : Bool) : LeavesSound (call n tail) m := by
  exact ensures_call (fun _ => hm) (fun _ _ _ => hm.leaves_callBuiltin _ n tail)
    (fun _ ha htag => hm.leaves_callClosure (List.mem_of_getElem? ha) htag n tail) fun _ => hm

/-! ## Threads -/

theorem started (hm : m.Sound) {r : Registers} (hr : r.Sound m.heap) (t : ThreadId) :
    ThreadTable.Sound (m.threads.insert t r) m.heap := by
  intro u s hs
  rw [Std.TreeMap.getElem?_insert] at hs
  split at hs
  · exact Option.some.inj hs ▸ hr
  · exact hm.threads u s hs

theorem leaves_spawn (hm : m.Sound) (n : Nat) : LeavesSound (spawn n) m := by
  refine .bind (ensures_registersNow ?_)
  split
  next => exact .bind (.throw hm)
  next =>
    have hr : Registers.Sound ⟨m.registers.stack.take (n + 1), m.registers.pc + 1,
        m.registers.environment, []⟩ m.heap :=
      ⟨fun a ha => hm.registers.stack a (List.mem_of_mem_take ha), hm.registers.inUse,
        hm.registers.tag, fun _ h => nomatch h⟩
    refine .bind (ensures_update ?_)
    have hk : Machine.Sound { m with
        threads := m.threads.insert m.nextThread ⟨m.registers.stack.take (n + 1),
          m.registers.pc + 1, m.registers.environment, []⟩
        nextThread := m.nextThread + 1
        runnable := m.runnable ++ [m.nextThread] } :=
      ⟨⟨hm.heap, hm.building, hm.started hr _⟩, hm.registers⟩
    have hnoted := hk.noted (.spawned m.nextThread m.current)
    exact .bind (ensures_replace ((hnoted.replaced _ hnoted.isValue_undefined).leaves_goTo _))

theorem leaves_wake (hm : m.Sound) (t : ThreadId) : LeavesSound (wake t) m :=
  ensures_update (noted (m := { m with runnable := m.runnable ++ [t] }) (hm.congr rfl rfl rfl) _)

theorem leaves_wakeAll (ts : List ThreadId) :
    ∀ {m : Machine}, m.Sound → LeavesSound (wakeAll ts) m := by
  induction ts with
  | nil => exact fun hm => .pure hm
  | cons t rest ih => exact fun hm => leaves_bind (hm.leaves_wake t) fun _ _ hk => ih hk

/-! ## Channels -/

theorem leaves_newChannel (hm : m.Sound) (capacity : Nat) : LeavesSound (newChannel capacity) m := by
  refine .bind (ensures_onHeap ((hm.heap.newChannel_ensures
    hm.inUse_roots capacity).mono ?_ ?_))
  · rintro a k ⟨-, made⟩
    have alike := alike_withHeap m k
    have hk := hm.withHeap made.toGrows
    have hreset : Machine.Sound { m.withHeap k with channels := (m.withHeap k).channels.reset a } :=
      hk.congr rfl rfl rfl
    refine .bind (ensures_update (hreset.leaves_push_advance ⟨alike.inUse.2 made.toInUse, ?_⟩))
    change ((m.withHeap k).heap.tag a).isValue = true
    rw [alike.tag, made.toHolds.tag]
    rfl
  · rintro e k (⟨-, -, rfl⟩ | ⟨-, refused⟩)
    · exact hm.withHeap (.refl hm.heap _)
    · exact hm.withHeap refused.toGrows

/-- Behind the check, the node is a channel. -/
theorem ensures_needChannel {a : Address} {good : Unit → Machine → Prop} (hm : m.Sound)
    (h : m.heap.tag a = .channel → good () m) :
    Ensures (needChannel a) m good (fun _ k => k.Sound) := by
  refine .bind (ensures_readHeap ?_)
  split
  next => exact .throw hm
  next htag => exact .pure (h (Classical.not_not.1 htag))

theorem leaves_waitAt (hm : m.Sound) (side : Side) (a : Address) : LeavesSound (waitAt side a) m :=
  ensures_update (hm.congr rfl rfl rfl)

theorem leaves_wakeAt (hm : m.Sound) (side : Side) (a : Address) : LeavesSound (wakeAt side a) m := by
  refine .bind (.modifyGet ?_)
  have hk : Machine.Sound { m with channels := (m.channels.dequeue side a).2 } :=
    hm.congr rfl rfl rfl
  dsimp only
  split
  · exact hk.leaves_wake _
  · exact .pure hk

/-- The check of an element changes at most the channel. -/
theorem ensures_checkElement (hm : m.Sound) {channel : Address} (hin : m.heap.InUse channel)
    (htag : m.heap.tag channel = .channel) (value : Address) :
    Ensures (checkElement channel value) m
      (fun _ k => k.Sound ∧ k.registers = m.registers ∧ k.heap.tag channel = .channel)
      (fun _ k => k.Sound) := by
  refine .bind (ensures_readHeap (.bind (ensures_readHeap ?_)))
  split
  next =>
    have u := hm.heap.setElementKind hin htag (elementType (m.heap.tag value))
    exact ensures_updateHeap ⟨hm.updated u, rfl, u.kind.trans htag⟩
  next =>
    split
    · exact .throw hm
    · exact .pure ⟨hm, rfl, htag⟩

theorem leaves_send (hm : m.Sound) : LeavesSound send m := by
  refine .bind (ensures_peek (fun value hvalue => ?_) fun _ => hm)
  refine .bind (ensures_peek (fun channel hchannel => ?_) fun _ => hm)
  refine .bind (hm.ensures_needChannel fun htag => .bind (.get ?_))
  -- What follows the check of the element, on a machine with the same operands.
  have hrest : ∀ k : Machine, k.Sound → k.registers = m.registers →
      k.heap.tag channel = .channel → LeavesSound (do
        if ← readHeap (·.isFull channel) then
          waitAt .writer channel
          return Progress.blocked
        updateHeap (·.channelPush channel value)
        replace 2 Heap.undefined
        advance
        wakeAt .reader channel
        if ← readHeap (·.isUnbuffered channel) then
          waitAt .sender channel
          return .blocked
        return .advanced) k := by
    intro k hk hregisters htag
    have hc := hk.isValue_stack (i := 1) (hregisters ▸ hchannel)
    have hv := hk.isValue_stack (i := 0) (hregisters ▸ hvalue)
    refine .bind (ensures_readHeap ?_)
    split
    next => exact leaves_bind (hk.leaves_waitAt .writer channel) fun _ _ hl => .pure hl
    next =>
      have hpushed := hk.updated (hk.heap.channelPush hc.1 htag hv.1 hv.2)
      refine .bind (ensures_updateHeap (.bind (ensures_replace ?_)))
      refine leaves_bind (hpushed.replaced 2 hpushed.isValue_undefined).leaves_advance
        fun _ _ h => ?_
      refine leaves_bind (h.leaves_wakeAt .reader channel) fun _ l hl => ?_
      refine .bind (ensures_readHeap ?_)
      split
      · exact leaves_bind (hl.leaves_waitAt .sender channel) fun _ _ h => .pure h
      · exact .pure hl
  split
  next =>
    refine .bind ((hm.ensures_checkElement (hm.isValue_stack hchannel).1 htag value).mono ?_
      fun _ _ hk => hk)
    exact fun _ k ⟨hk, hregisters, htag⟩ => hrest k hk hregisters htag
  next => exact hrest m hm rfl htag

theorem leaves_receive (hm : m.Sound) : LeavesSound receive m := by
  refine .bind (ensures_peek (fun channel hchannel => ?_) fun _ => hm)
  refine .bind (hm.ensures_needChannel fun htag => .bind (ensures_readHeap ?_))
  have hin := (hm.isValue_stack hchannel).1
  split
  next => exact leaves_bind (hm.leaves_waitAt .reader channel) fun _ _ hk => .pure hk
  next hempty =>
    obtain ⟨-, -, hread⟩ := (hm.heap.typed channel hin).ring htag
    have hfront : m.heap.IsValue (m.heap.channelFront channel) := by
      refine hm.heap.channelSlot hin htag hread ?_
      simpa [Heap.isEmpty] using hempty
    have u := hm.heap.channelPop hin htag
    have hpopped := hm.updated u
    have hvalue : (m.heap.channelPop channel).IsValue (m.heap.channelFront channel) :=
      ⟨u.inUse hfront.1, (u.tag hfront.1.toIsBlock).symm ▸ hfront.2⟩
    refine .bind (ensures_readHeap (.bind (ensures_updateHeap (.bind (ensures_replace ?_)))))
    refine leaves_bind (hpopped.replaced 1 hvalue).leaves_advance fun _ k hk => ?_
    have hlast : ∀ l : Machine, l.Sound → LeavesSound (do
        wakeAt .writer channel
        return Progress.advanced) l := fun l hl =>
      leaves_bind (hl.leaves_wakeAt .writer channel) fun _ _ h => .pure h
    refine .bind (ensures_readHeap ?_)
    split
    · exact leaves_bind (hk.leaves_wakeAt .sender channel) fun _ l hl => hlast l hl
    · exact hlast k hk

/-! ## Wait-groups -/

theorem leaves_newWaitGroup (hm : m.Sound) : LeavesSound newWaitGroup m := by
  refine .bind (ensures_onHeap ((hm.heap.newWaitGroup_ensures
    hm.inUse_roots).mono ?_ ?_))
  · rintro a k ⟨counter, -, made⟩
    have alike := alike_withHeap m k
    have hk := hm.withHeap made.toGrows
    have hreset : Machine.Sound { m.withHeap k with groups := (m.withHeap k).groups.reset a } :=
      hk.congr rfl rfl rfl
    refine .bind (ensures_update (hreset.leaves_push_advance ⟨alike.inUse.2 made.toInUse, ?_⟩))
    change ((m.withHeap k).heap.tag a).isValue = true
    rw [alike.tag, made.toHolds.tag]
    rfl
  · exact fun e k failed => hm.withHeap failed.toGrows

/-- Behind the check, the node is a wait-group. -/
theorem ensures_needWaitGroup {a : Address} {good : Unit → Machine → Prop} (hm : m.Sound)
    (h : m.heap.tag a = .waitGroup → good () m) :
    Ensures (needWaitGroup a) m good (fun _ k => k.Sound) := by
  refine .bind (ensures_readHeap ?_)
  split
  next => exact .throw hm
  next htag => exact .pure (h (Classical.not_not.1 htag))

theorem leaves_adjust (hm : m.Sound) {group : Address} (hin : m.heap.InUse group)
    (htag : m.heap.tag group = .waitGroup) (delta : Number) :
    LeavesSound (adjust group delta) m := by
  refine .bind (.get ?_)
  have hrest : LeavesSound (do
      let count := (← readHeap (·.groupCount group)).add delta
      if count.less .zero then throw .negativeWaitGroup
      updateHeap (·.setGroupCount group count)
      if count.same .zero then
        update fun m => { m with groups := m.groups.reset group }
        wakeAll (m.groups.get group)) m := by
    refine .bind (ensures_readHeap ?_)
    dsimp only
    split
    next => exact .bind (.throw hm)
    next =>
      have hk := hm.updated (hm.heap.setGroupCount hin htag ((m.heap.groupCount group).add delta))
      refine .bind (ensures_updateHeap ?_)
      split
      · exact .bind (ensures_update (leaves_wakeAll _ (hk.congr rfl rfl rfl)))
      · exact .pure hk
  dsimp only
  split
  · exact .bind (.throw hm)
  · exact hrest

theorem leaves_groupAdd (hm : m.Sound) : LeavesSound groupAdd m := by
  refine .bind (ensures_peek (fun delta _ => ?_) fun _ => hm)
  refine .bind (ensures_peek (fun group hgroup => ?_) fun _ => hm)
  refine .bind (hm.ensures_needWaitGroup fun htag => .bind (ensures_readHeap ?_))
  split
  next => exact .bind (ensures_readHeap (.throw hm))
  next x _ =>
    refine leaves_bind (hm.leaves_adjust (hm.isValue_stack hgroup).1 htag x) fun _ k hk => ?_
    exact hk.leaves_replace_advance 2 hk.isValue_undefined

theorem leaves_groupDone (hm : m.Sound) : LeavesSound groupDone m := by
  refine .bind (ensures_peek (fun group hgroup => ?_) fun _ => hm)
  refine .bind (hm.ensures_needWaitGroup fun htag => ?_)
  refine leaves_bind (hm.leaves_adjust (hm.isValue_stack hgroup).1 htag _) fun _ k hk => ?_
  exact hk.leaves_replace_advance 1 hk.isValue_undefined

theorem leaves_groupWait (hm : m.Sound) : LeavesSound groupWait m := by
  refine .bind (ensures_peek (fun group hgroup => ?_) fun _ => hm)
  refine .bind (hm.ensures_needWaitGroup fun _ => .bind (ensures_readHeap ?_))
  split
  next => exact .bind (ensures_update (.pure (hm.congr rfl rfl rfl)))
  next =>
    refine .bind (ensures_replace ?_)
    exact leaves_bind (hm.replaced 1 hm.isValue_undefined).leaves_advance fun _ _ hk => .pure hk

/-! ## Instructions -/

theorem leaves_proceed {x : Action Unit} (hx : LeavesSound x m) : LeavesSound (proceed x) m :=
  leaves_bind hx fun _ _ hk => .pure hk

theorem leaves_execute (hm : m.Sound) (program : Program) (i : Instruction) :
    LeavesSound (execute program i) m := by
  cases i with
  | constant l => exact leaves_proceed (hm.leaves_constant l)
  | load p => exact leaves_proceed (hm.leaves_load p)
  | store p => exact leaves_proceed (hm.leaves_store p)
  | closure arity entry => exact leaves_proceed (hm.leaves_closure arity entry)
  | call n => exact leaves_proceed (hm.leaves_call n false)
  | tailCall n => exact leaves_proceed (hm.leaves_call n true)
  | ret => exact leaves_proceed hm.leaves_ret
  | enterScope n => exact leaves_proceed (hm.leaves_enterScope n)
  | exitScope =>
    exact leaves_proceed (leaves_bind hm.leaves_exitScope fun _ _ hk => hk.leaves_advance)
  | pop => exact leaves_proceed hm.leaves_drop
  | unary op => exact leaves_proceed (hm.leaves_unary op)
  | binary op => exact leaves_proceed (hm.leaves_binary op)
  | jumpUnless target => exact leaves_proceed (hm.leaves_jumpUnless target)
  | jump target => exact leaves_proceed (hm.leaves_goTo target)
  | loopEnd _ => exact leaves_proceed hm.leaves_advance
  | breakLoop => exact hm.leaves_leave program true
  | continueLoop => exact hm.leaves_leave program false
  | spawn n => exact leaves_proceed (hm.leaves_spawn n)
  | endThread => exact .pure hm
  | newChannel capacity => exact leaves_proceed (hm.leaves_newChannel capacity)
  | send => exact hm.leaves_send
  | receive => exact hm.leaves_receive
  | newWaitGroup => exact leaves_proceed hm.leaves_newWaitGroup
  | groupAdd => exact leaves_proceed hm.leaves_groupAdd
  | groupDone => exact leaves_proceed hm.leaves_groupDone
  | groupWait => exact hm.leaves_groupWait
  | halt => exact .bind (ensures_registersNow (.pure hm))

/-- An instruction leaves a sound machine behind. -/
theorem leaves_step (hm : m.Sound) (program : Program) : LeavesSound (step program) m := by
  refine .bind (ensures_registersNow ?_)
  split
  next i _ => exact hm.leaves_execute program i
  next => exact .bind (ensures_registersNow (.pure hm))

end Sound

end ChannelMachine.Machine

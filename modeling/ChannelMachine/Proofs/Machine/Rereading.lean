import ChannelMachine.Proofs.Machine.Sharing

/-!
# What instructions read

The effect of an instruction is read off the heap.  A later machine `Repeats` an instruction if what the
instruction reads is still the same there: its operands, what it works on, and all nodes but frames,
channels and numbers.  Then it has the same effect (`Repeats.effectOf?_eq`).
-/

namespace ChannelMachine

namespace Heap

variable {h k : Heap} {a b : Address}

/-! ## Operands -/

/-- A node that is the same to operators and builtins. -/
structure Looks (h k : Heap) (a : Address) : Prop where
  /-- The kind. -/
  tag : k.tag a = h.tag a
  /-- The number. -/
  number : k.number? a = h.number? a
  /-- The text. -/
  text : k.text? a = h.text? a
  /-- The payload, which a channel may change. -/
  payload : h.tag a ≠ .channel → k.payload a = h.payload a

namespace Looks

theorem bool? (looks : Looks h k a) : k.bool? a = h.bool? a := by
  rw [Heap.bool?, Heap.bool?, looks.tag]

theorem unbox (looks : Looks h k a) : k.unbox a = h.unbox a := by
  rw [Heap.unbox, Heap.unbox, looks.tag, looks.number, looks.text]
  cases ht : h.tag a with
  | builtin =>
    have hpayload := looks.payload (by rw [ht]; decide)
    simp only [hpayload]
  | _ => rfl

theorem display (looks : Looks h k a) : k.display a = h.display a := by
  rw [Heap.display, Heap.display, looks.unbox]

theorem needNumber (looks : Looks h k a) : k.needNumber a = h.needNumber a := by
  rw [Heap.needNumber, Heap.needNumber, looks.number, looks.tag]

theorem needNumbers (looks : Looks h k a) (looks' : Looks h k b) :
    k.needNumbers a b = h.needNumbers a b := by
  rw [Heap.needNumbers, Heap.needNumbers, looks.needNumber, looks'.needNumber]

theorem sameValue (looks : Looks h k a) (looks' : Looks h k b) :
    k.sameValue a b = h.sameValue a b := by
  rw [Heap.sameValue, Heap.sameValue, looks.number, looks'.number]

theorem operands (looks : Looks h k a) (looks' : Looks h k b) : k.operands a b = h.operands a b := by
  rw [Heap.operands, Heap.operands, looks.number, looks'.number, looks.text, looks'.text]

theorem unaryProduct? (looks : Looks h k a) (op : UnaryOp) :
    k.unaryProduct? op a = h.unaryProduct? op a := by
  cases op with
  | neg => rw [Heap.unaryProduct?, Heap.unaryProduct?, looks.number]
  | not => rw [Heap.unaryProduct?, Heap.unaryProduct?, looks.bool?]

theorem binaryProduct? (looks : Looks h k a) (looks' : Looks h k b) (op : BinaryOp) :
    k.binaryProduct? op a b = h.binaryProduct? op a b := by
  unfold Heap.binaryProduct?
  rw [looks.sameValue looks', looks.operands looks']

end Looks

theorem displayAll_congr : ∀ {as : List Address}, (∀ a ∈ as, Looks h k a) →
    k.displayAll as = h.displayAll as
  | [], _ => rfl
  | a :: as, looks => by
    rw [displayAll, displayAll, (looks a List.mem_cons_self).display,
      displayAll_congr fun b hb => looks b (List.mem_cons_of_mem a hb)]

/-! ## Channels -/

section Channels

variable (same : SameNode h k a) (hs : h.Sound) (ha : h.InUse a) (htag : h.tag a = .channel)

include same hs ha htag

theorem isFull_of_same : k.isFull a = h.isFull a := by
  obtain ⟨hle, hwrite, -⟩ := hs.channel_bounds ha htag
  have hslot : k.writeSlot a = h.writeSlot a := same.word 2 (by decide) (by decide)
  have hvalue := same.word (ringStart + h.writeSlot a) (Nat.le_add_right_of_le (by decide)) (by omega)
  rw [isFull, isFull, hslot, channelSlot, channelSlot, hvalue]

theorem channelFront_of_same : k.channelFront a = h.channelFront a := by
  obtain ⟨hle, -, hread⟩ := hs.channel_bounds ha htag
  have hslot : k.readSlot a = h.readSlot a := same.word 3 (by decide) (by decide)
  have hvalue := same.word (ringStart + h.readSlot a) (Nat.le_add_right_of_le (by decide)) (by omega)
  rw [channelFront, channelFront, hslot, channelSlot, channelSlot, hvalue]

theorem isEmpty_of_same : k.isEmpty a = h.isEmpty a :=
  congrArg (· == vacant) (channelFront_of_same same hs ha htag)

theorem channelLength_of_same (hblock : k.IsBlock a) : k.channelLength a = h.channelLength a := by
  obtain ⟨hle, -, -⟩ := hs.channel_bounds ha htag
  have hslots : k.channelSlots a = h.channelSlots a := same.word 1 (by decide) (by decide)
  have hinside := ha.toIsBlock.inside
  have hinside' := hblock.inside
  rw [channelLength_eq (by rw [hslots]; omega), channelLength_eq (by omega), hslots]
  refine List.countP_congr fun i hi => ?_
  have hlt := List.mem_range.1 hi
  rw [channelSlot, channelSlot,
    same.word (ringStart + i) (Nat.le_add_right_of_le (by decide)) (by omega)]

end Channels

/-! ## Frames to return to -/

theorem closing?_congr (n : Nat) : ∀ {environment : Address} {frames : List Address},
    (∀ a ∈ frames, SameNode h k a) →
      k.closing? n environment frames = h.closing? n environment frames := by
  induction n with
  | zero => exact fun _ => rfl
  | succ n ih =>
    intro environment frames same
    cases frames with
    | nil => rfl
    | cons frame rest =>
      have first := same frame List.mem_cons_self
      rw [closing?, closing?, first.tag, first.word 1 (Nat.le_refl 1) (by decide),
        ih fun a ha => same a (List.mem_cons_of_mem frame ha)]

end Heap

namespace Machine

variable {program : Program} {m k : Machine} {i : Instruction}

/-! ## The same instruction in a later machine -/

/-- What an instruction reads in the first machine is the same in the second one. -/
structure Repeats (m k : Machine) (i : Instruction) : Prop where
  /-- The registers. -/
  registers : k.registers = m.registers
  /-- The builtins. -/
  builtins : k.builtins = m.builtins
  /-- Whether channels are typed. -/
  typedChannels : k.typedChannels = m.typedChannels
  /-- What was live is in use. -/
  inUse : ∀ a, m.heap.Live m.roots a → k.heap.InUse a
  /-- Only channels change their headers. -/
  header : ∀ a, m.heap.Live m.roots a → m.heap.tag a ≠ .channel → k.heap.header a = m.heap.header a
  /-- Only frames, channels and numbers change. -/
  same : ∀ a, m.heap.Live m.roots a → m.heap.tag a ≠ .frame → m.heap.tag a ≠ .channel →
    m.heap.tag a ≠ .number → Heap.SameNode m.heap k.heap a
  /-- The operands. -/
  looks : ∀ a ∈ m.registers.stack, m.heap.Looks k.heap a
  /-- The variable. -/
  slot : ∀ a j, m.slot? i = some (a, j) → k.heap.word a j = m.heap.word a j
  /-- The channel. -/
  channel : ∀ a, m.channel? i = some a → m.heap.tag a = .channel → Heap.SameNode m.heap k.heap a
  /-- The count of the wait-group. -/
  group : ∀ g, m.group? i = some g → m.heap.tag g = .waitGroup →
    k.heap.groupCount g = m.heap.groupCount g
  /-- The queues. -/
  queue : ∀ p, m.WorksAt i p → k.queue p = m.queue p

namespace Repeats

variable (r : Repeats m k i) (hm : m.Sound)

include r

theorem tag {a : Address} (ha : a ∈ m.registers.stack) : k.heap.tag a = m.heap.tag a := (r.looks a ha).tag

include hm

/-- An environment lists the same frames. -/
theorem framesOf {environment : Address} (hlive : m.heap.Live m.roots environment)
    (htag : m.heap.tag environment = .environment) :
    k.heap.frameCount environment = m.heap.frameCount environment ∧
      k.heap.framesOf environment = m.heap.framesOf environment :=
  (r.same environment hlive (by rw [htag]; decide) (by rw [htag]; decide) (by rw [htag]; decide)).framesOf
    (hm.heap.typed environment (hm.inUse_of_live hlive)).le

/-- A position is one of the same variable. -/
theorem slotOf? (p : Position) : k.heap.slotOf? m.registers.environment p =
    m.heap.slotOf? m.registers.environment p := by
  obtain ⟨hcount, hframes⟩ := r.framesOf hm Sound.live_environment hm.registers.tag
  unfold Heap.slotOf?
  rw [hcount]
  split
  next hlt =>
    have hframe := Heap.getElem?_framesOf hlt
    have hword := Heap.getElem?_framesOf (hcount.symm ▸ hlt)
    rw [hframes, hframe, Option.some.injEq] at hword
    obtain ⟨hlive, htag⟩ := hm.heap.live_framesOf hm.inUse_root Sound.live_environment
      hm.registers.tag _ (List.mem_of_getElem? hframe)
    have hheader := r.header _ hlive (by rw [htag]; decide)
    dsimp only
    rw [← hword, Heap.tag, Heap.size, hheader]
    rfl
  next => rfl

/-- The frames to return to are the same. -/
theorem same_frames : ∀ a ∈ m.registers.frames, Heap.SameNode m.heap k.heap a := by
  intro a ha
  have hlive : m.heap.Live m.roots a := Sound.live_root (Registers.mem_roots.2 (.inr (.inr ha)))
  rcases (hm.registers.frames a ha).2 with htag | htag
  all_goals exact r.same a hlive (by rw [htag]; decide) (by rw [htag]; decide) (by rw [htag]; decide)

/-- A function is the same, and it keeps the same frames. -/
theorem function {n : Nat} {a : Address} (ha : m.registers.stack[n]? = some a)
    (htag : m.heap.tag a = .closure) : Heap.SameNode m.heap k.heap a ∧
      k.heap.frameCount (m.heap.word a 2) = m.heap.frameCount (m.heap.word a 2) ∧
      k.heap.framesOf (m.heap.word a 2) = m.heap.framesOf (m.heap.word a 2) := by
  have hlive := Sound.live_stack (List.mem_of_getElem? ha)
  obtain ⟨hkind, hcaptured⟩ := hm.heap.word_closure (hm.inUse_of_live hlive) htag
  exact ⟨r.same a hlive (by rw [htag]; decide) (by rw [htag]; decide) (by rw [htag]; decide),
    r.framesOf hm (hcaptured _ hlive) hkind⟩

/-! ### Builtins -/

theorem builtinProduct? {n : Nat} {entry : BuiltinEntry} {a : Address}
    (ha : m.registers.stack[n]? = some a) (htag : m.heap.tag a = .builtin)
    (hentry : m.builtins[(m.heap.payload a).toNat]? = some entry) (hi : i = .call n ∨ i = .tailCall n) :
    k.heap.builtinProduct? entry.action (m.registers.stack.take n).reverse =
      m.heap.builtinProduct? entry.action (m.registers.stack.take n).reverse := by
  have hlooks : ∀ b ∈ (m.registers.stack.take n).reverse, m.heap.Looks k.heap b := fun b hb =>
    r.looks b (List.mem_of_mem_take (List.mem_reverse.1 hb))
  -- Whoever asks for the length of a channel works on it.
  have hlength : entry.action = .len → ∀ b rest, (m.registers.stack.take n).reverse = b :: rest →
      k.heap.lengthOf b = m.heap.lengthOf b := by
    intro hlen b rest hstack
    have hmem : b ∈ m.registers.stack :=
      List.mem_of_mem_take (List.mem_reverse.1 (hstack ▸ List.mem_cons_self))
    have looks := r.looks b hmem
    rw [Heap.lengthOf, Heap.lengthOf, looks.tag]
    cases hkind : m.heap.tag b with
    | string => simp only [looks.text]
    | channel =>
      have hlive := Sound.live_stack hmem
      have hchannel : m.channel? i = some b := by
        have hbuiltin : m.builtin? n = some .len := by
          rw [builtin?, ha]
          dsimp only
          rw [if_pos htag, hentry, Option.map_some, hlen]
        rcases hi with rfl | rfl
        all_goals
          rw [channel?, if_pos hbuiltin, hstack]
          simp [hkind]
      simp only [Heap.channelLength_of_same (r.channel b hchannel hkind) hm.heap
        (hm.inUse_of_live hlive) hkind (r.inUse b hlive).toIsBlock]
    | _ => rfl
  generalize hargs : (m.registers.stack.take n).reverse = as at hlooks hlength ⊢
  unfold Heap.builtinProduct?
  split
  next => rw [Heap.displayAll_congr hlooks]
  next => rw [Heap.displayAll_congr hlooks]
  next hlen => rw [hlength hlen _ _ rfl]
  next => rw [(hlooks _ List.mem_cons_self).needNumber]
  next =>
    rw [(hlooks _ List.mem_cons_self).needNumbers (hlooks _ (List.mem_cons_of_mem _ List.mem_cons_self))]
  next =>
    rw [(hlooks _ List.mem_cons_self).needNumbers (hlooks _ (List.mem_cons_of_mem _ List.mem_cons_self))]
  next => rw [(hlooks _ List.mem_cons_self).display]
  next => rfl

theorem applying? {n : Nat} {a : Address} (tail : Bool) (ha : m.registers.stack[n]? = some a)
    (htag : m.heap.tag a = .builtin) (hi : i = .call n ∨ i = .tailCall n) :
    k.applying? (m.heap.payload a).toNat n tail = m.applying? (m.heap.payload a).toNat n tail := by
  unfold Machine.applying?
  rw [r.builtins, r.registers]
  cases hentry : m.builtins[(m.heap.payload a).toNat]? with
  | none => rfl
  | some entry =>
    have hreturning := Heap.returning?_congr (r.same_frames hm)
    have hproduct := r.builtinProduct? hm ha htag hentry hi
    simp only [Option.bind_eq_bind, Option.bind_some, hreturning, hproduct]

/-! ### Channels and wait-groups -/

theorem sending? (hi : i = .send) : k.sending? = m.sending? := by
  unfold Machine.sending?
  rw [r.registers]
  dsimp only
  split
  next value a rest hstack =>
    have hmem : a ∈ m.registers.stack := by simp [hstack]
    rw [r.tag hmem]
    split
    next => rfl
    next htag =>
      have htag : m.heap.tag a = .channel := of_not_not htag
      have hchannel : m.channel? i = some a := by
        rw [hi, channel?, hstack]
        rfl
      have same := r.channel a hchannel htag
      have hin := hm.inUse_of_live (Sound.live_stack hmem)
      have hrecording : k.recording? a value = m.recording? a value := by
        rw [recording?, recording?, r.typedChannels, r.tag (by simp [hstack]),
          Heap.elementKind?_congr same.header]
      have hqueue : k.queue (.channel .reader a) = m.queue (.channel .reader a) :=
        r.queue _ ⟨hchannel, htag⟩
      have hwrite : k.heap.writeSlot a = m.heap.writeSlot a := same.word 2 (by decide) (by decide)
      have hslots : k.heap.channelSlots a = m.heap.channelSlots a := same.word 1 (by decide) (by decide)
      rw [hrecording, Heap.isFull_of_same same hm.heap hin htag, hqueue, hwrite, hslots,
        Heap.isUnbuffered_congr same.header]
  next => rfl

theorem receiving? (hi : i = .receive) : k.receiving? = m.receiving? := by
  unfold Machine.receiving?
  rw [r.registers]
  dsimp only
  split
  next a rest hstack =>
    have hmem : a ∈ m.registers.stack := by simp [hstack]
    rw [r.tag hmem]
    split
    next => rfl
    next htag =>
      have htag : m.heap.tag a = .channel := of_not_not htag
      have hchannel : m.channel? i = some a := by
        rw [hi, channel?, hstack]
        rfl
      have same := r.channel a hchannel htag
      have hin := hm.inUse_of_live (Sound.live_stack hmem)
      have hqueue : ∀ side, k.queue (.channel side a) = m.queue (.channel side a) := fun _ =>
        r.queue _ ⟨hchannel, htag⟩
      have hread : k.heap.readSlot a = m.heap.readSlot a := same.word 3 (by decide) (by decide)
      have hslots : k.heap.channelSlots a = m.heap.channelSlots a := same.word 1 (by decide) (by decide)
      rw [Heap.isEmpty_of_same same hm.heap hin htag, Heap.channelFront_of_same same hm.heap hin htag,
        hqueue, hqueue, hread, hslots, Heap.isUnbuffered_congr same.header]
  next => rfl

omit hm in
theorem adjusting? {g : Address} {delta : Number} {n : Nat} (hg : g ∈ m.registers.stack)
    (hgroup : m.group? i = some g) : k.adjusting? g delta n = m.adjusting? g delta n := by
  unfold Machine.adjusting?
  dsimp only
  rw [r.tag hg]
  by_cases htag : m.heap.tag g = .waitGroup
  · have hqueue : k.queue (.group g) = m.queue (.group g) := r.queue _ ⟨hgroup, htag⟩
    have same := r.same g (Sound.live_stack hg) (by rw [htag]; decide) (by rw [htag]; decide)
      (by rw [htag]; decide)
    have hleave : k.allFrom [.group g] = m.allFrom [.group g] := by
      funext p
      unfold allFrom
      split
      next hp => rw [List.mem_singleton.1 hp, hqueue]
      next => rfl
    rw [r.registers, r.group g hgroup htag, hqueue, hleave, same.word 1 (Nat.le_refl 1) (by decide)]
  · rw [if_pos (.inl htag), if_pos (.inl htag)]

/-! ### Every instruction -/

/-- The instruction has the same effect. -/
theorem effectOf?_eq : k.effectOf? program i = m.effectOf? program i := by
  have htop : ∀ {j : Nat} {a : Address}, m.registers.stack[j]? = some a → m.heap.Looks k.heap a :=
    fun ha => r.looks _ (List.mem_of_getElem? ha)
  have hclosing : ∀ n, k.heap.closing? n m.registers.environment m.registers.frames =
      m.heap.closing? n m.registers.environment m.registers.frames := fun n =>
    Heap.closing?_congr n (r.same_frames hm)
  have hreturning := Heap.returning?_congr (r.same_frames hm)
  cases i with
  | load p =>
    simp only [effectOf?, r.registers, Heap.lookup, r.slotOf? hm p]
    cases hslot : m.heap.slotOf? m.registers.environment p with
    | none => rfl
    | some slot =>
      obtain ⟨frame, j⟩ := slot
      dsimp only
      rw [r.slot frame j hslot]
  | store p => simp only [effectOf?, r.registers, r.slotOf? hm p]
  | call n =>
    simp only [effectOf?, r.registers]
    cases ha : m.registers.stack[n]? with
    | none => rfl
    | some a =>
      dsimp only
      rw [(htop ha).tag]
      cases htag : m.heap.tag a with
      | builtin =>
        dsimp only
        rw [(htop ha).payload (by rw [htag]; decide), r.applying? hm false ha htag (.inl rfl)]
      | closure =>
        obtain ⟨same, hcount, hframes⟩ := r.function hm ha htag
        dsimp only
        rw [same.word 1 (Nat.le_refl 1) (by decide), invoking, invoking, r.registers,
          same.word 2 (by decide) (by decide), same.payload, Blueprint.inside, Blueprint.inside, hcount,
          hframes]
      | _ => rfl
  | tailCall n =>
    simp only [effectOf?, r.registers]
    cases ha : m.registers.stack[n]? with
    | none => rfl
    | some a =>
      dsimp only
      rw [(htop ha).tag]
      cases htag : m.heap.tag a with
      | builtin =>
        dsimp only
        rw [(htop ha).payload (by rw [htag]; decide), r.applying? hm true ha htag (.inr rfl)]
      | closure =>
        obtain ⟨same, hcount, hframes⟩ := r.function hm ha htag
        have hdrop : (m.registers.frames.dropWhile fun a => k.heap.tag a = .blockframe) =
            m.registers.frames.dropWhile fun a => m.heap.tag a = .blockframe :=
          dropWhile_congr fun a ha => by rw [(r.same_frames hm a ha).tag]
        dsimp only
        rw [same.word 1 (Nat.le_refl 1) (by decide), replacing, replacing, r.registers,
          same.word 2 (by decide) (by decide), same.payload, Blueprint.inside, Blueprint.inside, hcount,
          hframes, hdrop]
      | _ => rfl
  | ret => simp only [effectOf?, r.registers, hreturning]
  | enterScope n =>
    obtain ⟨hcount, hframes⟩ := r.framesOf hm Sound.live_environment hm.registers.tag
    simp only [effectOf?]
    rw [entering, entering, r.registers, Blueprint.inside, Blueprint.inside, hcount, hframes]
  | exitScope => simp only [effectOf?, r.registers, hclosing]
  | unary op =>
    simp only [effectOf?, r.registers]
    cases ha : m.registers.stack[0]? with
    | none => rfl
    | some a => rw [Option.bind_eq_bind, Option.bind_some, Option.bind_some, (htop ha).unaryProduct?]
  | binary op =>
    simp only [effectOf?, r.registers]
    cases hb : m.registers.stack[0]? with
    | none => rfl
    | some b =>
      cases ha : m.registers.stack[1]? with
      | none => rfl
      | some a =>
        simp only [Option.bind_eq_bind, Option.bind_some, (htop ha).binaryProduct? (htop hb)]
  | jumpUnless target =>
    simp only [effectOf?, r.registers]
    split
    next a rest hstack => rw [(r.looks a (by simp [hstack])).bool?]
    next => rfl
  | breakLoop | continueLoop =>
    simp only [effectOf?, r.registers]
    split
    next => rw [hclosing]
    next => rfl
    next => rfl
  | send => exact r.sending? hm rfl
  | receive => exact r.receiving? hm rfl
  | groupAdd =>
    simp only [effectOf?, r.registers]
    cases hx : m.registers.stack[0]? with
    | none => rfl
    | some x =>
      cases hg : m.registers.stack[1]? with
      | none => rfl
      | some g =>
        have hadjusting : ∀ delta : Number, k.adjusting? g delta 2 = m.adjusting? g delta 2 :=
          fun _ => r.adjusting? (List.mem_of_getElem? hg) hg
        simp only [Option.bind_eq_bind, Option.bind_some, (htop hx).number, hadjusting]
  | groupDone =>
    simp only [effectOf?, r.registers]
    cases hg : m.registers.stack[0]? with
    | none => rfl
    | some g =>
      simp only [Option.bind_eq_bind, Option.bind_some]
      exact r.adjusting? (List.mem_of_getElem? hg) hg
  | groupWait =>
    simp only [effectOf?, r.registers]
    cases hg : m.registers.stack[0]? with
    | none => simp only [Option.bind_eq_bind, Option.bind_none]
    | some g =>
      simp only [Option.bind_eq_bind, Option.bind_some, (htop hg).tag]
      by_cases htag : m.heap.tag g = .waitGroup
      · rw [if_neg (not_not.2 htag), if_neg (not_not.2 htag), r.group g hg htag]
      · rw [if_pos htag, if_pos htag]
  | _ => simp only [effectOf?, r.registers]

end Repeats

end Machine

end ChannelMachine

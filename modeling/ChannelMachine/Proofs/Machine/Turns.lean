import ChannelMachine.Proofs.Machine.Apart

/-!
# What an instruction does

`Acts program m k p d` lists all that an instruction can do that takes the machine `m` to `k`.  It has
one case for each way in which threads meet: a thread is started, a channel or a wait-group is made, a
channel accepts or delivers a value or has a thread wait, a wait-group is counted up or down or has a
thread wait.  All other instructions are apart.  Whatever holds along a run is proved from these cases,
so no other proof looks into an instruction.

A `Deal` is what the history of a channel is made of: that it was made, that it accepted a value, and
that it delivered one.
-/

namespace ChannelMachine

/-- Something that happens to a channel. -/
inductive Deal where
  /-- It was made. -/
  | made (a : Address) (capacity : Nat)
  /-- It accepted a value of a thread. -/
  | sent (t : ThreadId) (a v : Address)
  /-- It delivered a value to a thread. -/
  | received (t : ThreadId) (a v : Address)
deriving DecidableEq

namespace Machine

/-- What happened to a channel when the running thread executed its instruction and left `k` behind.
A send is accepted if the channel is not full, and a receive has delivered what is then on the
stack. -/
def dealt (program : Program) (m : Machine) (p : Progress) (k : Machine) : Option Deal :=
  match program.at? m.registers.pc with
  | some (.newChannel capacity) => k.registers.stack.head?.map fun a => .made a capacity
  | some .send =>
      match m.registers.stack with
      | v :: a :: _ => if m.heap.isFull a then none else some (.sent m.current a v)
      | _ => none
  | some .receive =>
      match m.registers.stack, k.registers.stack, p with
      | a :: _, v :: _, .advanced => some (.received m.current a v)
      | _, _, _ => none
  | _ => none

/-- What the next instruction does to a channel, if anything. -/
def deal? (program : Program) (m : Machine) : Option Deal :=
  match m.step program with
  | .ok p k => m.dealt program p k
  | .error _ _ => none

/-- The threads are the same, and nothing is printed. -/
structure SameCrew (m k : Machine) : Prop where
  /-- The running thread. -/
  current : k.current = m.current
  /-- The other threads. -/
  threads : k.threads = m.threads
  /-- The number of the next thread. -/
  nextThread : k.nextThread = m.nextThread
  /-- Whether channels are typed. -/
  typedChannels : k.typedChannels = m.typedChannels
  /-- The builtins. -/
  builtins : k.builtins = m.builtins
  /-- What has been printed. -/
  output : k.output = m.output

/-- The heap after the check of a value that is to be sent: a typed channel has the kind of the
value. -/
structure Checked (h k : Heap) (typed : Bool) (a v : Address) : Prop where
  /-- At most the kind was recorded in a typed channel, if none was before. -/
  eq : k = h ∨ (typed = true ∧ h.elementKind? a = none ∧ ∃ kind, k = h.setElementKind a kind)
  /-- The kinds agree. -/
  kind : typed = true → k.elementKind? a = some (elementType (k.tag v))

/-- What an instruction does. -/
inductive Acts (program : Program) (m k : Machine) : Progress → Option Deal → Prop where
  /-- It is about the running thread. -/
  | apart {p : Progress} (notSend : program.at? m.registers.pc ≠ some .send)
      (notReceive : program.at? m.registers.pc ≠ some .receive)
      (notSpawn : ∀ n, program.at? m.registers.pc ≠ some (.spawn n)) (goesOn : p ≠ .blocked)
      (apart : Apart m k) : Acts program m k p none
  /-- It starts a thread. -/
  | started {n : Nat} {r : Registers} (instr : program.at? m.registers.pc = some (.spawn n))
      (heap : k.heap = m.heap) (current : k.current = m.current)
      (threads : k.threads = m.threads.insert m.nextThread r)
      (nextThread : k.nextThread = m.nextThread + 1)
      (typedChannels : k.typedChannels = m.typedChannels)
      (requeues : Requeues m k (oneFrom []) [m.nextThread] none) : Acts program m k .advanced none
  /-- It makes a channel. -/
  | madeChannel {a : Address} {capacity : Nat}
      (instr : program.at? m.registers.pc = some (.newChannel capacity))
      (le : capacity ≤ maxCapacity) (crew : SameCrew m k)
      (notLive : ¬ m.heap.Live m.roots a) (heap : m.heap.Spares k.heap m.roots (· = a))
      (inUse : k.heap.InUse a)
      (holds : k.heap.Holds a (Heap.channelHeader capacity) (Heap.emptyRing (max capacity 1)))
      (requeues : Requeues m k (allFrom m (Place.ofChannel a)) [] none) :
      Acts program m k .advanced (some (.made a capacity))
  /-- A channel accepts a value. -/
  | sent {v a : Address} {rest : List Address} {checked : Heap}
      (instr : program.at? m.registers.pc = some .send)
      (stack : m.registers.stack = v :: a :: rest) (tag : m.heap.tag a = .channel)
      (room : m.heap.isFull a = false) (crew : SameCrew m k)
      (check : Checked m.heap checked m.typedChannels a v) (heap : k.heap = checked.channelPush a v)
      (registers : k.registers =
        { m.registers with stack := Heap.undefined :: rest, pc := m.registers.pc + 1 })
      (requeues : Requeues m k (oneFrom [.channel .reader a])
        ((m.queue (.channel .reader a)).take 1)
        (if m.heap.isUnbuffered a then some (.channel .sender a) else none)) :
      Acts program m k (if m.heap.isUnbuffered a then .blocked else .advanced)
        (some (.sent m.current a v))
  /-- A channel has no room for a value. -/
  | full {v a : Address} {rest : List Address}
      (instr : program.at? m.registers.pc = some .send)
      (stack : m.registers.stack = v :: a :: rest) (tag : m.heap.tag a = .channel)
      (full : m.heap.isFull a = true) (crew : SameCrew m k)
      (check : Checked m.heap k.heap m.typedChannels a v) (registers : k.registers = m.registers)
      (requeues : Requeues m k (oneFrom []) [] (some (.channel .writer a))) :
      Acts program m k .blocked none
  /-- A channel delivers a value. -/
  | received {a : Address} {rest : List Address}
      (instr : program.at? m.registers.pc = some .receive)
      (stack : m.registers.stack = a :: rest) (tag : m.heap.tag a = .channel)
      (taken : m.heap.isEmpty a = false) (crew : SameCrew m k)
      (heap : k.heap = m.heap.channelPop a)
      (registers : k.registers =
        { m.registers with stack := m.heap.channelFront a :: rest, pc := m.registers.pc + 1 })
      (requeues : Requeues m k
        (oneFrom (if m.heap.isUnbuffered a then [.channel .sender a, .channel .writer a]
          else [.channel .writer a]))
        ((if m.heap.isUnbuffered a then (m.queue (.channel .sender a)).take 1 else []) ++
          (m.queue (.channel .writer a)).take 1) none) :
      Acts program m k .advanced (some (.received m.current a (m.heap.channelFront a)))
  /-- A channel has no value. -/
  | empty {a : Address} {rest : List Address}
      (instr : program.at? m.registers.pc = some .receive)
      (stack : m.registers.stack = a :: rest) (tag : m.heap.tag a = .channel)
      (empty : m.heap.isEmpty a = true) (crew : SameCrew m k) (heap : k.heap = m.heap)
      (registers : k.registers = m.registers)
      (requeues : Requeues m k (oneFrom []) [] (some (.channel .reader a))) :
      Acts program m k .blocked none
  /-- It makes a wait-group. -/
  | madeGroup {a : Address} (instr : program.at? m.registers.pc = some .newWaitGroup)
      (crew : SameCrew m k) (notLive : ¬ m.heap.Live m.roots a)
      (heap : m.heap.Spares k.heap m.roots (· = a)) (inUse : k.heap.InUse a)
      (tag : k.heap.tag a = .waitGroup)
      (own : ∀ b, k.heap.InUse b → k.heap.tag b = .waitGroup → k.heap.word b 1 = k.heap.word a 1 →
        b = a)
      (requeues : Requeues m k (allFrom m [.group a]) [] none) (count : k.heap.groupCount a = .zero) :
      Acts program m k .advanced none
  /-- A wait-group is counted up or down, and at zero all threads that wait for it are woken. -/
  | counted {g : Address} {count : Number}
      (instr : program.at? m.registers.pc = some .groupAdd ∨
        program.at? m.registers.pc = some .groupDone)
      (inUse : m.heap.InUse g) (tag : m.heap.tag g = .waitGroup)
      (nonneg : count.less .zero = false) (crew : SameCrew m k)
      (heap : k.heap = m.heap.setGroupCount g count)
      (requeues : if count.same .zero then
          Requeues m k (allFrom m [.group g]) (m.queue (.group g)) none
        else Requeues m k (oneFrom []) [] none) : Acts program m k .advanced none
  /-- A wait-group is above zero. -/
  | waits {g : Address} {rest : List Address}
      (instr : program.at? m.registers.pc = some .groupWait)
      (stack : m.registers.stack = g :: rest) (tag : m.heap.tag g = .waitGroup)
      (above : Number.zero.less (m.heap.groupCount g) = true) (crew : SameCrew m k)
      (heap : k.heap = m.heap) (registers : k.registers = m.registers)
      (requeues : Requeues m k (oneFrom []) [] (some (.group g))) : Acts program m k .blocked none

/-- What an instruction ensures. -/
def Does (program : Program) (x : Action Progress) (m : Machine) : Prop :=
  Ensures x m (fun p k => Acts program m k p (m.dealt program p k))
    (fun e k => e ≠ .deadlock ∧ Apart m k)

variable {m k : Machine} {program : Program}

theorem SameCore.crew (core : SameCore m k) : SameCrew m k :=
  ⟨core.current, core.threads, core.nextThread, core.typedChannels, core.builtins, core.output⟩

/-! ## Rules -/

section Rules

variable {α : Type} {bad : Fault → Machine → Prop}

theorem ensures_channel {a : Address} {good : Unit → Machine → Prop}
    (h : m.heap.tag a = .channel → good () m) (hbad : ∀ t, bad (.type (.notChannel t)) m) :
    Ensures (needChannel a) m good bad := by
  refine .bind (ensures_readHeap ?_)
  split
  next => exact .throw (hbad _)
  next htag => exact .pure (h (Classical.not_not.1 htag))

theorem ensures_waitGroup {a : Address} {good : Unit → Machine → Prop}
    (h : m.heap.tag a = .waitGroup → good () m) (hbad : ∀ t, bad (.type (.notWaitGroup t)) m) :
    Ensures (needWaitGroup a) m good bad := by
  refine .bind (ensures_readHeap ?_)
  split
  next => exact .throw (hbad _)
  next htag => exact .pure (h (Classical.not_not.1 htag))

end Rules

/-! ## Threads -/

theorem Sound.does_spawn (hm : m.Sound) {n : Nat}
    (instr : program.at? m.registers.pc = some (.spawn n)) :
    Does program (proceed (spawn n)) m := by
  have hdealt : ∀ p k, m.dealt program p k = none := fun p k => by simp [dealt, instr]
  refine .bind (.bind (ensures_registersNow ?_))
  split
  next => exact .bind (.throw ⟨by simp, hm.apart⟩)
  next =>
    refine .bind (ensures_update (.bind (ensures_replace (ensures_goTo (.pure ?_)))))
    obtain ⟨core, hchannels, hgroups, hrunnable⟩ := sameCore_note { m with
        threads := m.threads.insert m.nextThread ⟨m.registers.stack.take (n + 1),
          m.registers.pc + 1, m.registers.environment, []⟩
        nextThread := m.nextThread + 1
        runnable := m.runnable ++ [m.nextThread] } (.spawned m.nextThread m.current)
    rw [hdealt]
    exact .started instr core.heap core.current core.threads core.nextThread core.typedChannels
      (.of_eq hchannels hgroups hrunnable)

/-! ## Channels -/

theorem Sound.does_newChannel (hm : m.Sound) {capacity : Nat}
    (instr : program.at? m.registers.pc = some (.newChannel capacity)) :
    Does program (proceed (newChannel capacity)) m := by
  have harena : ∀ k, Heap.SameArena k (m.withHeap k).heap := fun k =>
    (alike_withHeap m k).toSameArena
  refine .bind (.bind (ensures_onHeap ((hm.heap.newChannel_spares hm.inUse_roots capacity).mono
    ?_ ?_)))
  · rintro a k ⟨hle, spares, made⟩
    refine .bind (ensures_update (.bind (ensures_push (ensures_advance (.pure ?_)))))
    have hdealt : ∀ (p : Progress) (l : Machine), l.registers.stack = a :: m.registers.stack →
        m.dealt program p l = some (.made a capacity) := by
      intro p l hl
      simp [dealt, instr, hl]
    rw [hdealt _ _ rfl]
    exact .madeChannel instr hle ⟨rfl, rfl, rfl, rfl, rfl, rfl⟩ made.not_live (spares.congr (harena k))
      ((harena k).inUse.2 made.toInUse) (made.toHolds.of_same made.fits ((harena k).same a))
      (.of_reset (queue_reset_channel m a) (List.append_nil _).symm)
  · exact fun e k ⟨hne, spares⟩ => ⟨hne, rfl, rfl, rfl, rfl, rfl, rfl, rfl, spares.congr (harena k)⟩

/-- What the words of a channel in use are good for. -/
theorem Sound.channel_bounds (hm : m.Sound) {i : Nat} {a : Address}
    (ha : m.registers.stack[i]? = some a) (htag : m.heap.tag a = .channel) :
    m.heap.IsBlock a ∧ ringStart + m.heap.writeSlot a < nodeSize ∧
      ringStart + m.heap.readSlot a < nodeSize := by
  have hin := (hm.isValue_stack ha).1
  obtain ⟨hle, hwrite, hread⟩ := hm.heap.channel_bounds hin htag
  exact ⟨hin.toIsBlock, by omega, by omega⟩

/-- The check of a value that is to be sent. -/
theorem Sound.ensures_checked (hm : m.Sound) {v a : Address}
    (hv : m.registers.stack[0]? = some v) (ha : m.registers.stack[1]? = some a)
    (htag : m.heap.tag a = .channel) :
    Ensures (checkElement a v) m
      (fun _ k => ∃ checked, Checked m.heap checked true a v ∧ k = { m with heap := checked })
      (fun e k => e ≠ .deadlock ∧ k = m) := by
  refine .bind (ensures_readHeap (.bind (ensures_readHeap ?_)))
  split
  next hnone =>
    have hin := (hm.isValue_stack ha).1
    have u := hm.heap.setElementKind hin htag (elementType (m.heap.tag v))
    refine ensures_updateHeap ⟨_, ⟨.inr ⟨rfl, hnone, _, rfl⟩, fun _ => ?_⟩, rfl⟩
    rw [Heap.elementKind?_setElementKind hin.toIsBlock, u.tag (hm.isValue_stack hv).1.toIsBlock]
  next expected hsome =>
    split
    next => exact .throw ⟨by simp, rfl⟩
    next heq =>
      refine .pure ⟨m.heap, ⟨.inl rfl, fun _ => ?_⟩, rfl⟩
      rw [hsome, Classical.not_not.1 heq]

namespace Checked

variable {h k : Heap} {typed : Bool} {a v : Address}

theorem isFull (check : Checked h k typed a v) (ha : h.IsBlock a)
    (hi : ringStart + h.writeSlot a < nodeSize) : k.isFull a = h.isFull a := by
  rcases check.eq with rfl | ⟨-, -, kind, rfl⟩
  · rfl
  · exact Heap.isFull_setElementKind ha hi kind

theorem isUnbuffered (check : Checked h k typed a v) (ha : h.IsBlock a) :
    k.isUnbuffered a = h.isUnbuffered a := by
  rcases check.eq with rfl | ⟨-, -, kind, rfl⟩
  · rfl
  · exact Heap.isUnbuffered_setElementKind ha kind

theorem word (check : Checked h k typed a v) (ha : h.IsBlock a) {i : Nat} (hpos : 1 ≤ i)
    (hi : i < nodeSize) : k.word a i = h.word a i := by
  rcases check.eq with rfl | ⟨-, -, kind, rfl⟩
  · rfl
  · exact Heap.word_setElementKind ha kind hpos hi

theorem writeSlot (check : Checked h k typed a v) (ha : h.IsBlock a) :
    k.writeSlot a = h.writeSlot a :=
  check.word ha (by decide) (by decide)

theorem isBlock (check : Checked h k typed a v) (ha : h.IsBlock a) : k.IsBlock a := by
  rcases check.eq with rfl | ⟨-, -, kind, rfl⟩
  · exact ha
  · exact (Heap.writes_setPayload ha _).isBlock.2 ha

end Checked

theorem exists_top {stack : List Address} {a : Address} (ha : stack[0]? = some a) :
    ∃ rest, stack = a :: rest := by
  match stack, ha with
  | _ :: rest, rfl => exact ⟨rest, rfl⟩

theorem exists_top_two {stack : List Address} {v a : Address} (hv : stack[0]? = some v)
    (ha : stack[1]? = some a) : ∃ rest, stack = v :: a :: rest := by
  match stack, hv, ha with
  | _ :: _ :: rest, rfl, rfl => exact ⟨rest, rfl⟩

/-- If a send ends in a fault, nothing has happened. -/
theorem Sound.acts_send (hm : m.Sound) (instr : program.at? m.registers.pc = some .send) :
    Ensures send m (fun p k => Acts program m k p (m.dealt program p k))
      (fun e k => e ≠ .deadlock ∧ k = m) := by
  refine .bind (ensures_peek (fun v hv => ?_) fun _ => ⟨by simp, rfl⟩)
  refine .bind (ensures_peek (fun a ha => ?_) fun _ => ⟨by simp, rfl⟩)
  refine .bind (ensures_channel (fun htag => .bind (.get ?_)) fun _ => ⟨by simp, rfl⟩)
  obtain ⟨rest, hstack⟩ := exists_top_two hv ha
  obtain ⟨hblock, hwrite, -⟩ := hm.channel_bounds ha htag
  have hdealt : ∀ p k, m.dealt program p k =
      if m.heap.isFull a then none else some (.sent m.current a v) := fun p k => by
    simp only [dealt, instr, hstack]
  -- What follows the check of the value.
  have hrest : ∀ checked, Checked m.heap checked m.typedChannels a v → Ensures (do
        if ← readHeap (·.isFull a) then
          waitAt .writer a
          return Progress.blocked
        updateHeap (·.channelPush a v)
        replace 2 Heap.undefined
        advance
        wakeAt .reader a
        if ← readHeap (·.isUnbuffered a) then
          waitAt .sender a
          return .blocked
        return .advanced) { m with heap := checked }
      (fun p k => Acts program m k p (m.dealt program p k))
      (fun e k => e ≠ .deadlock ∧ k = m) := by
    intro checked check
    refine .bind (ensures_readHeap ?_)
    dsimp only
    rw [check.isFull hblock hwrite]
    split
    next hfull =>
      refine .bind (ensures_waitAt fun k core re => .pure ?_)
      rw [hdealt, if_pos hfull]
      exact .full instr hstack htag hfull ⟨core.current, core.threads, core.nextThread,
        core.typedChannels, core.builtins, core.output⟩ (core.heap.symm ▸ check) core.registers
        ⟨re.queue, re.runnable⟩
    next hfull =>
      refine .bind (ensures_updateHeap (.bind (ensures_replace (.bind (ensures_advance ?_)))))
      refine .bind (ensures_wakeAt fun k core re => .bind (ensures_readHeap ?_))
      have hunbuffered : k.heap.isUnbuffered a = m.heap.isUnbuffered a := by
        rw [core.heap]
        have hheader := Heap.header_channelPush (check.isBlock hblock)
          (check.writeSlot hblock ▸ hwrite) v
        exact (Heap.isUnbuffered_congr hheader).trans (check.isUnbuffered hblock)
      have hacts : ∀ l, SameCore k l → Requeues m l (oneFrom [.channel .reader a])
          ((m.queue (.channel .reader a)).take 1)
          (if m.heap.isUnbuffered a then some (.channel .sender a) else none) →
          Acts program m l (if m.heap.isUnbuffered a then .blocked else .advanced)
            (some (.sent m.current a v)) := by
        intro l core' re'
        have core'' := core.trans core'
        exact .sent instr hstack htag (Bool.eq_false_iff.2 hfull) ⟨core''.current, core''.threads,
          core''.nextThread, core''.typedChannels, core''.builtins, core''.output⟩ check core''.heap
          (core''.registers.trans (by rw [hstack]; rfl)) re'
      rw [hunbuffered]
      cases hb : m.heap.isUnbuffered a with
      | true =>
        rw [hb] at hacts
        refine .bind (ensures_waitAt fun l core' re' => .pure ?_)
        rw [hdealt, if_neg hfull]
        have joined := re.join re' core.current
        exact hacts l core' ⟨joined.queue, joined.runnable⟩
      | false =>
        rw [hb] at hacts
        refine .pure ?_
        rw [hdealt, if_neg hfull]
        exact hacts k ⟨rfl, rfl, rfl, rfl, rfl, rfl, rfl, rfl⟩ ⟨re.queue, re.runnable⟩
  split
  next htyped =>
    refine .bind ((hm.ensures_checked hv ha htag).mono ?_ ?_)
    · rintro - k ⟨checked, check, rfl⟩
      exact hrest checked (htyped ▸ check)
    · rintro e k ⟨hne, rfl⟩
      exact ⟨hne, rfl⟩
  next htyped => exact hrest m.heap ⟨.inl rfl, fun h => absurd h htyped⟩

theorem Sound.does_send (hm : m.Sound) (instr : program.at? m.registers.pc = some .send) :
    Does program send m :=
  (hm.acts_send instr).mono (fun _ _ acts => acts) fun _ _ h => ⟨h.1, h.2 ▸ hm.apart⟩

/-- If a receive ends in a fault, nothing has happened. -/
theorem Sound.acts_receive (hm : m.Sound) (instr : program.at? m.registers.pc = some .receive) :
    Ensures receive m (fun p k => Acts program m k p (m.dealt program p k))
      (fun e k => e ≠ .deadlock ∧ k = m) := by
  refine .bind (ensures_peek (fun a ha => ?_) fun _ => ⟨by simp, rfl⟩)
  refine .bind (ensures_channel (fun htag => .bind (ensures_readHeap ?_)) fun _ =>
    ⟨by simp, rfl⟩)
  obtain ⟨hblock, -, hread⟩ := hm.channel_bounds ha htag
  obtain ⟨rest, hstack⟩ := exists_top ha
  split
  next hempty =>
    refine .bind (ensures_waitAt fun k core re => .pure ?_)
    have hdealt : m.dealt program .blocked k = none := by simp [dealt, instr, hstack]
    rw [hdealt]
    exact .empty instr hstack htag hempty core.crew core.heap core.registers re
  next hempty =>
    refine .bind (ensures_readHeap (.bind (ensures_updateHeap (.bind (ensures_replace
      (.bind (ensures_advance ?_)))))))
    have hunbuffered : (m.heap.channelPop a).isUnbuffered a = m.heap.isUnbuffered a :=
      Heap.isUnbuffered_congr (Heap.header_channelPop hblock hread)
    have hacts : ∀ l, SameCore { m with heap := m.heap.channelPop a, registers := { m.registers with
          stack := m.heap.channelFront a :: rest, pc := m.registers.pc + 1 } } l →
        Requeues m l
          (oneFrom (if m.heap.isUnbuffered a then [.channel .sender a, .channel .writer a]
            else [.channel .writer a]))
          ((if m.heap.isUnbuffered a then (m.queue (.channel .sender a)).take 1 else []) ++
            (m.queue (.channel .writer a)).take 1) none →
        Acts program m l .advanced (m.dealt program .advanced l) := by
      intro l core re
      have hdealt : m.dealt program .advanced l =
          some (.received m.current a (m.heap.channelFront a)) := by
        simp [dealt, instr, hstack, core.registers]
      rw [hdealt]
      exact .received instr hstack htag (Bool.eq_false_iff.2 hempty) ⟨core.current, core.threads,
        core.nextThread, core.typedChannels, core.builtins, core.output⟩ core.heap core.registers re
    have hlast : ∀ l leave woken, SameCore { m with heap := m.heap.channelPop a, registers :=
          { m.registers with stack := m.heap.channelFront a :: rest, pc := m.registers.pc + 1 } } l →
        Requeues m l leave woken none → leave (.channel .writer a) = 0 →
        (∀ p, oneFrom (if m.heap.isUnbuffered a then [.channel .sender a, .channel .writer a]
            else [.channel .writer a]) p = leave p + oneFrom [.channel .writer a] p) →
        (if m.heap.isUnbuffered a then (m.queue (.channel .sender a)).take 1 else []) = woken →
        Ensures (do
          wakeAt .writer a
          return Progress.advanced) l
          (fun p k => Acts program m k p (m.dealt program p k))
          (fun e k => e ≠ .deadlock ∧ k = m) := by
      intro l leave woken core re hleave hplaces hwoken
      refine .bind (ensures_wakeAt fun k core' re' => .pure (hacts k (core.trans core') ?_))
      have hqueue := re.queue_of_stay hleave (Option.some_ne_none _).symm
      rw [hqueue] at re'
      have both := re.trans re' core.current
      rw [hwoken]
      refine ⟨fun p => ?_, both.runnable⟩
      rw [hplaces]
      exact both.queue p
    refine .bind (ensures_readHeap ?_)
    split
    next hb =>
      have hb' : m.heap.isUnbuffered a = true := hunbuffered.symm.trans hb
      refine .bind (ensures_wakeAt fun l core re => ?_)
      refine hlast l _ _ (by rw [hstack] at core; exact core) ⟨re.queue, re.runnable⟩ (by simp [oneFrom]) ?_ (by rw [hb']; rfl)
      intro p
      simp only [hb', if_true, oneFrom, List.mem_cons, List.not_mem_nil, or_false]
      by_cases hs : p = .channel .sender a
      · subst hs
        simp
      · simp [hs]
    next hb =>
      have hb' : m.heap.isUnbuffered a = false :=
        hunbuffered.symm.trans (Bool.eq_false_iff.2 hb)
      refine hlast _ (oneFrom []) [] ?_ (.of_eq rfl rfl (List.append_nil _).symm) rfl ?_ ?_
      · rw [hstack]
        exact ⟨rfl, rfl, rfl, rfl, rfl, rfl, rfl, rfl⟩
      · intro p
        simp [hb', oneFrom]
      · simp [hb']

theorem Sound.does_receive (hm : m.Sound) (instr : program.at? m.registers.pc = some .receive) :
    Does program receive m :=
  (hm.acts_receive instr).mono (fun _ _ acts => acts) fun _ _ h => ⟨h.1, h.2 ▸ hm.apart⟩

/-! ## Wait-groups -/

theorem Sound.does_newWaitGroup (hm : m.Sound)
    (instr : program.at? m.registers.pc = some .newWaitGroup) :
    Does program (proceed newWaitGroup) m := by
  have harena : ∀ k, Heap.SameArena k (m.withHeap k).heap := fun k =>
    (alike_withHeap m k).toSameArena
  have hdealt : ∀ p k, m.dealt program p k = none := fun p k => by simp [dealt, instr]
  refine .bind (.bind (ensures_onHeap ((hm.heap.newWaitGroup_spares hm.inUse_roots).mono ?_ ?_)))
  · rintro a k ⟨spares, hlive, -, hin, htag, hown, hcount⟩
    refine .bind (ensures_update (.bind (ensures_push (ensures_advance (.pure ?_)))))
    rw [hdealt]
    refine .madeGroup instr ⟨rfl, rfl, rfl, rfl, rfl, rfl⟩ hlive (spares.congr (harena k))
      ((harena k).inUse.2 hin) (((harena k).tag a).trans htag) ?_
      (.of_reset (queue_reset_group m a) (List.append_nil _).symm)
      (((harena k).groupCount a).trans hcount)
    intro b hb hbtag heq
    have hword : ∀ c, (m.withHeap k).heap.word c 1 = k.word c 1 := fun c => (harena k).word c 1
    refine hown b ((harena k).inUse.1 hb) (((harena k).tag b).symm.trans hbtag) ?_
    rw [← hword, ← hword]
    exact heq
  · exact fun e k ⟨hne, spares⟩ => ⟨hne, rfl, rfl, rfl, rfl, rfl, rfl, rfl, spares.congr (harena k)⟩

/-- The rule for counting a wait-group up or down. -/
theorem ensures_adjust {g : Address} {delta : Number}
    {good : Unit → Machine → Prop} {bad : Fault → Machine → Prop}
    (h : ∀ count k, ¬ (Number.zero.less delta = true ∧ m.queue (.group g) ≠ []) →
      count = (m.heap.groupCount g).add delta → count.less .zero = false → SameCrew m k →
      k.registers = m.registers → k.heap = m.heap.setGroupCount g count →
      (if count.same .zero then Requeues m k (allFrom m [.group g]) (m.queue (.group g)) none
        else Requeues m k (oneFrom []) [] none) → good () k)
    (hbad : ∀ e, e ≠ .deadlock → bad e m) : Ensures (adjust g delta) m good bad := by
  refine .bind (.get ?_)
  have hrest : ¬ (Number.zero.less delta = true ∧ m.queue (.group g) ≠ []) → Ensures (do
      let count := (← readHeap (·.groupCount g)).add delta
      if count.less .zero then throw .negativeWaitGroup
      updateHeap (·.setGroupCount g count)
      if count.same .zero then
        update fun m => { m with groups := m.groups.reset g }
        wakeAll (m.groups.get g)) m good bad := by
    intro husable
    refine .bind (ensures_readHeap ?_)
    dsimp only
    split
    next => exact .bind (.throw (hbad _ (by simp)))
    next hless =>
      have hnonneg := Bool.eq_false_iff.2 hless
      refine .bind (ensures_updateHeap ?_)
      split
      next hzero =>
        refine .bind (ensures_update (ensures_wakeAll _ fun k core re => ?_))
        refine h _ k husable rfl hnonneg ⟨core.current, core.threads, core.nextThread,
          core.typedChannels, core.builtins, core.output⟩ core.registers core.heap ?_
        rw [if_pos hzero]
        have hreset : Requeues m { m with groups := m.groups.reset g } (allFrom m [.group g]) [] none :=
          .of_reset (queue_reset_group m g) (List.append_nil _).symm
        have hwoken : Requeues { m with groups := m.groups.reset g } k (oneFrom [])
            (m.queue (.group g)) none := ⟨re.queue, re.runnable⟩
        have both := hreset.trans hwoken rfl
        exact ⟨both.queue, both.runnable⟩
      next hzero =>
        refine .pure (h _ _ husable rfl hnonneg ⟨rfl, rfl, rfl, rfl, rfl, rfl⟩ rfl rfl ?_)
        rw [if_neg hzero]
        exact .of_eq rfl rfl (List.append_nil _).symm
  dsimp only
  split
  next => exact .bind (.throw (hbad _ (by simp)))
  next husable => exact hrest husable

/-- After counting a wait-group up or down the operands are replaced. -/
theorem Sound.does_adjust (hm : m.Sound) {i : Nat} {g : Address} {delta : Number} (n : Nat)
    (instr : program.at? m.registers.pc = some .groupAdd ∨
      program.at? m.registers.pc = some .groupDone)
    (hg : m.registers.stack[i]? = some g) (htag : m.heap.tag g = .waitGroup) :
    Ensures (do
        adjust g delta
        replace n Heap.undefined
        advance) m
      (fun _ k => Acts program m k .advanced none) (fun e k => e ≠ .deadlock ∧ Apart m k) := by
  refine .bind (ensures_adjust ?_ fun e he => ⟨he, hm.apart⟩)
  intro count k _ _ hnonneg crew hregisters hheap hre
  refine .bind (ensures_replace (ensures_advance ?_))
  refine .counted instr (hm.isValue_stack hg).1 htag hnonneg ⟨crew.current, crew.threads,
    crew.nextThread, crew.typedChannels, crew.builtins, crew.output⟩ hheap ?_
  split at hre
  next hzero =>
    rw [if_pos hzero]
    exact ⟨hre.queue, hre.runnable⟩
  next hzero =>
    rw [if_neg hzero]
    exact ⟨hre.queue, hre.runnable⟩

theorem Sound.does_groupAdd (hm : m.Sound)
    (instr : program.at? m.registers.pc = some .groupAdd) :
    Does program (proceed groupAdd) m := by
  have hdealt : ∀ p k, m.dealt program p k = none := fun p k => by simp [dealt, instr]
  refine .bind (.bind (ensures_peek (fun delta _ => ?_) fun _ => ⟨by simp, hm.apart⟩))
  refine .bind (ensures_peek (fun g hg => ?_) fun _ => ⟨by simp, hm.apart⟩)
  refine .bind (ensures_waitGroup (fun htag => .bind (ensures_readHeap ?_)) fun _ =>
    ⟨by simp, hm.apart⟩)
  split
  next => exact .bind (ensures_readHeap (.throw ⟨by simp, hm.apart⟩))
  next x _ =>
    refine (hm.does_adjust 2 (.inl instr) hg htag).mono (fun _ k acts => .pure ?_) fun _ _ h => h
    rw [hdealt]
    exact acts

theorem Sound.does_groupDone (hm : m.Sound)
    (instr : program.at? m.registers.pc = some .groupDone) :
    Does program (proceed groupDone) m := by
  have hdealt : ∀ p k, m.dealt program p k = none := fun p k => by simp [dealt, instr]
  refine .bind (.bind (ensures_peek (fun g hg => ?_) fun _ => ⟨by simp, hm.apart⟩))
  refine .bind (ensures_waitGroup (fun htag => ?_) fun _ => ⟨by simp, hm.apart⟩)
  refine (hm.does_adjust 1 (.inr instr) hg htag).mono (fun _ k acts => .pure ?_) fun _ _ h => h
  rw [hdealt]
  exact acts

theorem Sound.does_groupWait (hm : m.Sound)
    (instr : program.at? m.registers.pc = some .groupWait) : Does program groupWait m := by
  have hdealt : ∀ p k, m.dealt program p k = none := fun p k => by simp [dealt, instr]
  refine .bind (ensures_peek (fun g hg => ?_) fun _ => ⟨by simp, hm.apart⟩)
  refine .bind (ensures_waitGroup (fun htag => .bind (ensures_readHeap ?_)) fun _ =>
    ⟨by simp, hm.apart⟩)
  obtain ⟨rest, hstack⟩ := exists_top hg
  split
  next habove =>
    refine .bind (ensures_update (.pure ?_))
    rw [hdealt]
    exact .waits instr hstack htag habove ⟨rfl, rfl, rfl, rfl, rfl, rfl⟩ rfl rfl
      (.of_join (queue_enqueue_group m g m.current) rfl)
  next =>
    refine .bind (ensures_replace (.bind (ensures_advance (.pure ?_))))
    rw [hdealt]
    exact .apart (by simp [instr]) (by simp [instr]) (by simp [instr]) (by simp)
      (hm.apart.still ⟨rfl, rfl, rfl, rfl, rfl, rfl, rfl, rfl⟩)

/-! ## Steps -/

/-- An instruction that is apart is no deal. -/
theorem Sound.does_apart (hm : m.Sound) {i : Instruction}
    (instr : program.at? m.registers.pc = some i) (hi : i.meets = false) :
    Does program (execute program i) m := by
  refine (hm.apart_execute program hi).mono (fun p k ⟨hp, apart⟩ => ?_) fun _ _ h => h
  have hdealt : m.dealt program p k = none := by
    cases i with
    | newChannel _ | send | receive => cases hi
    | _ => simp only [dealt, instr]
  rw [hdealt]
  have hne : ∀ j : Instruction, j.meets = true → program.at? m.registers.pc ≠ some j := by
    intro j hj heq
    rw [instr, Option.some.injEq] at heq
    rw [heq, hj] at hi
    cases hi
  exact .apart (hne _ rfl) (hne _ rfl) (fun n => hne (.spawn n) rfl) hp apart

/-- All that a step of a sound machine can do.  It never reports a deadlock. -/
theorem Sound.does_step (hm : m.Sound) (program : Program) : Does program (step program) m := by
  refine .bind (ensures_registersNow ?_)
  split
  next i instr =>
    cases hi : i.meets with
    | false => exact hm.does_apart instr hi
    | true =>
      cases i with
      | spawn n => exact hm.does_spawn instr
      | newChannel capacity => exact hm.does_newChannel instr
      | send => exact hm.does_send instr
      | receive => exact hm.does_receive instr
      | newWaitGroup => exact hm.does_newWaitGroup instr
      | groupAdd => exact hm.does_groupAdd instr
      | groupDone => exact hm.does_groupDone instr
      | groupWait => exact hm.does_groupWait instr
      | _ => cases hi
  next hnone =>
    refine .bind (ensures_registersNow (.pure ?_))
    have hdealt : ∀ p, m.dealt program p m = none := fun p => by simp [dealt, hnone]
    rw [hdealt]
    exact .apart (by simp [hnone]) (by simp [hnone]) (by simp [hnone]) (by simp) hm.apart

/-! ## Threads and queues -/

/-- What an instruction does to threads and queues: the threads that are woken come from the front of
queues, at most one thread is started, and the running thread waits if and only if it joins a
queue. -/
structure Shifts (m k : Machine) (p : Progress) (leave : Place → Nat)
    (woken started : List ThreadId) (joins : Option Place) : Prop where
  /-- The queues. -/
  requeues : Requeues m k leave (woken ++ started) joins
  /-- The running thread. -/
  current : k.current = m.current
  /-- Whether channels are typed. -/
  typedChannels : k.typedChannels = m.typedChannels
  /-- The running thread waits if it joins a queue. -/
  blocked : p = .blocked ↔ joins.isSome
  /-- The threads that are woken waited. -/
  woken : ∀ t ∈ woken, ∃ q, t ∈ (m.queue q).take (leave q)
  /-- The thread table. -/
  threads : (started = [] ∧ k.threads = m.threads ∧ k.nextThread = m.nextThread) ∨
    ∃ r, started = [m.nextThread] ∧ k.threads = m.threads.insert m.nextThread r ∧
      k.nextThread = m.nextThread + 1

namespace Shifts

variable {p : Progress} {leave : Place → Nat} {woken started : List ThreadId}
  {joins : Option Place} {t : ThreadId}

/-- A thread that is started has the next number, which is taken then. -/
theorem eq_of_started (shifts : Shifts m k p leave woken started joins) (ht : t ∈ started) :
    t = m.nextThread ∧ k.nextThread = m.nextThread + 1 := by
  rcases shifts.threads with ⟨hnil, -⟩ | ⟨r, hone, -, hnext⟩
  · rw [hnil] at ht
    cases ht
  · rw [hone] at ht
    exact ⟨List.mem_singleton.1 ht, hnext⟩

theorem nextThread_le (shifts : Shifts m k p leave woken started joins) :
    m.nextThread ≤ k.nextThread := by
  rcases shifts.threads with ⟨-, -, hnext⟩ | ⟨r, -, -, hnext⟩
  · exact Nat.le_of_eq hnext.symm
  · exact hnext ▸ Nat.le_succ _

/-- The thread table has the threads that it had, and the one that is started. -/
theorem isSome_threads (shifts : Shifts m k p leave woken started joins) :
    k.threads[t]?.isSome ↔ t ∈ started ∨ m.threads[t]?.isSome := by
  rcases shifts.threads with ⟨hnil, hthreads, -⟩ | ⟨r, hone, hthreads, -⟩
  · simp [hnil, hthreads]
  · rw [hone, hthreads, Std.TreeMap.getElem?_insert, List.mem_singleton]
    by_cases h : m.nextThread = t
    · simp [h]
    · simp [h, Ne.symm h]

/-- The registers of the other threads stay. -/
theorem threads_eq (shifts : Shifts m k p leave woken started joins) (ht : t ≠ m.nextThread) :
    k.threads[t]? = m.threads[t]? := by
  rcases shifts.threads with ⟨-, hthreads, -⟩ | ⟨r, -, hthreads, -⟩
  · rw [hthreads]
  · rw [hthreads, Std.TreeMap.getElem?_insert]
    simp [Ne.symm ht]

end Shifts

/-- An instruction that ends the run is apart. -/
theorem Acts.finished {v : Address} {d : Option Deal} (acts : Acts program m k (.finished v) d) :
    d = none ∧ Apart m k := by
  generalize hp : Progress.finished v = p at acts
  cases acts with
  | apart _ _ _ _ apart => exact ⟨rfl, apart⟩
  | sent =>
    split at hp
    next => cases hp
    next => cases hp
  | _ => cases hp

/-- Nothing but queues and registers changes. -/
theorem SameCrew.shifts {p : Progress} (crew : SameCrew m k) {leave : Place → Nat}
    {woken : List ThreadId} {joins : Option Place} (requeues : Requeues m k leave woken joins)
    (hblocked : p = .blocked ↔ joins.isSome)
    (hwoken : ∀ t ∈ woken, ∃ q, t ∈ (m.queue q).take (leave q)) :
    Shifts m k p leave woken [] joins :=
  ⟨(List.append_nil woken).symm ▸ requeues, crew.current, crew.typedChannels, hblocked, hwoken,
    .inl ⟨rfl, crew.threads, crew.nextThread⟩⟩

end Machine

end ChannelMachine

import ChannelMachine.Machine.Communication
import ChannelMachine.Proofs.Machine.Actions

/-!
# Places where threads wait

A `Place` is one of the three sides of a channel, or a wait-group, and `Machine.queue` are the threads
that wait there, oldest first.  All that instructions do to queues has one form (`Requeues`): from
the front of each queue some threads leave, and the running thread may join one queue at its end.
-/

namespace ChannelMachine

/-! ## Queues of channels -/

/-- Taking a thread leaves the rest of its queue. -/
theorem ChannelWaiters.get_dequeue_self (w : ChannelWaiters) (side : Side) (a : Address) :
    (w.dequeue side a).2.get a = (w.get a).setQueue ((w.get a).queue side).tail side := by
  unfold dequeue
  cases h : (w.get a).queue side with
  | nil =>
    simp only [h, List.tail_nil]
    rw [← h]
    cases side <;> rfl
  | cons t rest =>
    simp only [h, List.tail_cons]
    simp [get]

theorem ChannelWaiters.get_dequeue_of_ne (w : ChannelWaiters) (side : Side) {a b : Address}
    (hab : a ≠ b) : (w.dequeue side a).2.get b = w.get b := by
  unfold dequeue
  cases h : (w.get a).queue side with
  | nil => simp only [h]
  | cons t rest =>
    simp only [h]
    simp [get, Std.TreeMap.getElem?_insert, hab]

theorem ChannelQueues.queue_setQueue (q : ChannelQueues) (ts : List ThreadId) (side other : Side) :
    (q.setQueue ts side).queue other = if other = side then ts else q.queue other := by
  cases side <;> cases other <;> rfl

/-! ## Places -/

/-- Where a thread waits. -/
inductive Place where
  /-- At one side of a channel. -/
  | channel (side : Side) (a : Address)
  /-- For a wait-group. -/
  | group (a : Address)
deriving DecidableEq

/-- The three sides of a channel. -/
def Place.ofChannel (a : Address) : List Place :=
  [.channel .reader a, .channel .writer a, .channel .sender a]

theorem Place.mem_ofChannel (side : Side) (a : Address) :
    Place.channel side a ∈ Place.ofChannel a := by
  cases side <;> simp [ofChannel]

namespace Machine

/-- The threads that wait at a place, the oldest first. -/
def queue (m : Machine) : Place → List ThreadId
  | .channel side a => (m.channels.get a).queue side
  | .group a => m.groups.get a

variable {m k : Machine}

/-- Only the queues count. -/
theorem queue_congr (hchannels : k.channels = m.channels) (hgroups : k.groups = m.groups)
    (p : Place) : k.queue p = m.queue p := by
  cases p with
  | channel side a => rw [queue, hchannels, queue]
  | group a => rw [queue, hgroups, queue]

theorem queue_enqueue (m : Machine) (side : Side) (a : Address) (t : ThreadId) (p : Place) :
    ({ m with channels := m.channels.enqueue side a t } : Machine).queue p =
      if p = .channel side a then m.queue p ++ [t] else m.queue p := by
  cases p with
  | group b => rfl
  | channel other b =>
    by_cases hab : a = b
    · subst hab
      simp only [queue, ChannelWaiters.get_enqueue_self, ChannelQueues.queue_setQueue,
        Place.channel.injEq, and_true]
      split
      next heq => rw [heq]
      next => rfl
    · have hne : ¬ (Place.channel other b = .channel side a) := by
        simp only [Place.channel.injEq, not_and]
        exact fun _ heq => hab heq.symm
      rw [if_neg hne, queue, queue, ChannelWaiters.get_enqueue_of_ne _ _ _ hab]

theorem queue_dequeue (m : Machine) (side : Side) (a : Address) (p : Place) :
    ({ m with channels := (m.channels.dequeue side a).2 } : Machine).queue p =
      if p = .channel side a then (m.queue p).tail else m.queue p := by
  cases p with
  | group b => rfl
  | channel other b =>
    by_cases hab : a = b
    · subst hab
      simp only [queue, ChannelWaiters.get_dequeue_self, ChannelQueues.queue_setQueue,
        Place.channel.injEq, and_true]
      split
      next heq => rw [heq]
      next => rfl
    · have hne : ¬ (Place.channel other b = .channel side a) := by
        simp only [Place.channel.injEq, not_and]
        exact fun _ heq => hab heq.symm
      rw [if_neg hne, queue, queue, ChannelWaiters.get_dequeue_of_ne _ _ hab]

theorem queue_reset_channel (m : Machine) (a : Address) (p : Place) :
    ({ m with channels := m.channels.reset a } : Machine).queue p =
      if p ∈ Place.ofChannel a then [] else m.queue p := by
  cases p with
  | group b => simp [queue, Place.ofChannel]
  | channel side b =>
    by_cases hab : a = b
    · subst hab
      rw [if_pos (Place.mem_ofChannel side a), queue, ChannelWaiters.get_reset_self]
      cases side <;> rfl
    · have hne : Place.channel side b ∉ Place.ofChannel a := by
        simp [Place.ofChannel, Ne.symm hab]
      rw [if_neg hne, queue, queue, ChannelWaiters.get_reset_of_ne _ hab]

theorem queue_enqueue_group (m : Machine) (a : Address) (t : ThreadId) (p : Place) :
    ({ m with groups := m.groups.enqueue a t } : Machine).queue p =
      if p = .group a then m.queue p ++ [t] else m.queue p := by
  cases p with
  | channel side b => simp [queue]
  | group b =>
    by_cases hab : a = b
    · subst hab
      rw [if_pos rfl, queue, queue, GroupWaiters.get_enqueue_self]
    · have hne : ¬ (Place.group b = .group a) := by
        simp only [Place.group.injEq]
        exact fun heq => hab heq.symm
      rw [if_neg hne, queue, queue, GroupWaiters.get_enqueue_of_ne _ _ hab]

theorem queue_reset_group (m : Machine) (a : Address) (p : Place) :
    ({ m with groups := m.groups.reset a } : Machine).queue p =
      if p ∈ [Place.group a] then [] else m.queue p := by
  cases p with
  | channel side b => simp [queue]
  | group b =>
    by_cases hab : a = b
    · subst hab
      rw [if_pos (List.mem_singleton.2 rfl), queue, GroupWaiters.get_reset_self]
    · have hne : Place.group b ∉ [Place.group a] := by simp [Ne.symm hab]
      rw [if_neg hne, queue, queue, GroupWaiters.get_reset_of_ne _ hab]

/-! ## What happens to queues -/

/-- From the front of each queue some threads leave, some of which are woken, and the running thread
may join one. -/
structure Requeues (m k : Machine) (leave : Place → Nat) (woken : List ThreadId)
    (joins : Option Place) : Prop where
  /-- The queues. -/
  queue : ∀ p, k.queue p =
    (m.queue p).drop (leave p) ++ if joins = some p then [m.current] else []
  /-- The threads that are woken become runnable. -/
  runnable : k.runnable = m.runnable ++ woken

/-- One thread leaves each of some queues. -/
def oneFrom (places : List Place) (p : Place) : Nat := if p ∈ places then 1 else 0

/-- All threads leave some queues. -/
def allFrom (m : Machine) (places : List Place) (p : Place) : Nat :=
  if p ∈ places then (m.queue p).length else 0

namespace Requeues

variable {l : Machine} {leave leave' : Place → Nat} {woken woken' : List ThreadId}
  {joins : Option Place} {p : Place} {t : ThreadId}

/-- A thread that waits afterwards did so before, or it has joined. -/
theorem mem (re : Requeues m k leave woken joins) (ht : t ∈ k.queue p) :
    t ∈ (m.queue p).drop (leave p) ∨ (joins = some p ∧ t = m.current) := by
  rw [re.queue, List.mem_append] at ht
  refine ht.imp_right fun ht => ?_
  split at ht
  next heq => exact ⟨heq, List.mem_singleton.1 ht⟩
  next => cases ht

theorem mem_of_drop (re : Requeues m k leave woken joins) (ht : t ∈ (m.queue p).drop (leave p)) :
    t ∈ k.queue p := by
  rw [re.queue]
  exact List.mem_append_left _ ht

theorem current_mem (re : Requeues m k leave woken (some p)) : m.current ∈ k.queue p := by
  rw [re.queue, if_pos rfl]
  exact List.mem_append_right _ (List.mem_singleton.2 rfl)

theorem queue_of_stay (re : Requeues m k leave woken joins) (hleave : leave p = 0)
    (hjoins : joins ≠ some p) : k.queue p = m.queue p := by
  rw [re.queue, hleave, if_neg hjoins, List.drop_zero, List.append_nil]

theorem trans (first : Requeues m k leave woken none) (second : Requeues k l leave' woken' joins)
    (hcurrent : k.current = m.current) :
    Requeues m l (fun p => leave p + leave' p) (woken ++ woken') joins where
  queue := by
    intro p
    rw [second.queue, first.queue, if_neg (Option.some_ne_none p).symm, List.append_nil,
      List.drop_drop, hcurrent]
  runnable := by rw [second.runnable, first.runnable, List.append_assoc]

/-- The running thread joins a queue after others have left theirs. -/
theorem join (first : Requeues m k leave woken none) (second : Requeues k l (oneFrom []) [] joins)
    (hcurrent : k.current = m.current) : Requeues m l leave woken joins where
  queue := (first.trans second hcurrent).queue
  runnable := by rw [second.runnable, first.runnable, List.append_nil]

/-- The queues as they were. -/
theorem of_eq (hchannels : k.channels = m.channels) (hgroups : k.groups = m.groups)
    (hrunnable : k.runnable = m.runnable ++ woken) : Requeues m k (oneFrom []) woken none where
  queue := by
    intro p
    rw [queue_congr hchannels hgroups, oneFrom, if_neg List.not_mem_nil, List.drop_zero,
      if_neg (Option.some_ne_none p).symm, List.append_nil]
  runnable := hrunnable

/-- Some queues are empty, and the others as they were. -/
theorem of_reset {places : List Place} (hqueue : ∀ p, k.queue p = if p ∈ places then [] else m.queue p)
    (hrunnable : k.runnable = m.runnable ++ woken) : Requeues m k (allFrom m places) woken none where
  queue := by
    intro p
    rw [hqueue, allFrom, if_neg (Option.some_ne_none p).symm, List.append_nil]
    split
    next => rw [List.drop_length]
    next => rw [List.drop_zero]
  runnable := hrunnable

/-- A queue that all threads leave is empty. -/
theorem queue_of_all {places : List Place} (re : Requeues m k (allFrom m places) woken none)
    (hp : p ∈ places) : k.queue p = [] := by
  rw [re.queue, allFrom, if_pos hp, List.drop_length, if_neg (Option.some_ne_none p).symm,
    List.append_nil]

/-- The running thread joins one queue, and the others are as they were. -/
theorem of_join {place : Place}
    (hqueue : ∀ p, k.queue p = if p = place then m.queue p ++ [m.current] else m.queue p)
    (hrunnable : k.runnable = m.runnable) : Requeues m k (oneFrom []) [] (some place) where
  queue := by
    intro p
    rw [hqueue, oneFrom, if_neg List.not_mem_nil, List.drop_zero]
    by_cases heq : p = place
    · rw [if_pos heq, if_pos (congrArg some heq.symm)]
    · rw [if_neg heq, if_neg fun h => heq (Option.some.inj h).symm, List.append_nil]
  runnable := hrunnable.trans (List.append_nil _).symm

end Requeues

/-! ## The actions on queues -/

/-- All but the queues, the woken threads and what was reported is the same. -/
structure SameCore (m k : Machine) : Prop where
  /-- The heap. -/
  heap : k.heap = m.heap
  /-- The registers. -/
  registers : k.registers = m.registers
  /-- The running thread. -/
  current : k.current = m.current
  /-- The other threads. -/
  threads : k.threads = m.threads
  /-- The number of the next thread. -/
  nextThread : k.nextThread = m.nextThread
  /-- Whether channels are typed. -/
  typedChannels : k.typedChannels = m.typedChannels
  /-- The builtins. -/
  builtins : k.builtins = m.builtins
  /-- What has been printed. -/
  output : k.output = m.output

theorem SameCore.trans {l : Machine} (first : SameCore m k) (second : SameCore k l) :
    SameCore m l :=
  ⟨second.heap.trans first.heap, second.registers.trans first.registers,
    second.current.trans first.current, second.threads.trans first.threads,
    second.nextThread.trans first.nextThread, second.typedChannels.trans first.typedChannels,
    second.builtins.trans first.builtins, second.output.trans first.output⟩

/-- Reporting an event changes nothing else. -/
theorem sameCore_note (m : Machine) (e : Event) :
    SameCore m (m.note e) ∧ (m.note e).channels = m.channels ∧ (m.note e).groups = m.groups ∧
      (m.note e).runnable = m.runnable := by
  unfold note
  split
  · exact ⟨⟨rfl, rfl, rfl, rfl, rfl, rfl, rfl, rfl⟩, rfl, rfl, rfl⟩
  · exact ⟨⟨rfl, rfl, rfl, rfl, rfl, rfl, rfl, rfl⟩, rfl, rfl, rfl⟩

section Actions

variable {good : Unit → Machine → Prop} {bad : Fault → Machine → Prop}

theorem ensures_wake {t : ThreadId}
    (h : ∀ k, SameCore m k → Requeues m k (oneFrom []) [t] none → good () k) :
    Ensures (wake t) m good bad := by
  obtain ⟨core, hchannels, hgroups, hrunnable⟩ :=
    sameCore_note { m with runnable := m.runnable ++ [t] } (.woken t)
  refine ensures_update (h _ ?_ (.of_eq hchannels hgroups hrunnable))
  exact ⟨core.heap, core.registers, core.current, core.threads, core.nextThread,
    core.typedChannels, core.builtins, core.output⟩

theorem ensures_wakeAll (ts : List ThreadId) : ∀ {m : Machine},
    (∀ k, SameCore m k → Requeues m k (oneFrom []) ts none → good () k) →
      Ensures (wakeAll ts) m good bad := by
  induction ts with
  | nil =>
    intro m h
    exact .pure (h m ⟨rfl, rfl, rfl, rfl, rfl, rfl, rfl, rfl⟩ (.of_eq rfl rfl (List.append_nil _).symm))
  | cons t rest ih =>
    intro m h
    refine .bind (ensures_wake fun k core re => ih fun l core' re' => h l (core.trans core') ?_)
    exact re.trans re' core.current

/-- The running thread joins a queue of a channel. -/
theorem ensures_waitAt {side : Side} {a : Address}
    (h : ∀ k, SameCore m k → Requeues m k (oneFrom []) [] (some (.channel side a)) → good () k) :
    Ensures (waitAt side a) m good bad :=
  ensures_update (h _ ⟨rfl, rfl, rfl, rfl, rfl, rfl, rfl, rfl⟩ (.of_join (queue_enqueue m side a m.current) rfl))

/-- The thread that has waited longest at one side of a channel is woken, if there is one. -/
theorem ensures_wakeAt {side : Side} {a : Address}
    (h : ∀ k, SameCore m k → Requeues m k (oneFrom [.channel side a])
      ((m.queue (.channel side a)).take 1) none → good () k) :
    Ensures (wakeAt side a) m good bad := by
  have hdequeued : ∀ p, ({ m with channels := (m.channels.dequeue side a).2 } : Machine).queue p =
      (m.queue p).drop (oneFrom [.channel side a] p) := by
    intro p
    rw [queue_dequeue, oneFrom]
    by_cases heq : p = .channel side a
    · rw [if_pos heq, if_pos (List.mem_singleton.2 heq), List.drop_one]
    · rw [if_neg heq, if_neg fun h => heq (List.mem_singleton.1 h), List.drop_zero]
  have hre : Requeues m { m with channels := (m.channels.dequeue side a).2 }
      (oneFrom [.channel side a]) [] none := by
    refine ⟨fun p => ?_, (List.append_nil _).symm⟩
    rw [hdequeued, if_neg (Option.some_ne_none p).symm, List.append_nil]
  have hfirst : (m.queue (.channel side a)).take 1 = ((m.channels.dequeue side a).1).toList := by
    rw [ChannelWaiters.dequeue_fst, queue]
    cases (m.channels.get a).queue side <;> rfl
  refine .bind (.modifyGet ?_)
  dsimp only
  rw [hfirst] at h
  split
  next t ht =>
    rw [ht] at h
    refine ensures_wake fun k core re => h k ?_ (hre.trans re rfl)
    exact ⟨core.heap, core.registers, core.current, core.threads, core.nextThread,
      core.typedChannels, core.builtins, core.output⟩
  next hnone =>
    rw [hnone] at h
    exact .pure (h _ ⟨rfl, rfl, rfl, rfl, rfl, rfl, rfl, rfl⟩ hre)

end Actions

end Machine

end ChannelMachine

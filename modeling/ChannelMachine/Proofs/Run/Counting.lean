import ChannelMachine.Proofs.Machine.Counters
import ChannelMachine.Proofs.Run.Threads

/-!
# The law of wait-groups

The counter of a wait-group is never below zero, threads wait only while it is above zero, and waiting
is over at zero: whoever comes then passes, and the step that counts to zero makes all threads ready
that wait, in the order in which they came.

Programs can count with any number, and NaN is neither below zero nor above it nor zero.  A counter that
is NaN is not refused.  Nobody has to wait then, and whoever waited before is never woken.
-/

namespace ChannelMachine.Run

variable {program : Program} {run run' : Run} {n : Nat} {g : Address}

/-- Wait-groups have counters of their own, which are not below zero, and threads wait for a wait-group
only while its counter is above zero or NaN. -/
structure Counted (run : Run) : Prop where
  /-- No two wait-groups have the same counter. -/
  distinct : run.machine.heap.DistinctCounters
  /-- No counter is below zero. -/
  nonneg : ∀ g, run.machine.heap.InUse g → run.machine.heap.tag g = .waitGroup →
    (run.machine.heap.groupCount g).less .zero = false
  /-- Threads wait only above zero. -/
  above : ∀ g, run.queue (.group g) ≠ [] → Number.zero.less (run.machine.heap.groupCount g) = true ∨
    (run.machine.heap.groupCount g).isNaN = true

/-- The operands of threads are in use. -/
theorem Sound.inUse_stack (hrun : run.Sound) {t : ThreadId} {r : Registers} {a : Address}
    (hr : run.thread? t = some r) (ha : a ∈ r.stack) : run.machine.heap.InUse a := by
  cases run with
  | running m s left =>
    have hm : m.Sound := hrun
    rw [thread?] at hr
    split at hr
    next =>
      obtain rfl := Option.some.inj hr
      exact (hm.registers.stack a ha).1
    next => exact ((hm.threads t r hr).stack a ha).1
  | idle m s =>
    have hm : AtRest m := hrun
    exact ((hm.threads t r hr).stack a ha).1
  | ended m ending =>
    rcases hrun with hm | hm
    · exact ((hm.threads t r hr).stack a ha).1
    · exact ((hm.threads t r hr).stack a ha).1

/-- What threads wait for is a wait-group that is in use. -/
theorem Fresh.group_of_queue (fresh : run.Fresh) (hactive : (run.after program n).Active)
    (hqueue : (run.after program n).queue (.group g) ≠ []) :
    (run.after program n).machine.heap.InUse g ∧
      (run.after program n).machine.heap.tag g = .waitGroup := by
  -- Whoever waits for a wait-group has it on the stack.
  obtain ⟨t, ht⟩ := List.exists_mem_of_ne_nil _ hqueue
  obtain ⟨r, hr, stands⟩ := (fresh.placed_attended program n hactive).1 (.group g) t ht nofun
  refine ⟨(fresh.sound_after program n).inUse_stack hr stands.mem_stack, ?_⟩
  cases stands with
  | wait _ _ tag => exact tag

theorem Fresh.counted (fresh : run.Fresh) (program : Program) (n : Nat)
    (hactive : (run.after program n).Active) : (run.after program n).Counted := by
  induction n with
  | zero =>
    have hplain : ∀ a, run.machine.heap.InUse a → run.machine.heap.tag a ≠ .waitGroup := by
      intro a ha htag
      have hplain := fresh.plain a ha
      rw [htag] at hplain
      cases hplain
    exact ⟨fun a _ ha htag => absurd htag (hplain a ha), fun g hg htag => absurd htag (hplain g hg),
      fun g hne => absurd (fresh.queue _) hne⟩
  | succ n ih =>
    have counted := ih hactive.of_next
    cases fresh.moves program n with
    | dispatched _ same =>
      refine ⟨same.heap.symm ▸ counted.distinct, fun g => ?_, fun g hne => ?_⟩
      · rw [same.heap]
        exact counted.nonneg g
      · rw [same.heap]
        exact counted.above g (same.queue _ ▸ hne)
    | stopped _ ended => exact absurd hactive ended
    | @stepped m k _ _ _ here hm _ acts turned =>
      rw [here] at counted
      have tallies : ∀ g, (run.after program (n + 1)).machine.heap.InUse g →
          (run.after program (n + 1)).machine.heap.tag g = .waitGroup → m.Tallies k g := by
        rw [turned.heap]
        exact fun g => acts.tallies hm counted.distinct
      refine ⟨turned.heap.symm ▸ acts.distinctCounters hm counted.distinct, fun g hin htag => ?_,
        fun g hne => ?_⟩
      · rw [turned.heap]
        exact (tallies g hin htag).nonneg (counted.nonneg g)
      · obtain ⟨hin, htag⟩ := fresh.group_of_queue hactive hne
        rw [turned.queue] at hne
        rw [turned.heap]
        exact (tallies g hin htag).above hne (counted.above g)

/-! ## Waiting -/

/-- A thread waits at a wait-group above zero and passes otherwise. -/
theorem ensures_groupWait {m : Machine} {rest : List Address}
    (instr : program.at? m.registers.pc = some .groupWait) (stack : m.registers.stack = g :: rest)
    (tag : m.heap.tag g = .waitGroup) :
    Ensures (Machine.step program) m (fun p k => if Number.zero.less (m.heap.groupCount g) then
        p = .blocked ∧ k = { m with groups := m.groups.enqueue g m.current }
      else p = .advanced ∧ k = m.withRegisters
        { m.registers with stack := Heap.undefined :: rest, pc := m.registers.pc + 1 })
      fun _ _ => False := by
  refine .bind (Machine.ensures_registersNow ?_)
  rw [instr]
  refine .bind (Machine.ensures_peek (fun a ha => ?_) fun hnone => ?_)
  · obtain rfl : g = a := by simpa [stack] using ha
    refine .bind (.bind (Machine.ensures_readHeap ?_))
    rw [if_neg (Classical.not_not.2 tag)]
    refine .pure (.bind (Machine.ensures_readHeap ?_))
    split
    next => exact .bind (Machine.ensures_update (.pure ⟨rfl, rfl⟩))
    next =>
      refine .bind (Machine.ensures_replace (.bind (Machine.ensures_advance (.pure ⟨rfl, ?_⟩))))
      rw [stack]
      rfl
  · rw [stack] at hnone
    cases hnone

/-! ## Waking -/

/-- What follows an instruction queues behind the threads that are ready. -/
theorem ready_proceed (m : Machine) (s : Scheduler) (left : Nat) (p : Progress)
    (hp : ∀ v, p ≠ .finished v) :
    ∃ s' rest, (proceed m s left p).scheduler? = some s' ∧ s'.ready = s.ready ++ rest := by
  have suspended : ∃ rest, s.suspend.ready = s.ready ++ rest := by
    unfold Scheduler.suspend
    split
    next t _ => exact ⟨[t], rfl⟩
    next => exact ⟨[], (List.append_nil _).symm⟩
  have blocked : s.block.ready = s.ready := by
    unfold Scheduler.block
    split <;> rfl
  cases p with
  | advanced =>
    rw [proceed]
    split
    next =>
      split
      next => exact ⟨_, _, rfl, suspended.choose_spec⟩
      next =>
        obtain ⟨s', left', hrenew, hready, -⟩ := exists_renew m s
        exact ⟨s', [], by rw [hrenew]; rfl, by rw [hready, List.append_nil]⟩
    next => exact ⟨s, [], rfl, (List.append_nil _).symm⟩
  | blocked => exact ⟨_, [], rfl, by rw [blocked, List.append_nil]⟩
  | exited => exact ⟨_, [], rfl, (List.append_nil _).symm⟩
  | finished v => exact absurd rfl (hp v)
  | spinning => exact ⟨s, [], rfl, (List.append_nil _).symm⟩

/-- The step that counts a wait-group to zero makes all threads ready that wait for it. -/
theorem Fresh.wakes_at_zero (fresh : run.Fresh) (hactive : (run.after program (n + 1)).Active)
    (hin : (run.after program (n + 1)).machine.heap.InUse g)
    (htag : (run.after program (n + 1)).machine.heap.tag g = .waitGroup)
    (hbefore : ((run.after program n).machine.heap.groupCount g).same .zero = false)
    (hafter : ((run.after program (n + 1)).machine.heap.groupCount g).same .zero = true) :
    (run.after program (n + 1)).queue (.group g) = [] ∧ ∃ s s' rest,
      (run.after program n).scheduler? = some s ∧
      (run.after program (n + 1)).scheduler? = some s' ∧
      s'.ready = s.ready ++ (run.after program n).queue (.group g) ++ rest := by
  have counted := fresh.counted program n hactive.of_next
  have rostered := fresh.rostered_after program n
  cases fresh.moves program n with
  | dispatched _ same =>
    rw [same.heap, hbefore] at hafter
    cases hafter
  | stopped _ ended => exact absurd hactive ended
  | @stepped m k s left p here hm hstep acts turned =>
    rw [here] at counted rostered hbefore
    obtain ⟨roster, hrunning⟩ := rostered
    have placed := (fresh.placed_attended program n hactive.of_next).1
    rw [here] at placed
    rw [turned.heap] at hin htag hafter
    have hwoken : k.queue (.group g) = [] ∧ k.runnable = m.queue (.group g) := by
      cases acts.tallies hm counted.distinct hin htag with
      | stays _ _ count =>
        rw [count] at hafter
        exact absurd (hbefore.symm.trans hafter) Bool.false_ne_true
      | made notLive _ queue runnable =>
        -- Nobody waited, since the wait-group would have been live.
        refine ⟨queue, ?_⟩
        rw [runnable, roster.runnable]
        refine Eq.symm (Classical.not_not.1 fun hne => notLive ?_)
        obtain ⟨t, ht⟩ := List.exists_mem_of_ne_nil _ hne
        have hother : t ≠ m.current := by
          rintro rfl
          exact roster.current_not_mem_queue hrunning _ ht
        obtain ⟨r, hr, stands⟩ := placed (.group g) t ht nofun
        rw [thread?, if_neg hother] at hr
        exact .root (mem_threadRoots.2 (.inr
          ⟨t, r, hr, Registers.mem_roots.2 (.inl stands.mem_stack)⟩))
      | counted _ _ _ queue runnable =>
        rw [if_pos hafter] at queue runnable
        exact ⟨queue, by rw [runnable, roster.runnable, List.nil_append]⟩
      | waits _ _ _ count =>
        rw [count] at hafter
        exact absurd (hbefore.symm.trans hafter) Bool.false_ne_true
    have hp : ∀ v, p ≠ .finished v := by
      rintro v rfl
      refine hactive ?_
      rw [after_succ_of_running here, tick, hstep]
      rfl
    have hready : (s.makeAllReady k.runnable).ready = s.ready ++ m.queue (.group g) := by
      rw [Scheduler.ready_makeAllReady _ (roster.nodup_runnable acts) fun t ht =>
        (roster.waits_of_runnable acts hm ht).2, hwoken.2]
    obtain ⟨s', rest, hs', heq⟩ := ready_proceed { k with runnable := [] }
      (s.makeAllReady k.runnable) left p hp
    refine ⟨(turned.queue _).trans hwoken.1, s, s', rest, by rw [here]; rfl, ?_, ?_⟩
    · rw [after_succ_of_running here, tick, hstep]
      exact hs'
    · rw [heq, hready, here]
      rfl

/-! ## The law -/

/-- The law of wait-groups, for a run from its start. -/
structure KeepsCounters (program : Program) (run : Run) : Prop where
  /-- No counter is below zero. -/
  nonneg : ∀ n g, (run.after program n).Active → (run.after program n).machine.heap.InUse g →
    (run.after program n).machine.heap.tag g = .waitGroup →
      ((run.after program n).machine.heap.groupCount g).less .zero = false
  /-- Threads wait only for wait-groups whose counters are above zero or NaN. -/
  above : ∀ n g, (run.after program n).Active → (run.after program n).queue (.group g) ≠ [] →
    (run.after program n).machine.heap.InUse g ∧
      (run.after program n).machine.heap.tag g = .waitGroup ∧
      (Number.zero.less ((run.after program n).machine.heap.groupCount g) = true ∨
        ((run.after program n).machine.heap.groupCount g).isNaN = true)
  /-- A thread passes a wait-group whose counter is zero or NaN, and joins the queue of another one. -/
  passes : ∀ n m s left g rest, run.after program n = running m s left →
    program.at? m.registers.pc = some .groupWait → m.registers.stack = g :: rest →
    m.heap.tag g = .waitGroup → m.step program =
      if ((m.heap.groupCount g).same .zero || (m.heap.groupCount g).isNaN) = true then
        .ok .advanced (m.withRegisters
          { m.registers with stack := Heap.undefined :: rest, pc := m.registers.pc + 1 })
      else .ok .blocked { m with groups := m.groups.enqueue g m.current }
  /-- The step that counts to zero makes all threads ready that wait, in their order. -/
  wakes : ∀ n g, (run.after program (n + 1)).Active →
    (run.after program (n + 1)).machine.heap.InUse g →
    (run.after program (n + 1)).machine.heap.tag g = .waitGroup →
    ((run.after program n).machine.heap.groupCount g).same .zero = false →
    ((run.after program (n + 1)).machine.heap.groupCount g).same .zero = true →
      (run.after program (n + 1)).queue (.group g) = [] ∧ ∃ s s' rest,
        (run.after program n).scheduler? = some s ∧
        (run.after program (n + 1)).scheduler? = some s' ∧
        s'.ready = s.ready ++ (run.after program n).queue (.group g) ++ rest

/-- A thread passes at zero or NaN. -/
theorem Counted.passes {m : Machine} {s : Scheduler} {left : Nat} {rest : List Address}
    (counted : (running m s left).Counted) (sound : m.Sound)
    (instr : program.at? m.registers.pc = some .groupWait) (stack : m.registers.stack = g :: rest)
    (tag : m.heap.tag g = .waitGroup) : m.step program =
      if ((m.heap.groupCount g).same .zero || (m.heap.groupCount g).isNaN) = true then
        .ok .advanced (m.withRegisters
          { m.registers with stack := Heap.undefined :: rest, pc := m.registers.pc + 1 })
      else .ok .blocked { m with groups := m.groups.enqueue g m.current } := by
  have hin : m.heap.InUse g := sound.inUse_top stack
  have hless : Number.zero.less (m.heap.groupCount g) =
      !((m.heap.groupCount g).same .zero || (m.heap.groupCount g).isNaN) :=
    Number.zero_less_eq (counted.nonneg g hin tag)
  obtain ⟨p, k, hstep, h⟩ := (ensures_groupWait instr stack tag).exists_ok
  rw [hstep]
  cases hpasses : (m.heap.groupCount g).same .zero || (m.heap.groupCount g).isNaN with
  | true =>
    rw [hless, hpasses] at h
    obtain ⟨rfl, rfl⟩ := h
    rfl
  | false =>
    rw [hless, hpasses] at h
    obtain ⟨rfl, rfl⟩ := h
    rfl

/-- Wait-groups keep the law in the run of any program, whatever numbers it counts with. -/
theorem keepsCounters {config : Config} {m : Machine}
    (hcreate : Machine.create config standardBuiltins = .ok m) (program : Program) :
    KeepsCounters program (begin m (.create config.maxQuantum config.seed)) := by
  have fresh := fresh_begin hcreate
  refine {
    nonneg := fun n g hactive => (fresh.counted program n hactive).nonneg g
    above := fun n g hactive hne => ?_
    passes := fun n m s left g rest hrun instr stack tag => ?_
    wakes := fun n g => fresh.wakes_at_zero }
  · obtain ⟨hin, htag⟩ := fresh.group_of_queue hactive hne
    exact ⟨hin, htag, (fresh.counted program n hactive).above g hne⟩
  · have counted := fresh.counted program n (by rw [hrun]; exact nofun)
    have sound := fresh.sound_after program n
    rw [hrun] at counted sound
    exact counted.passes sound instr stack tag

/-- The main thread waits for a thread that counts down. -/
def waking : Program := ⟨#[.newWaitGroup, .store ⟨0, 0⟩, .constant (.number ⟨0x3ff0000000000000⟩),
  .groupAdd, .load ⟨0, 0⟩, .spawn 0, .groupDone, .endThread, .load ⟨0, 0⟩, .groupWait, .halt]⟩

/-- The main thread waits after step nine, and the second thread wakes it in step eleven. -/
theorem keepsCounters_waking : ∃ m,
    Machine.create { heapWords := 200, seed := 7 } standardBuiltins = .ok m ∧
      ((begin m (.create 15 7)).after waking 10).queue (.group 150) = [mainThread] ∧
      ((begin m (.create 15 7)).after waking 11).queue (.group 150) = [] ∧
      ∃ s, ((begin m (.create 15 7)).after waking 11).scheduler? = some s ∧ mainThread ∈ s.ready := by
  obtain ⟨m, hcreate, heq⟩ := exists_sample
  -- The run is evaluated once for all facts about it.
  obtain ⟨hsome, hle, htag, hqueue, hbefore, hafter⟩ :
      (sample.after waking 11).scheduler?.isSome = true ∧
      150 + nodeSize ≤ (sample.after waking 11).machine.heap.words.size ∧
      (sample.after waking 11).machine.heap.tag 150 = .waitGroup ∧
      (sample.after waking 10).queue (.group 150) = [mainThread] ∧
      ((sample.after waking 10).machine.heap.groupCount 150).same .zero = false ∧
      ((sample.after waking 11).machine.heap.groupCount 150).same .zero = true := by
    decide +kernel
  have hin : (sample.after waking 11).machine.heap.InUse 150 :=
    .of_tag ⟨by decide, hle⟩ htag (by decide)
  have hactive : (sample.after waking 11).Active := by
    intro h
    rw [h] at hsome
    cases hsome
  rw [heq] at hactive hin htag hqueue hbefore hafter
  obtain ⟨hempty, s, s', rest, -, hs', hready⟩ :=
    (keepsCounters hcreate waking).wakes 10 150 hactive hin htag hbefore hafter
  rw [hqueue] at hready
  refine ⟨m, hcreate, hqueue, hempty, s', hs', ?_⟩
  rw [hready]
  simp

/-- The main thread adds zero divided by zero to a wait-group and waits for it. -/
def miscounting : Program := ⟨#[.constant (.number .zero), .constant (.number .zero), .binary .div,
  .store ⟨0, 0⟩, .newWaitGroup, .store ⟨0, 1⟩, .load ⟨0, 0⟩, .groupAdd, .load ⟨0, 1⟩, .groupWait,
  .halt]⟩

/-- The counter is not at least zero then, which does not end the run, and the main thread passes the
wait-group although its counter is not zero. -/
theorem counter_miscounting : ∃ m,
    Machine.create { heapWords := 200, seed := 7 } standardBuiltins = .ok m ∧
      miscounting.at? 9 = some .groupWait ∧
      ((begin m (.create 15 7)).after miscounting 10).ExecutesAt mainThread 9 ∧
      ((begin m (.create 15 7)).after miscounting 10).machine.registers.stack.head? = some 180 ∧
      ((begin m (.create 15 7)).after miscounting 10).machine.heap.tag 180 = .waitGroup ∧
      Number.zero.atMost
        (((begin m (.create 15 7)).after miscounting 10).machine.heap.groupCount 180) = false ∧
      (((begin m (.create 15 7)).after miscounting 10).machine.heap.groupCount 180).same .zero =
        false ∧
      ((begin m (.create 15 7)).after miscounting 11).ExecutesAt mainThread 10 := by
  obtain ⟨m, hcreate, heq⟩ := exists_sample
  have h : miscounting.at? 9 = some .groupWait ∧
      (sample.after miscounting 10).ExecutesAt mainThread 9 ∧
      (sample.after miscounting 10).machine.registers.stack.head? = some 180 ∧
      (sample.after miscounting 10).machine.heap.tag 180 = .waitGroup ∧
      Number.zero.atMost ((sample.after miscounting 10).machine.heap.groupCount 180) = false ∧
      ((sample.after miscounting 10).machine.heap.groupCount 180).same .zero = false ∧
      (sample.after miscounting 11).ExecutesAt mainThread 10 := by
    decide +kernel
  rw [heq] at h
  exact ⟨m, hcreate, h⟩

end ChannelMachine.Run

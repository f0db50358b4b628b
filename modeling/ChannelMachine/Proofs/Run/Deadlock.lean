import ChannelMachine.Proofs.Run.Counting

/-!
# A deadlock is one

A run ends in a deadlock when threads are left and none is ready.  Then no thread waits that could go
on: the channel from which it receives is empty, the one to which it sends is full, the wait-group for
which it waits is above zero, and it would wait again if it executed its instruction once more.  Nobody
has received the value of a thread that sent on an unbuffered channel.

For channels this follows from the threads that are awake (`Attended`), as none is.  Wait-groups wake
all threads when they are counted to zero, so they need that each counter is above zero as long as
threads wait (`Tallied`); a counter that is NaN would not be.
-/

namespace ChannelMachine.Run

variable {program : Program} {run : Run}

/-! ## Wait-groups -/

/-- No counter of a wait-group ever is NaN. -/
def CountsNumbers (program : Program) (run : Run) : Prop :=
  ∀ n g, (run.after program n).machine.heap.InUse g →
    (run.after program n).machine.heap.tag g = .waitGroup →
      ((run.after program n).machine.heap.groupCount g).isNaN = false

/-- Wait-groups have counters of their own, which are above zero while threads wait. -/
structure Tallied (run : Run) : Prop where
  /-- No two wait-groups have the same counter. -/
  distinct : run.machine.heap.DistinctCounters
  /-- Threads wait only above zero. -/
  above : ∀ g, run.queue (.group g) ≠ [] → Number.zero.less (run.machine.heap.groupCount g) = true

theorem Fresh.tallied (fresh : run.Fresh) (counts : run.CountsNumbers program) (n : Nat)
    (hactive : (run.after program n).Active) : (run.after program n).Tallied := by
  have counted := fresh.counted program n hactive
  refine ⟨counted.distinct, fun g hne => (counted.above g hne).resolve_right ?_⟩
  obtain ⟨hin, htag⟩ := fresh.group_of_queue hactive hne
  rw [counts n g hin htag]
  exact Bool.false_ne_true

/-! ## Threads that wait while none is awake -/

/-- If no thread is awake, all places where threads wait are shut. -/
theorem Fresh.shut (fresh : run.Fresh) (counts : run.CountsNumbers program) {n : Nat}
    (hactive : (run.after program n).Active) (hnone : ∀ t, ¬ (run.after program n).Awake t)
    {place : Place} {t : ThreadId} (ht : t ∈ (run.after program n).queue place)
    (hplace : ∀ a, place ≠ .channel .sender a) :
    (run.after program n).machine.heap.Shut place := by
  obtain ⟨placed, attended⟩ := fresh.placed_attended program n hactive
  have booked := fresh.booked program n
  have hne : (run.after program n).queue place ≠ [] := List.ne_nil_of_mem ht
  obtain ⟨r, hr, stands⟩ := placed place t ht hplace
  have hin := (fresh.sound_after program n).inUse_stack hr stands.mem_stack
  have hneed : (run.ledger program n).need place = 0 := by
    obtain ⟨ts, -, hle, hts⟩ := attended place hne
    cases ts with
    | nil => exact Nat.le_zero.1 hle
    | cons u _ => exact absurd (hts u (List.mem_cons_self ..)).1 (hnone u)
  match place, hplace, hne, hneed, stands, hin with
  | .group g, _, hne, _, _, _ => exact (fresh.tallied counts n hactive).above g hne
  | .channel side a, hplace, _, hneed, stands, hin =>
    exact booked.shut_of_need (fun heq => hplace a (heq ▸ rfl)) hin stands.tag_channel hneed

/-! ## The end -/

/-- A run ends in a deadlock only when the scheduler finds no thread that is ready. -/
theorem Fresh.of_deadlock (fresh : run.Fresh) {n : Nat} {m : Machine}
    (hended : run.after program n = ended m (.failed .deadlock)) :
    ∃ i k s, i < n ∧ run.after program i = idle k s ∧ s.ready = [] ∧
      ¬ (run.after program (i + 1)).Active ∧ m = k.note (.stopped .deadlock) := by
  induction n with
  | zero =>
    have hrun : run = ended m (.failed .deadlock) := hended
    exact absurd rfl (hrun ▸ fresh.active)
  | succ n ih =>
    have sound := fresh.sound_after program n
    have hnext : (run.after program n).next program = ended m (.failed .deadlock) := hended
    cases hrun : run.after program n with
    | ended m' ending =>
      rw [hrun] at hnext
      obtain ⟨i, k, s, hin, h⟩ := ih (hrun.trans hnext)
      exact ⟨i, k, s, Nat.lt_succ_of_lt hin, h⟩
    | running m' s left =>
      rw [hrun] at hnext sound
      have hm : m'.Sound := sound
      rw [next, tick] at hnext
      split at hnext
      next fault k hstep =>
        rw [fail, ended.injEq, Ending.failed.injEq] at hnext
        exact absurd hnext.2 ((hm.does_step program).of_error hstep).1
      next p k hstep =>
        cases p with
        | advanced =>
          rw [proceed] at hnext
          split at hnext
          next => split at hnext <;> cases hnext
          next => cases hnext
        | _ => cases hnext
    | idle k s =>
      refine ⟨n, k, s, Nat.lt_succ_self n, hrun, ?_⟩
      rw [hended]
      rw [hrun, next, dispatch] at hnext
      split at hnext
      next fault hfault =>
        rw [fail, ended.injEq, Ending.failed.injEq] at hnext
        obtain ⟨rfl, rfl⟩ := hnext
        refine ⟨?_, fun h => h rfl, rfl⟩
        rw [Scheduler.next] at hfault
        split at hfault
        next => cases hfault
        next hready => exact hready
      next t s' _ =>
        dsimp only at hnext
        split at hnext
        next => cases hnext
        next => cases hnext

/-! ## The law -/

/-- Why a thread with registers `r` is left when a run ends after `n` steps with the machine `m`. -/
inductive Stuck (program : Program) (run : Run) (n : Nat) (m : Machine) (t : ThreadId)
    (r : Registers) : Prop where
  /-- It stands at a shut place and waits again if it goes on. -/
  | waits (place : Place) (queued : t ∈ m.queue place) (stands : m.Stands program r place)
      (shut : m.heap.Shut place) (again : ∃ k, ({ m with
        registers := r, current := t, threads := m.threads.erase t } : Machine).step program =
          .ok .blocked k)
  /-- It sent on an unbuffered channel and has been asleep since.  Whatever was received at this address
  came from a channel that was made there later, and its own channel is still full, or such a channel has
  taken its place. -/
  | parked (i : Nat) (a v : Address) (hin : i < n) (parks : run.Parks program i t a v)
      (sleeps : ∀ j, i < j → (run.after program j).Active → (run.after program j).Asleep t)
      (kept : ∀ j u w, i < j → (run.after program j).deal? program = some (.received u a w) →
        ∃ l c, i < l ∧ l < j ∧ (run.after program l).deal? program = some (.made a c))
      (place : (t ∈ m.queue (.channel .sender a) ∧
          (m.heap.InUse a → m.heap.tag a = .channel → m.heap.isFull a = true)) ∨
        ∃ j c, i < j ∧ j < n ∧ (run.after program j).deal? program = some (.made a c))

/-- Only the heap, the queues and the configuration count. -/
theorem Stuck.congr {n n' : Nat} {m k : Machine} {t : ThreadId} {r : Registers}
    (stuck : Stuck program run n m t r) (hle : n ≤ n') (hheap : k.heap = m.heap)
    (hqueue : ∀ p, k.queue p = m.queue p) (htyped : k.typedChannels = m.typedChannels) :
    Stuck program run n' k t r := by
  cases stuck with
  | waits place queued stands shut =>
    have shut' : k.heap.Shut place := hheap ▸ shut
    have again : Machine.Stands program { k with
        registers := r, current := t, threads := k.threads.erase t } r place :=
      stands.congr hheap htyped
    exact .waits place (hqueue place ▸ queued) (stands.congr hheap htyped) shut'
      (again.blocks shut')
  | parked i a v hin parks sleeps kept place =>
    refine .parked i a v (Nat.lt_of_lt_of_le hin hle) parks sleeps kept ?_
    rw [hqueue, hheap]
    exact place.imp_right fun ⟨j, c, hij, hj, hmade⟩ =>
      ⟨j, c, hij, Nat.lt_of_lt_of_le hj hle, hmade⟩

/-- The channel of a sender that waits is full. -/
theorem Waiting.isFull (fresh : run.Fresh) {i n : Nat} {t : ThreadId} {a v : Address}
    (waiting : run.Waiting program i t a v n)
    (hin : (run.after program n).machine.heap.InUse a)
    (htag : (run.after program n).machine.heap.tag a = .channel) :
    (run.after program n).machine.heap.isFull a = true := by
  have booked := fresh.booked program n
  obtain ⟨x, hx, books⟩ := booked.books a hin htag
  obtain ⟨hzero, -, w, hheld⟩ := books.of_sender (booked.fair a x hx) waiting.queued
  have hslots : x.slots = 1 := by rw [Account.slots, hzero]; rfl
  refine books.ring.isFull_iff.2 ?_
  rw [hheld, books.slots, hslots]
  rfl

/-- Any thread that is left at a deadlock is stuck. -/
theorem Fresh.stuck (fresh : run.Fresh) (counts : run.CountsNumbers program) {n : Nat} {k : Machine}
    {s : Scheduler} (hrun : run.after program n = idle k s) (hready : s.ready = [])
    (hover : ¬ (run.after program (n + 1)).Active) {t : ThreadId} {r : Registers}
    (ht : k.threads[t]? = some r) : Stuck program run n k t r := by
  have rostered := fresh.rostered_after program n
  have hactive : (run.after program n).Active := hrun ▸ nofun
  have hle : ∀ j, (run.after program j).Active → j ≤ n := fun j hj =>
    Nat.le_of_not_lt fun hlt => hover (active_of_le hlt hj)
  have hdeal : ∀ j u a w, (run.after program j).deal? program = some (.received u a w) → j < n :=
    fun j u a w hj => hle (j + 1) (fresh.active_of_deal hj)
  have hasleep : (run.after program n).Asleep t := by
    rw [hrun] at rostered ⊢
    rcases (rostered.1.table t).1 (Option.isSome_iff_exists.2 ⟨r, ht⟩) with h | h
    · rw [hready] at h
      cases h
    · exact asleep_idle.2 h
  have hnone : ∀ u, ¬ (run.after program n).Awake u := by
    intro u hawake
    rw [hrun] at rostered hawake
    rw [awake_idle, hready, rostered.2] at hawake
    simp at hawake
  cases fresh.accounted program hactive hasleep with
  | queued place queued hplace =>
    have shut := fresh.shut counts hactive hnone queued hplace
    obtain ⟨r', hr', stands⟩ := (fresh.placed_attended program n hactive).1 place t queued hplace
    rw [hrun] at shut queued hr' stands
    obtain rfl := Option.some.inj (ht.symm.trans hr')
    have stands' : Machine.Stands program { k with
        registers := r, current := t, threads := k.threads.erase t } r place :=
      stands.congr rfl rfl
    exact .waits place queued stands shut (stands'.blocks shut)
  | waiting i a v hin parks waiting =>
    refine .parked i a v hin parks (fun j hij hj => waiting.sleeps j hij (hle j hj))
      (fun j u w hij hj => ?_) (.inl ?_)
    · exact absurd rfl (waiting.quiet j hij (hdeal j u a w hj) _ hj)
    · have queued := waiting.queued
      have hfull := waiting.isFull fresh
      rw [hrun] at queued hfull
      exact ⟨queued, hfull⟩
  | lost i l a v parks lost =>
    obtain ⟨c, hc⟩ := lost.made
    refine .parked i a v (Nat.lt_trans lost.after lost.before) parks
      (fun j hij hj => lost.sleeps j hij (hle j hj)) (fun j u w hij hj => ?_)
      (.inr ⟨l, c, lost.after, lost.before, hc⟩)
    rcases Nat.lt_trichotomy j l with hlt | rfl | hlt
    · exact absurd rfl (lost.quiet j hij hlt _ hj)
    · rw [hc] at hj
      cases hj
    · exact ⟨l, c, lost.after, hlt, hc⟩

/-- A deadlock is one: no thread that is left could go on, in the run of any program in which no
counter of a wait-group becomes NaN. -/
theorem stuck_of_deadlock {config : Config} {m : Machine}
    (hcreate : Machine.create config standardBuiltins = .ok m) {program : Program}
    (counts : (begin m (.create config.maxQuantum config.seed)).CountsNumbers program) {n : Nat}
    {k : Machine}
    (hended : (begin m (.create config.maxQuantum config.seed)).after program n =
      ended k (.failed .deadlock)) {t : ThreadId} {r : Registers} (ht : k.threads[t]? = some r) :
    Stuck program (begin m (.create config.maxQuantum config.seed)) n k t r := by
  have fresh := fresh_begin hcreate
  obtain ⟨i, l, s, hin, hrun, hready, hover, rfl⟩ := fresh.of_deadlock hended
  obtain ⟨hheap, hthreads, -, htyped, hqueue⟩ := same_note l (.stopped .deadlock)
  rw [hthreads] at ht
  exact (fresh.stuck counts hrun hready hover ht).congr (Nat.le_of_lt hin) hheap hqueue htyped

/-- The main thread adds one to a wait-group and waits for it. -/
def counting : Program := ⟨#[.enterScope 1, .newWaitGroup, .store ⟨0, 0⟩,
  .constant (.number ⟨0x3ff0000000000000⟩), .groupAdd, .load ⟨0, 0⟩, .groupWait, .halt]⟩

/-- How a run has ended. -/
def ending? : Run → Option Ending
  | ended _ ending => some ending
  | running _ _ _ | idle _ _ => none

theorem eq_ended {ending : Ending} (h : run.ending? = some ending) :
    run = ended run.machine ending := by
  cases run with
  | ended m e => rw [Option.some.inj h, machine]
  | _ => cases h

/-- The run ends in a deadlock, and the main thread is left. -/
theorem deadlock_counting : sample.after counting 9 =
    ended (sample.after counting 9).machine (.failed .deadlock) ∧
      (sample.after counting 9).machine.threads[mainThread]?.isSome = true := by
  have h : (sample.after counting 9).ending? = some (.failed .deadlock) ∧
      (sample.after counting 9).machine.threads[mainThread]?.isSome = true := by
    decide +kernel
  exact ⟨eq_ended h.1, h.2⟩

/-- The only wait-group of the run counts one. -/
theorem countsNumbers_counting : sample.CountsNumbers counting := by
  have hearly : ∀ n < 10, (sample.after counting n).machine.heap.words.size = 200 ∧
      ∀ i : Nat, i < 20 → (sample.after counting n).machine.heap.tag (10 * i) = .waitGroup →
        ((sample.after counting n).machine.heap.groupCount (10 * i)).isNaN = false := by
    decide +kernel
  obtain ⟨hended, -⟩ := deadlock_counting
  intro n g hin htag
  obtain ⟨i, hi, heq⟩ : ∃ i < 10, (sample.after counting n).machine =
      (sample.after counting i).machine := by
    rcases Nat.lt_or_ge n 10 with hlt | hge
    · exact ⟨n, hlt, rfl⟩
    · refine ⟨9, by decide, ?_⟩
      rw [after_of_ended hended (Nat.le_of_succ_le hge), machine]
  rw [heq] at hin htag ⊢
  obtain ⟨hsize, hcounts⟩ := hearly i hi
  obtain ⟨j, rfl⟩ := Nat.dvd_of_mod_eq_zero hin.toIsBlock.mod
  have hle := hin.toIsBlock.le
  rw [hsize] at hle
  exact hcounts j (by omega) htag

/-- The main thread is stuck. -/
theorem stuck_of_deadlock_counting : ∃ m,
    Machine.create { heapWords := 200, seed := 7 } standardBuiltins = .ok m ∧
      (begin m (.create 15 7)).CountsNumbers counting ∧ ∃ k r,
      (begin m (.create 15 7)).after counting 9 = ended k (.failed .deadlock) ∧
      k.threads[mainThread]? = some r ∧
      Stuck counting (begin m (.create 15 7)) 9 k mainThread r := by
  obtain ⟨m, hcreate, heq⟩ := exists_sample
  have counts := countsNumbers_counting
  obtain ⟨hended, hsome⟩ := deadlock_counting
  obtain ⟨r, hr⟩ := Option.isSome_iff_exists.1 hsome
  rw [heq] at counts hended hr
  exact ⟨m, hcreate, counts, _, r, hended, hr, stuck_of_deadlock hcreate counts hended hr⟩

end ChannelMachine.Run

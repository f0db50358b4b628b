import ChannelMachine.Proofs.Run.Parking

/-!
# No thread is lost

Whenever the scheduler is about to choose a thread, the four places where threads are written down
agree (`Roster`), and the thread that it chooses is found in the table.  A thread that is blocked stands
in exactly one queue, unless it sent on an unbuffered channel that was collected.  Whoever is started or
woken was waiting, or is new, so `Scheduler.makeReady` never has to pass over a thread.  No thread gets a
number that another one had.
-/

namespace ChannelMachine

/-! ## Threads that are started or woken -/

section Instructions

variable {program : Program} {m k : Machine} {s : Scheduler} {p : Progress} {d : Option Deal}

/-- No instruction wakes a thread twice. -/
theorem Roster.nodup_runnable (roster : Roster m s none) (acts : m.Acts program k p d) :
    k.runnable.Nodup := by
  have hwoken : ∀ woken : List ThreadId, k.runnable = m.runnable ++ woken → woken.Nodup →
      k.runnable.Nodup := by
    intro woken heq hnodup
    rw [heq, roster.runnable]
    exact hnodup
  have hfirst : ∀ place, ((m.queue place).take 1).Nodup := fun place =>
    (roster.nodup place).sublist (List.take_sublist ..)
  cases acts with
  | apart _ _ _ _ apart =>
    rw [apart.runnable, roster.runnable]
    exact List.nodup_nil
  | started _ _ _ _ _ _ requeues => exact hwoken _ requeues.runnable (List.pairwise_singleton ..)
  | madeChannel _ _ _ _ _ _ _ requeues => exact hwoken _ requeues.runnable List.nodup_nil
  | sent _ _ _ _ _ _ _ _ requeues => exact hwoken _ requeues.runnable (hfirst _)
  | full _ _ _ _ _ _ _ requeues => exact hwoken _ requeues.runnable List.nodup_nil
  | received _ _ _ _ _ _ _ requeues =>
    refine hwoken _ requeues.runnable (List.nodup_append.2 ⟨?_, hfirst _, ?_⟩)
    · split
      next => exact hfirst _
      next => exact List.nodup_nil
    · rintro t ht u hu rfl
      split at ht
      next =>
        cases roster.unique _ _ t (List.mem_of_mem_take ht) (List.mem_of_mem_take hu)
      next => cases ht
  | empty _ _ _ _ _ _ _ requeues => exact hwoken _ requeues.runnable List.nodup_nil
  | madeGroup _ _ _ _ _ _ _ requeues => exact hwoken _ requeues.runnable List.nodup_nil
  | counted _ _ _ _ _ _ requeues =>
    split at requeues
    next => exact hwoken _ requeues.runnable (roster.nodup _)
    next => exact hwoken _ requeues.runnable List.nodup_nil
  | waits _ _ _ _ _ _ _ requeues => exact hwoken _ requeues.runnable List.nodup_nil

/-- A thread that is started or woken was blocked, or it is new. -/
theorem Roster.waits_of_runnable (roster : Roster m s none) (acts : m.Acts program k p d)
    (hm : m.Sound) {t : ThreadId} (ht : t ∈ k.runnable) :
    (t ∈ s.blocked ∨ t = m.nextThread) ∧ t ∉ s.ready ∧ s.running ≠ some t := by
  obtain ⟨leave, woken, started, joins, shifts, -⟩ := acts.passes hm
  rw [roster.runnable_eq shifts] at ht
  rcases List.mem_append.1 ht with ht | ht
  · have hblocked := roster.blocked_of_woken shifts ht
    exact ⟨.inl hblocked, fun h => roster.disjoint t h hblocked,
      fun h => (roster.running t h).2 hblocked⟩
  · obtain ⟨rfl, -⟩ := shifts.eq_of_started ht
    exact ⟨.inr rfl, fun h => Nat.lt_irrefl _ (roster.bound _ (.inl h)),
      fun h => Nat.lt_irrefl _ (roster.bound _ (.inr (.inr h)))⟩

/-- Spawning puts a new thread into the table. -/
theorem Machine.Acts.of_spawn (acts : m.Acts program k p d) {n : Nat}
    (instr : program.at? m.registers.pc = some (.spawn n)) :
    p = .advanced ∧ k.threads[m.nextThread]?.isSome := by
  cases acts with
  | apart _ _ notSpawn => exact absurd instr (notSpawn n)
  | started _ _ _ threads =>
    rw [threads, Roster.isSome_insert]
    exact ⟨rfl, .inl rfl⟩
  | counted instr' => rw [instr] at instr'; simp at instr'
  | _ instr' => rw [instr] at instr'; cases instr'

end Instructions

namespace Run

variable {program : Program} {run run' : Run} {t : ThreadId}

/-! ## Numbers of threads -/

/-- The next step starts a thread. -/
def Starts (program : Program) (run : Run) (t : ThreadId) : Prop :=
  run.thread? t = none ∧ (run.next program).thread? t ≠ none

/-- All threads have numbers below the next one. -/
theorem Rostered.thread_lt (hrun : run.Rostered) (hactive : run.Active) (ht : run.thread? t ≠ none) :
    t < run.machine.nextThread := by
  have htable : ∀ {m : Machine} {s : Scheduler}, Roster m s none → m.threads[t]? ≠ none →
      t < m.nextThread := by
    intro m s roster hsome
    rcases (roster.table t).1 (Option.isSome_iff_ne_none.2 hsome) with h | h
    · exact roster.bound t (.inl h)
    · exact roster.bound t (.inr (.inl h))
  cases run with
  | running m s left =>
    by_cases heq : t = m.current
    · subst heq
      exact hrun.1.bound _ (.inr (.inr hrun.2))
    · rw [thread?, if_neg heq] at ht
      exact htable hrun.1 ht
  | idle m s => exact htable hrun.1 ht
  | ended m ending => exact absurd rfl hactive

/-- A thread that is started has the next number. -/
theorem Moves.eq_of_starts (moves : Moves program run run') (hrun : run.Rostered)
    (hnone : run.thread? t = none) (hsome : run'.thread? t ≠ none) :
    run'.Active ∧ t = run.machine.nextThread := by
  cases moves with
  | dispatched _ same =>
    rw [same.thread] at hsome
    exact absurd hnone hsome
  | @stepped m k _ _ _ here sound _ acts turned =>
    subst here
    obtain ⟨leave, woken, started, joins, shifts, -⟩ := acts.passes sound
    have hne : t ≠ m.current := by
      rintro rfl
      rw [thread?, if_pos rfl] at hnone
      cases hnone
    rw [thread?, if_neg hne] at hnone
    rw [turned.other t hne] at hsome
    refine ⟨turned.active, ?_⟩
    rcases shifts.threads with ⟨-, hthreads, -⟩ | ⟨r, -, hthreads, -⟩
    · rw [hthreads] at hsome
      exact absurd hnone hsome
    · rw [hthreads] at hsome
      exact (Roster.isSome_insert.1 (Option.isSome_iff_ne_none.2 hsome)).resolve_right
        fun h => Option.isSome_iff_ne_none.1 h hnone
  | stopped _ ended _ _ threads =>
    exfalso
    cases run' with
    | running => exact ended (Option.some_ne_none _)
    | idle => exact ended (Option.some_ne_none _)
    | ended m' ending =>
      rw [thread?, show m'.threads = run.machine.threads from threads] at hsome
      cases run with
      | running m s left =>
        by_cases heq : t = m.current
        · exact hsome (hrun.1.table_running (hrun.2.trans (congrArg some heq.symm)))
        · rw [thread?, if_neg heq] at hnone
          exact hsome hnone
      | idle => exact hsome hnone
      | ended => exact hsome hnone

theorem Moves.nextThread_le (moves : Moves program run run') :
    run.machine.nextThread ≤ run'.machine.nextThread := by
  cases moves with
  | dispatched _ same => exact Nat.le_of_eq same.nextThread.symm
  | stepped here sound _ acts turned =>
    subst here
    obtain ⟨leave, woken, started, joins, shifts, -⟩ := acts.passes sound
    exact turned.nextThread.symm ▸ shifts.nextThread_le
  | stopped _ _ _ _ _ nextThread => exact Nat.le_of_eq nextThread.symm

theorem Fresh.nextThread_le (fresh : run.Fresh) (program : Program) {i n : Nat} (hle : i ≤ n) :
    (run.after program i).machine.nextThread ≤ (run.after program n).machine.nextThread := by
  induction hle with
  | refl => exact Nat.le_refl _
  | step _ ih => exact Nat.le_trans ih (fresh.moves program _).nextThread_le

/-- A number that a thread is started with has belonged to no thread before. -/
theorem Fresh.new_of_starts (fresh : run.Fresh) {n : Nat}
    (hstarts : (run.after program n).Starts program t) {i : Nat} (hle : i ≤ n) :
    (run.after program i).thread? t = none := by
  obtain ⟨hactive, rfl⟩ :=
    (fresh.moves program n).eq_of_starts (fresh.rostered_after program n) hstarts.1 hstarts.2
  refine Classical.not_not.1 fun hsome => ?_
  have hlt := (fresh.rostered_after program i).thread_lt (active_of_le hle hactive.of_next) hsome
  exact Nat.not_lt.2 (fresh.nextThread_le program hle) hlt

/-- Spawning starts a thread. -/
theorem Rostered.starts_of_spawn {m k : Machine} {s : Scheduler} {p : Progress} {left n : Nat}
    (hrun : (running m s left).Rostered) (hm : m.Sound)
    (instr : program.at? m.registers.pc = some (.spawn n)) (hstep : m.step program = .ok p k) :
    (running m s left).Starts program m.nextThread := by
  obtain ⟨roster, hrunning⟩ := hrun
  have acts := (hm.does_step program).of_ok hstep
  obtain ⟨rfl, hsome⟩ := acts.of_spawn instr
  obtain ⟨leave, woken, started, joins, shifts, -⟩ := acts.passes hm
  have turned := (rostered_proceed roster hrunning shifts left nofun).2
  have hne : m.nextThread ≠ m.current := Nat.ne_of_gt (roster.bound _ (.inr (.inr hrunning)))
  refine ⟨?_, ?_⟩
  · rw [thread?, if_neg hne]
    exact roster.table_next
  · rw [next, tick, hstep]
    exact turned.other _ hne ▸ Option.isSome_iff_ne_none.1 hsome

/-! ## Choosing a thread -/

/-- The thread that the scheduler chooses is found in the table and runs. -/
theorem executes_dispatch {m : Machine} {s s' : Scheduler} (roster : Roster m s none)
    (hnext : s.next = .ok (t, s')) : m.resume t ≠ none ∧ (dispatch m s).Executes t := by
  obtain ⟨r, hr, -⟩ := roster.next hnext
  have hresume : ∀ k : Machine, k.threads = m.threads → k.resume t = some { k with
      threads := m.threads.erase t, registers := r, current := t } := by
    intro k hthreads
    rw [Machine.resume, hthreads, hr]
  obtain ⟨-, hthreads, -⟩ := same_note m (s'.switchEvent t)
  refine ⟨by rw [hresume m rfl]; exact Option.some_ne_none _, ?_⟩
  simp only [dispatch, hnext, hresume _ hthreads]
  obtain ⟨s₂, left, hrenew, -⟩ := exists_renew { m.note (s'.switchEvent t) with
    threads := m.threads.erase t, registers := r, current := t } s'
  exact ⟨_, s₂, left, hrenew, rfl⟩

/-! ## Instructions -/

section Instructions

variable {n left : Nat} {m : Machine} {s : Scheduler}

theorem after_succ_of_running (hrun : run.after program n = running m s left) :
    run.after program (n + 1) = tick program m s left := by
  rw [after, hrun]
  rfl

/-- What is seen of a run after an instruction. -/
theorem Fresh.turned {k : Machine} {p : Progress} (fresh : run.Fresh)
    (hrun : run.after program n = running m s left) (hstep : m.step program = .ok p k)
    (hp : ∀ v, p ≠ .finished v) :
    Turned (running m s left) (run.after program (n + 1)) m k p := by
  have rostered := fresh.rostered_after program n
  have sound := fresh.sound_after program n
  rw [hrun] at rostered sound
  have acts := (Machine.Sound.does_step sound program).of_ok hstep
  obtain ⟨leave, woken, started, joins, shifts, -⟩ := acts.passes sound
  rw [after_succ_of_running hrun, tick, hstep]
  exact (rostered_proceed rostered.1 rostered.2 shifts left hp).2

end Instructions

/-! ## The law -/

/-- What holds of the threads of a run. -/
structure KeepsThreads (program : Program) (run : Run) : Prop where
  /-- When no thread runs, the scheduler, the thread table and the queues agree. -/
  roster : ∀ n m s, run.after program n = idle m s → s.running = none ∧ Roster m s none
  /-- Then a blocked thread stands in one queue, or it stands in none and has lost the unbuffered
  channel on which it sent. -/
  queued : ∀ n m s t, run.after program n = idle m s → t ∈ s.blocked →
    (∃ p, t ∈ m.queue p ∧ ∀ q, t ∈ m.queue q → q = p) ∨
    ((∀ p, t ∉ m.queue p) ∧
      ∃ i j a v, run.Parks program i t a v ∧ run.Lost program i t a j n)
  /-- The thread that the scheduler chooses is found, and it runs. -/
  resumed : ∀ n m s t s', run.after program n = idle m s → s.next = .ok (t, s') →
    m.resume t ≠ none ∧ (run.after program (n + 1)).Executes t
  /-- An instruction starts or wakes threads at most once, and they were blocked or are new. -/
  woken : ∀ n m s left p k, run.after program n = running m s left → m.step program = .ok p k →
    k.runnable.Nodup ∧ ∀ t ∈ k.runnable,
      (t ∈ s.blocked ∨ t = m.nextThread) ∧ t ∉ s.ready ∧ s.running ≠ some t
  /-- Spawning starts a thread. -/
  spawned : ∀ n m s left c p k, run.after program n = running m s left →
    program.at? m.registers.pc = some (.spawn c) → m.step program = .ok p k →
    (run.after program n).Starts program m.nextThread
  /-- A thread that is started has a number that no thread had before. -/
  new : ∀ n t, (run.after program n).Starts program t →
    ∀ i ≤ n, (run.after program i).thread? t = none

theorem Fresh.queued_or_lost (fresh : run.Fresh) {n : Nat} {m : Machine} {s : Scheduler}
    (hrun : run.after program n = idle m s) (ht : t ∈ s.blocked) :
    (∃ p, t ∈ m.queue p ∧ ∀ q, t ∈ m.queue q → q = p) ∨
    ((∀ p, t ∉ m.queue p) ∧
      ∃ i j a v, run.Parks program i t a v ∧ run.Lost program i t a j n) := by
  have rostered := fresh.rostered_after program n
  have hqueue : (run.after program n).queue = m.queue := by
    rw [hrun]
    rfl
  have hone : ∀ p, t ∈ (run.after program n).queue p →
      ∃ p, t ∈ m.queue p ∧ ∀ q, t ∈ m.queue q → q = p := by
    intro p hp
    rw [hqueue] at hp
    rw [hrun] at rostered
    exact ⟨p, hp, fun q hq => rostered.1.unique q p t hq hp⟩
  have hactive : (run.after program n).Active := hrun ▸ nofun
  have hasleep : (run.after program n).Asleep t := hrun ▸ asleep_idle.2 ht
  cases fresh.accounted program hactive hasleep with
  | queued place queued => exact .inl (hone place queued)
  | waiting _ a _ _ _ waiting => exact .inl (hone _ waiting.queued)
  | lost i j a v parks lost => exact .inr ⟨hqueue ▸ lost.unqueued, i, j, a, v, parks, lost⟩

/-- No thread is lost, listed twice or woken twice, in the run of any program. -/
theorem keepsThreads {config : Config} {m : Machine}
    (hcreate : Machine.create config standardBuiltins = .ok m) (program : Program) :
    KeepsThreads program (begin m (.create config.maxQuantum config.seed)) := by
  have fresh := fresh_begin hcreate
  have rostered := fresh.rostered_after program
  have sound := fresh.sound_after program
  refine ⟨?_, fun n m s t => fresh.queued_or_lost, ?_, ?_, ?_,
    fun n t hstarts i => fresh.new_of_starts hstarts⟩
  · intro n m s hrun
    have hrostered := hrun ▸ rostered n
    exact ⟨hrostered.2, hrostered.1⟩
  · intro n m s t s' hrun hnext
    have hrostered := hrun ▸ rostered n
    rw [after, hrun]
    exact executes_dispatch hrostered.1 hnext
  · intro n m s left p k hrun hstep
    have hrostered := hrun ▸ rostered n
    have hsound := hrun ▸ sound n
    have hm : m.Sound := hsound
    have acts := (hm.does_step program).of_ok hstep
    exact ⟨hrostered.1.nodup_runnable acts, fun t => hrostered.1.waits_of_runnable acts hm⟩
  · intro n m s left c p k hrun instr hstep
    have hrostered := hrun ▸ rostered n
    have hsound := hrun ▸ sound n
    have hm : m.Sound := hsound
    rw [hrun]
    exact hrostered.starts_of_spawn hm instr hstep

/-- The main thread makes a channel and passes it to a second one, which receives from it. -/
def spawning : Program := ⟨#[.newChannel 0, .spawn 0, .receive, .endThread, .halt]⟩

/-- The second thread is started in step two. -/
theorem keepsThreads_spawning : ∃ m,
    Machine.create { heapWords := 200, seed := 7 } standardBuiltins = .ok m ∧
      ((begin m (.create 15 7)).after spawning 2).Starts spawning 1 ∧
      ∀ i ≤ 2, ((begin m (.create 15 7)).after spawning i).thread? 1 = none := by
  obtain ⟨m, hcreate, heq⟩ := exists_sample
  have hstarts : (sample.after spawning 2).Starts spawning 1 :=
    ⟨by decide +kernel, by decide +kernel⟩
  rw [heq] at hstarts
  exact ⟨m, hcreate, hstarts, (keepsThreads hcreate spawning).new 2 1 hstarts⟩

end Run

end ChannelMachine

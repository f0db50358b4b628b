import ChannelMachine.Proofs.Run.Roster

/-!
# What happens in a run

`after program run n` is the state after `n` steps.  A state is looked at from outside: which thread is
awake and which is asleep, with which registers it goes on, and who waits where.  `Moves` says how one
step changes these views: the scheduler lets another thread run and all of them stay, the running thread
executes an instruction (`Turned`, beside `Machine.Acts`), or the run is over.
-/

namespace ChannelMachine.Run

/-- The state after `n` steps. -/
def after (program : Program) (run : Run) : Nat → Run
  | 0 => run
  | n + 1 => (run.after program n).next program

theorem reaches_after (program : Program) (run : Run) (n : Nat) :
    Reaches program run (run.after program n) := by
  induction n with
  | zero => exact .refl
  | succ n ih => exact .next ih

theorem after_next (program : Program) (run : Run) (n : Nat) :
    (run.next program).after program n = run.after program (n + 1) := by
  induction n with
  | zero => rfl
  | succ n ih => rw [after, ih, ← after]

/-- A run that is over stays as it is. -/
theorem after_of_ended {program : Program} {run : Run} {i n : Nat} {m : Machine} {ending : Ending}
    (hended : run.after program i = ended m ending) (hle : i ≤ n) :
    run.after program n = ended m ending := by
  induction hle with
  | refl => exact hended
  | step _ ih => rw [after, ih, next]

/-! ## Views -/

/-- The scheduler of a run that is not over. -/
def scheduler? : Run → Option Scheduler
  | running _ s _ | idle _ s => some s
  | ended _ _ => none

/-- A run is not over. -/
def Active (run : Run) : Prop := run.scheduler? ≠ none

/-- The registers with which a thread goes on. -/
def thread? : Run → ThreadId → Option Registers
  | running m _ _, t => if t = m.current then some m.registers else m.threads[t]?
  | idle m _, t | ended m _, t => m.threads[t]?

/-- The threads that wait at a place. -/
def queue (run : Run) (p : Place) : List ThreadId := run.machine.queue p

/-- A thread is ready to run. -/
def Ready (run : Run) (t : ThreadId) : Prop := ∃ s, run.scheduler? = some s ∧ t ∈ s.ready

/-- A thread is ready or runs. -/
def Awake (run : Run) (t : ThreadId) : Prop :=
  ∃ s, run.scheduler? = some s ∧ (t ∈ s.ready ∨ s.running = some t)

/-- A thread is blocked. -/
def Asleep (run : Run) (t : ThreadId) : Prop := ∃ s, run.scheduler? = some s ∧ t ∈ s.blocked

/-- The next step is an instruction of a thread. -/
def Executes (run : Run) (t : ThreadId) : Prop :=
  ∃ m s left, run = running m s left ∧ m.current = t

/-- A thread is about to execute the instruction at an index. -/
def ExecutesAt (run : Run) (t : ThreadId) (pc : Nat) : Prop :=
  ∃ m s left, run = running m s left ∧ m.current = t ∧ m.registers.pc = pc

instance (run : Run) (t : ThreadId) (pc : Nat) : Decidable (run.ExecutesAt t pc) :=
  match run with
  | running m s left => decidable_of_iff (m.current = t ∧ m.registers.pc = pc)
      ⟨fun h => ⟨m, s, left, rfl, h⟩, fun ⟨_, _, _, heq, h⟩ => (running.inj heq).1 ▸ h⟩
  | idle _ _ => isFalse nofun
  | ended _ _ => isFalse nofun

/-- What the next step does to a channel, if anything. -/
def deal? (program : Program) : Run → Option Deal
  | running m _ _ => m.deal? program
  | idle _ _ | ended _ _ => none

section Views

variable {m : Machine} {s : Scheduler} {left : Nat} {t : ThreadId}

theorem ready_running : (running m s left).Ready t ↔ t ∈ s.ready := by simp [Ready, scheduler?]

theorem ready_idle : (idle m s).Ready t ↔ t ∈ s.ready := by simp [Ready, scheduler?]

theorem asleep_running : (running m s left).Asleep t ↔ t ∈ s.blocked := by
  simp [Asleep, scheduler?]

theorem asleep_idle : (idle m s).Asleep t ↔ t ∈ s.blocked := by simp [Asleep, scheduler?]

theorem awake_running : (running m s left).Awake t ↔ t ∈ s.ready ∨ s.running = some t := by
  simp [Awake, scheduler?]

theorem awake_idle : (idle m s).Awake t ↔ t ∈ s.ready ∨ s.running = some t := by
  simp [Awake, scheduler?]

end Views

/-- The roster of a run is in order. -/
def Rostered : Run → Prop
  | running m s _ => Roster m s none ∧ s.running = some m.current
  | idle m s => Roster m s none ∧ s.running = none
  | ended _ _ => True

theorem Rostered.roster {run : Run} (hrun : run.Rostered) {s : Scheduler}
    (hs : run.scheduler? = some s) : Roster run.machine s none := by
  cases run with
  | running m s' left => exact Option.some.inj hs ▸ hrun.1
  | idle m s' => exact Option.some.inj hs ▸ hrun.1
  | ended m ending => cases hs

/-- No thread is both awake and asleep. -/
theorem Rostered.not_asleep {run : Run} (hrun : run.Rostered) {t : ThreadId} (ht : run.Awake t) :
    ¬ run.Asleep t := by
  obtain ⟨s, hs, ht⟩ := ht
  rintro ⟨s', hs', ht'⟩
  obtain rfl := Option.some.inj (hs.symm.trans hs')
  have roster := hrun.roster hs
  rcases ht with ht | ht
  · exact roster.disjoint t ht ht'
  · exact (roster.running t ht).2 ht'

/-- A thread in a queue is asleep. -/
theorem Rostered.asleep_of_mem {run : Run} (hrun : run.Rostered) {s : Scheduler}
    (hs : run.scheduler? = some s) {p : Place} {t : ThreadId} (ht : t ∈ run.queue p) :
    run.Asleep t :=
  ⟨s, hs, (hrun.roster hs).blocked_of_mem ht⟩

/-! ## Steps -/

/-- All views are the same. -/
structure SameView (run run' : Run) : Prop where
  /-- The run is not over. -/
  active : run'.Active
  /-- The heap. -/
  heap : run'.machine.heap = run.machine.heap
  /-- The queues. -/
  queue : ∀ p, run'.queue p = run.queue p
  /-- The threads. -/
  thread : ∀ t, run'.thread? t = run.thread? t
  /-- The threads that are awake. -/
  awake : ∀ t, run'.Awake t ↔ run.Awake t
  /-- The threads that are asleep. -/
  asleep : ∀ t, run'.Asleep t ↔ run.Asleep t
  /-- The number of the next thread. -/
  nextThread : run'.machine.nextThread = run.machine.nextThread
  /-- Whether channels are typed. -/
  typedChannels : run'.machine.typedChannels = run.machine.typedChannels

/-- The views after the running thread took the machine from `m` to `k`. -/
structure Turned (run run' : Run) (m k : Machine) (p : Progress) : Prop where
  /-- The run is not over. -/
  active : run'.Active
  /-- The heap. -/
  heap : run'.machine.heap = k.heap
  /-- The queues. -/
  queue : ∀ q, run'.queue q = k.queue q
  /-- The registers of the other threads. -/
  other : ∀ t, t ≠ m.current → run'.thread? t = k.threads[t]?
  /-- The registers of the thread that ran. -/
  self : run'.thread? m.current = if p = .exited then none else some k.registers
  /-- The threads that are started or woken are awake, and the one that ran is, if it goes on. -/
  awake : ∀ t, run'.Awake t ↔
    (run.Awake t ∨ t ∈ k.runnable) ∧ (t = m.current → p = .advanced ∨ p = .spinning)
  /-- The threads that are started or woken are ready. -/
  ready : ∀ t ∈ k.runnable, run'.Ready t
  /-- The threads that are not woken are asleep, and the one that ran is, if it waits. -/
  asleep : ∀ t, run'.Asleep t ↔
    (run.Asleep t ∧ t ∉ k.runnable) ∨ (p = .blocked ∧ t = m.current)
  /-- The number of the next thread. -/
  nextThread : run'.machine.nextThread = k.nextThread
  /-- Whether channels are typed. -/
  typedChannels : run'.machine.typedChannels = k.typedChannels

/-- What a step does. -/
inductive Moves (program : Program) (run : Run) : Run → Prop where
  /-- The scheduler lets a thread run. -/
  | dispatched {run' : Run} (nothing : run.deal? program = none) (same : SameView run run') :
      Moves program run run'
  /-- The running thread executes an instruction. -/
  | stepped {run' : Run} {m k : Machine} {s : Scheduler} {left : Nat} {p : Progress}
      (here : run = running m s left) (sound : m.Sound) (step : m.step program = .ok p k)
      (acts : m.Acts program k p (run.deal? program)) (turned : Turned run run' m k p) :
      Moves program run run'
  /-- The run is over. -/
  | stopped {run' : Run} (nothing : run.deal? program = none) (ended : ¬ run'.Active)
      (heap : ∀ a, run'.machine.heap.InUse a → (run'.machine.heap.tag a).isMeeting = true →
        run.machine.heap.InUse a ∧ run.machine.heap.SameNode run'.machine.heap a)
      (queue : ∀ p, run'.queue p = run.queue p)
      (threads : run'.machine.threads = run.machine.threads)
      (nextThread : run'.machine.nextThread = run.machine.nextThread) : Moves program run run'

section Machines

variable {m k : Machine} {t : ThreadId}

theorem threads_suspend_of_ne (hcurrent : k.current = m.current) (ht : t ≠ m.current) :
    (Machine.suspend { k with runnable := [] }).threads[t]? = k.threads[t]? := by
  change (k.threads.insert k.current k.registers)[t]? = _
  rw [Std.TreeMap.getElem?_insert, hcurrent]
  simp [Ne.symm ht]

theorem threads_suspend_self (hcurrent : k.current = m.current) :
    (Machine.suspend { k with runnable := [] }).threads[m.current]? = some k.registers := by
  change (k.threads.insert k.current k.registers)[m.current]? = _
  rw [Std.TreeMap.getElem?_insert, hcurrent]
  simp

theorem same_note (m : Machine) (e : Event) : (m.note e).heap = m.heap ∧
    (m.note e).threads = m.threads ∧ (m.note e).nextThread = m.nextThread ∧
    (m.note e).typedChannels = m.typedChannels ∧ ∀ p, (m.note e).queue p = m.queue p := by
  obtain ⟨core, hchannels, hgroups, -⟩ := Machine.sameCore_note m e
  exact ⟨core.heap, core.threads, core.nextThread, core.typedChannels,
    Machine.queue_congr hchannels hgroups⟩

theorem same_noteAll (m : Machine) (e : Option Event) : (noteAll m e).heap = m.heap ∧
    (noteAll m e).threads = m.threads ∧ (noteAll m e).nextThread = m.nextThread ∧
    (noteAll m e).typedChannels = m.typedChannels ∧ ∀ p, (noteAll m e).queue p = m.queue p := by
  cases e with
  | none => exact ⟨rfl, rfl, rfl, rfl, fun _ => rfl⟩
  | some e => exact same_note m e

end Machines

section Turns

variable {m k : Machine} {s : Scheduler} {left : Nat} {p : Progress} {leave : Place → Nat}
  {woken started : List ThreadId} {joins : Option Place}
  (roster : Roster m s none) (hrunning : s.running = some m.current)
  (shifts : Machine.Shifts m k p leave woken started joins)

include roster hrunning shifts

theorem awake_turn (t : ThreadId) : (running m s left).Awake t ∨ t ∈ k.runnable ↔
    t ∈ (s.makeAllReady k.runnable).ready ∨ t = m.current := by
  rw [awake_running, roster.mem_ready_turn hrunning shifts, hrunning, Option.some.injEq]
  constructor
  · rintro ((h | rfl) | h)
    · exact .inl (.inl h)
    · exact .inr rfl
    · exact .inl (.inr h)
  · rintro ((h | h) | rfl)
    · exact .inl (.inl h)
    · exact .inr h
    · exact .inl (.inr rfl)

/-- The running thread goes on. -/
theorem turned_running {s' : Scheduler} {left' : Nat} (hp : p = .advanced ∨ p = .spinning)
    (hready : s'.ready = (s.makeAllReady k.runnable).ready)
    (hblocked : s'.blocked = (s.makeAllReady k.runnable).blocked)
    (hsame : s'.running = (s.makeAllReady k.runnable).running) :
    Rostered (running { k with runnable := [] } s' left') ∧
      Turned (running m s left) (running { k with runnable := [] } s' left') m k p := by
  have hturn := roster.turn hrunning shifts
  have hcurrent : (s.makeAllReady k.runnable).running = some m.current :=
    (Scheduler.running_makeAllReady s _).trans hrunning
  have hjoins : joins = none := by
    rw [← Option.not_isSome_iff_eq_none, ← shifts.blocked]
    rcases hp with rfl | rfl <;> simp
  subst hjoins
  refine ⟨⟨hturn.congr rfl rfl rfl rfl (fun _ => rfl) hready hblocked hsame, ?_⟩, nofun, rfl,
    fun _ => rfl, ?_, ?_, ?_, ?_, ?_, rfl, rfl⟩
  · exact (hsame.trans hcurrent).trans (congrArg some shifts.current.symm)
  · intro t ht
    rw [thread?, if_neg (fun h => ht (h.trans shifts.current))]
  · rw [thread?, if_pos shifts.current.symm, if_neg]
    rcases hp with rfl | rfl <;> simp
  · intro t
    rw [awake_turn roster hrunning shifts, awake_running, hready, hsame, hcurrent,
      and_iff_left fun _ => hp, Option.some.injEq, eq_comm (a := m.current)]
  · intro t ht
    rw [ready_running, hready, roster.mem_ready_turn hrunning shifts]
    exact .inr ht
  · intro t
    rw [asleep_running, asleep_running, hblocked, roster.mem_blocked_turn]
    refine (or_iff_left ?_).symm
    rcases hp with rfl | rfl <;> simp

/-- The running thread goes off, ready or blocked or to its end. -/
theorem turned_idle {m' : Machine} {s' : Scheduler} (hroster : Roster m' s' none)
    (hidle : s'.running = none) (hp : p ≠ .spinning) (hheap : m'.heap = k.heap)
    (hqueue : ∀ q, m'.queue q = k.queue q) (hnext : m'.nextThread = k.nextThread)
    (htyped : m'.typedChannels = k.typedChannels)
    (hother : ∀ t, t ≠ m.current → m'.threads[t]? = k.threads[t]?)
    (hself : m'.threads[m.current]? = if p = .exited then none else some k.registers)
    (hready : ∀ t, t ∈ s'.ready ↔
      t ∈ (s.makeAllReady k.runnable).ready ∨ (p = .advanced ∧ t = m.current))
    (hblocked : ∀ t, t ∈ s'.blocked ↔
      t ∈ (s.makeAllReady k.runnable).blocked ∨ (p = .blocked ∧ t = m.current)) :
    Rostered (idle m' s') ∧ Turned (running m s left) (idle m' s') m k p := by
  refine ⟨⟨hroster, hidle⟩, nofun, hheap, hqueue, hother, hself, ?_, ?_, ?_, hnext, htyped⟩
  · intro t
    rw [awake_turn roster hrunning shifts, awake_idle, hready, hidle]
    by_cases ht : t = m.current
    · subst ht
      have hnot : m.current ∉ (s.makeAllReady k.runnable).ready := by
        rw [roster.mem_ready_turn hrunning shifts]
        exact not_or.2 ⟨(roster.running _ hrunning).1,
          roster.current_not_mem_runnable hrunning shifts⟩
      simp [hnot, hp]
    · simp [ht]
  · intro t ht
    rw [ready_idle, hready]
    exact .inl ((roster.mem_ready_turn hrunning shifts t).2 (.inr ht))
  · intro t
    rw [asleep_running, asleep_idle, hblocked, roster.mem_blocked_turn]

/-- The quantum of the running thread is over. -/
theorem turned_suspend (hp : p = .advanced) :
    Rostered (idle (Machine.suspend { k with runnable := [] }) (s.makeAllReady k.runnable).suspend) ∧
      Turned (running m s left)
        (idle (Machine.suspend { k with runnable := [] }) (s.makeAllReady k.runnable).suspend) m k
        p := by
  have hturn := roster.turn hrunning shifts
  have hcurrent : (s.makeAllReady k.runnable).running = some m.current :=
    (Scheduler.running_makeAllReady s _).trans hrunning
  have hjoins : joins = none := by
    rw [← Option.not_isSome_iff_eq_none, ← shifts.blocked, hp]
    simp
  subst hjoins
  have hs : (s.makeAllReady k.runnable).suspend = { s.makeAllReady k.runnable with
      running := none, ready := (s.makeAllReady k.runnable).ready ++ [m.current] } := by
    unfold Scheduler.suspend
    rw [hcurrent]
  have hsuspended := hturn.suspend (hcurrent.trans (congrArg some shifts.current.symm))
  refine turned_idle roster hrunning shifts hsuspended (by rw [hs]) (by simp [hp]) rfl
    (fun _ => rfl) rfl rfl ?_ ?_ ?_ ?_
  · exact fun t ht => threads_suspend_of_ne shifts.current ht
  · rw [hp, if_neg (by simp)]
    exact threads_suspend_self shifts.current
  · intro t
    rw [hs, hp]
    simp
  · intro t
    rw [hs, hp]
    simp

/-- The running thread waits. -/
theorem turned_block (hp : p = .blocked) (e : Option Event) :
    Rostered (idle (noteAll (Machine.suspend { k with runnable := [] }) e)
        (s.makeAllReady k.runnable).block) ∧
      Turned (running m s left) (idle (noteAll (Machine.suspend { k with runnable := [] }) e)
        (s.makeAllReady k.runnable).block) m k p := by
  have hturn := roster.turn hrunning shifts
  have hcurrent : (s.makeAllReady k.runnable).running = some m.current :=
    (Scheduler.running_makeAllReady s _).trans hrunning
  have hs : (s.makeAllReady k.runnable).block = { s.makeAllReady k.runnable with
      running := none, blocked := (s.makeAllReady k.runnable).blocked.insert m.current } := by
    unfold Scheduler.block
    rw [hcurrent]
  have hblocked := hturn.block (hcurrent.trans (congrArg some shifts.current.symm))
  obtain ⟨hheap, hthreads, hnext, htyped, hqueue⟩ :=
    same_noteAll (Machine.suspend { k with runnable := [] }) e
  refine turned_idle roster hrunning shifts (hblocked.noteAll e) (by rw [hs]) (by simp [hp]) hheap
    hqueue hnext htyped ?_ ?_ ?_ ?_
  · intro t ht
    rw [hthreads]
    exact threads_suspend_of_ne shifts.current ht
  · rw [hp, if_neg (by simp), hthreads]
    exact threads_suspend_self shifts.current
  · intro t
    rw [hs, hp]
    simp
  · intro t
    rw [hs, hp]
    simp [or_comm]

/-- The running thread comes to its end. -/
theorem turned_kill (hp : p = .exited) (e : Option Event) :
    Rostered (idle (noteAll (Machine.retire { k with runnable := [] }) e)
        (s.makeAllReady k.runnable).kill) ∧
      Turned (running m s left) (idle (noteAll (Machine.retire { k with runnable := [] }) e)
        (s.makeAllReady k.runnable).kill) m k p := by
  have hturn := roster.turn hrunning shifts
  have hcurrent : (s.makeAllReady k.runnable).running = some m.current :=
    (Scheduler.running_makeAllReady s _).trans hrunning
  have hjoins : joins = none := by
    rw [← Option.not_isSome_iff_eq_none, ← shifts.blocked, hp]
    simp
  subst hjoins
  obtain ⟨hheap, hthreads, hnext, htyped, hqueue⟩ :=
    same_noteAll (Machine.retire { k with runnable := [] }) e
  refine turned_idle roster hrunning shifts (hturn.kill.noteAll e) rfl (by simp [hp]) hheap
    hqueue hnext htyped ?_ ?_ ?_ ?_
  · intro t _
    rw [hthreads]
    rfl
  · rw [hp, if_pos rfl, hthreads]
    exact hturn.table_running hcurrent
  · intro t
    rw [hp]
    simp [Scheduler.kill]
  · intro t
    rw [hp]
    simp [Scheduler.kill]

end Turns

/-! ## All steps -/

/-- A run that ends without an instruction. -/
theorem moves_stopped {program : Program} {run run' : Run} (nothing : run.deal? program = none)
    (ended : ¬ run'.Active) (hheap : run'.machine.heap = run.machine.heap)
    (hqueue : ∀ p, run'.queue p = run.queue p)
    (hthreads : run'.machine.threads = run.machine.threads)
    (hnext : run'.machine.nextThread = run.machine.nextThread) : Moves program run run' := by
  refine .stopped nothing ended (fun a ha _ => ?_) hqueue hthreads hnext
  rw [hheap] at ha ⊢
  exact ⟨ha, .refl _ a⟩

/-- A thread that gets a new quantum. -/
theorem exists_renew (m : Machine) (s : Scheduler) : ∃ s' left, renew m s = running m s' left ∧
    s'.ready = s.ready ∧ s'.blocked = s.blocked ∧ s'.running = s.running :=
  ⟨s.draw.2, s.draw.1, rfl, s.draw_snd⟩

theorem moves_dispatch {m : Machine} {s : Scheduler} (program : Program) (roster : Roster m s none)
    (hidle : s.running = none) :
    (dispatch m s).Rostered ∧ Moves program (idle m s) (dispatch m s) := by
  unfold dispatch
  split
  next fault _ =>
    obtain ⟨hheap, hthreads, hnext, -, hqueue⟩ := same_note m (.stopped fault)
    exact ⟨trivial, moves_stopped rfl (fun h => h rfl) hheap hqueue hthreads hnext⟩
  next t s₁ hnext =>
    obtain ⟨r, hr, hroster⟩ := roster.next hnext
    obtain ⟨hready, hblocked, hrunning⟩ := Scheduler.of_next hnext
    obtain ⟨hheap, hthreads, hnextThread, htyped, hqueue⟩ := same_note m (s₁.switchEvent t)
    obtain ⟨-, -, -, hrunnable⟩ := Machine.sameCore_note m (s₁.switchEvent t)
    generalize m.note (s₁.switchEvent t) = m₁ at *
    have hresume : m₁.resume t = some { m₁ with
        threads := m.threads.erase t, registers := r, current := t } := by
      rw [Machine.resume, hthreads, hr]
    obtain ⟨s₂, left, hrenew, hready', hblocked', hrunning'⟩ := exists_renew { m₁ with
        threads := m.threads.erase t, registers := r, current := t } s₁
    simp only [hresume, hrenew]
    refine ⟨⟨hroster.congr hrunnable rfl hnextThread rfl hqueue hready' hblocked' hrunning',
      hrunning'.trans hrunning⟩,
      .dispatched rfl ⟨nofun, hheap, hqueue, ?_, ?_, ?_, hnextThread, htyped⟩⟩
    · intro u
      simp only [thread?]
      by_cases hu : u = t
      · rw [if_pos hu, hu, hr]
      · rw [if_neg hu, Std.TreeMap.getElem?_erase]
        simp [Ne.symm hu]
    · intro u
      rw [awake_running, awake_idle, hidle, hready', hrunning', hrunning, hready, List.mem_cons,
        Option.some.injEq]
      simp [or_comm, eq_comm]
    · intro u
      rw [asleep_running, asleep_idle, hblocked', hblocked]

section Instructions

variable {program : Program} {m k : Machine} {s : Scheduler} {left : Nat} {p : Progress}

/-- An instruction after which nothing is left but what is apart. -/
theorem moves_apart (nothing : (running m s left).deal? program = none) (apart : m.Apart k)
    {run' : Run} (ended : ¬ run'.Active) (hheap : run'.machine.heap = k.heap)
    (hqueue : ∀ p, run'.queue p = k.queue p) (hthreads : run'.machine.threads = k.threads)
    (hnext : run'.machine.nextThread = k.nextThread) :
    Moves program (running m s left) run' := by
  refine .stopped nothing ended (fun a ha hmeeting => ?_)
    (fun p => (hqueue p).trans (Machine.queue_congr apart.channels apart.groups p))
    (hthreads.trans apart.threads) (hnext.trans apart.nextThread)
  rw [hheap] at ha hmeeting ⊢
  exact apart.heap.old a ha hmeeting id

/-- What follows an instruction. -/
theorem rostered_proceed (roster : Roster m s none) (hrunning : s.running = some m.current)
    {leave : Place → Nat} {woken started : List ThreadId} {joins : Option Place}
    (shifts : Machine.Shifts m k p leave woken started joins) (left : Nat)
    (hp : ∀ v, p ≠ .finished v) :
    (proceed { k with runnable := [] } (s.makeAllReady k.runnable) left p).Rostered ∧
      Turned (running m s left)
        (proceed { k with runnable := [] } (s.makeAllReady k.runnable) left p) m k p := by
  cases p with
  | advanced =>
    rw [proceed]
    split
    next =>
      split
      next => exact turned_suspend roster hrunning shifts rfl
      next =>
        obtain ⟨s', left', hrenew, hready, hblocked, hsame⟩ :=
          exists_renew { k with runnable := [] } (s.makeAllReady k.runnable)
        rw [hrenew]
        exact turned_running roster hrunning shifts (.inl rfl) hready hblocked hsame
    next => exact turned_running roster hrunning shifts (.inl rfl) rfl rfl rfl
  | blocked => exact turned_block roster hrunning shifts rfl _
  | exited => exact turned_kill roster hrunning shifts rfl _
  | finished v => exact absurd rfl (hp v)
  | spinning => exact turned_running roster hrunning shifts (.inr rfl) rfl rfl rfl

theorem moves_tick (roster : Roster m s none) (hrunning : s.running = some m.current)
    (hm : m.Sound) (program : Program) (left : Nat) :
    (tick program m s left).Rostered ∧
      Moves program (running m s left) (tick program m s left) := by
  have hdoes := hm.does_step program
  unfold tick
  split
  next fault k hstep =>
    obtain ⟨-, apart⟩ := hdoes.of_error hstep
    have nothing : (running m s left).deal? program = none := by
      rw [deal?, Machine.deal?, hstep]
    obtain ⟨hheap, hthreads, hnext, -, hqueue⟩ := same_note k (.stopped fault)
    exact ⟨trivial, moves_apart nothing apart (fun h => h rfl) hheap hqueue hthreads hnext⟩
  next p k hstep =>
    have acts := hdoes.of_ok hstep
    have hdeal : m.dealt program p k = (running m s left).deal? program := by
      rw [deal?, Machine.deal?, hstep]
    rw [hdeal] at acts
    by_cases hp : ∃ v, p = .finished v
    · obtain ⟨v, rfl⟩ := hp
      obtain ⟨nothing, apart⟩ := acts.finished
      exact ⟨trivial, moves_apart nothing apart (fun h => h rfl) rfl (fun _ => rfl) rfl rfl⟩
    · obtain ⟨_, _, _, _, shifts, -⟩ := acts.passes hm
      obtain ⟨hrostered, turned⟩ := rostered_proceed roster hrunning shifts left
        fun v hv => hp ⟨v, hv⟩
      exact ⟨hrostered, .stepped rfl hm hstep acts turned⟩

end Instructions

/-- The roster stays in order, and each step is one of the kinds that `Moves` lists. -/
theorem Rostered.moves {run : Run} (hrun : run.Rostered) (hsound : run.Sound) (program : Program) :
    (run.next program).Rostered ∧ Moves program run (run.next program) := by
  cases run with
  | running m s left => exact moves_tick hrun.1 hrun.2 hsound program left
  | idle m s => exact moves_dispatch program hrun.1 hrun.2
  | ended m ending => exact ⟨trivial, moves_stopped rfl (fun h => h rfl) rfl (fun _ => rfl) rfl rfl⟩

/-- A run that is not over was not over before. -/
theorem Active.of_next {run : Run} {program : Program} (h : (run.next program).Active) :
    run.Active := by
  cases run with
  | running => exact Option.some_ne_none _
  | idle => exact Option.some_ne_none _
  | ended => exact h

end ChannelMachine.Run

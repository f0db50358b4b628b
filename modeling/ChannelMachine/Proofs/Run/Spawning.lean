import ChannelMachine.Proofs.Run.Stacks

/-!
# Where new threads run

Behind the instruction that starts a thread stand a call and the end of a thread.  The new thread takes
a function and its arguments along, makes this call first, and ends behind it when it has left all of
its functions.  Outside of functions it has no other code, and nobody else gets there: the thread that
started it goes on behind, and all jumps and returns of compiled code lead elsewhere
(`keepsSpawned`).

The code of a new thread is told by its place in the plan (`Shape.AtHome`), so what was proved of
the stacks says who is there.  That the call is made once needs the history, too: a thread that stands
in front of its call has executed nothing before (`Framed.fresh_of_spawned`).
-/

namespace ChannelMachine

open Source

namespace Machine

/-- The running thread hands a function and its arguments to a new one. -/
theorem ensures_step_spawn {program : Program} {m : Machine} {count : Nat}
    (instr : program.at? m.registers.pc = some (.spawn count))
    (hlt : count < m.registers.stack.length) :
    Ensures (step program) m (fun p k => p = .advanced ∧
      k.threads = m.threads.insert m.nextThread
        ⟨m.registers.stack.take (count + 1), m.registers.pc + 1, m.registers.environment, []⟩ ∧
      k.registers = ⟨Heap.undefined :: m.registers.stack.drop (count + 1), m.registers.pc + 3,
        m.registers.environment, m.registers.frames⟩) fun _ _ => False := by
  refine .bind (ensures_registersNow ?_)
  rw [instr]
  refine .bind (.bind (ensures_registersNow ?_))
  rw [if_neg (Nat.not_lt.2 hlt)]
  refine .bind (ensures_update ?_)
  obtain ⟨core, -⟩ := sameCore_note { m with
    threads := m.threads.insert m.nextThread
      ⟨m.registers.stack.take (count + 1), m.registers.pc + 1, m.registers.environment, []⟩
    nextThread := m.nextThread + 1
    runnable := m.runnable ++ [m.nextThread] } (.spawned m.nextThread m.current)
  refine .bind (ensures_replace (ensures_goTo (.pure ⟨rfl, core.threads, ?_⟩)))
  exact congrArg (fun r : Registers => { r with
    stack := Heap.undefined :: r.stack.drop (count + 1), pc := m.registers.pc + 3 }) core.registers

end Machine

namespace Run

section Quiet

variable {program : Program} {run : Run} {t : ThreadId} {r : Registers} {i n : Nat}

/-- A thread that does nothing keeps its registers. -/
theorem Fresh.thread?_next (fresh : run.Fresh) (hactive : (run.after program (n + 1)).Active)
    (ht : (run.after program n).thread? t = some r) (hquiet : ¬ (run.after program n).Executes t) :
    (run.after program (n + 1)).thread? t = some r := by
  have moves := fresh.moves program n
  cases moves with
  | dispatched _ same => exact (same.thread t).trans ht
  | @stepped m _ s left _ here sound _ acts turned =>
    have rostered := fresh.rostered_after program n
    have hlt := rostered.thread_lt (hactive.of_next) (ht ▸ Option.some_ne_none _)
    rw [here] at ht hquiet hlt
    have hne : t ≠ m.current := fun h => hquiet ⟨m, s, left, rfl, h.symm⟩
    obtain ⟨leave, woken, started, joins, shifts, -⟩ := acts.passes sound
    rw [thread?, if_neg hne] at ht
    exact (turned.other t hne).trans ((shifts.threads_eq (Nat.ne_of_lt hlt)).trans ht)
  | stopped _ ended => exact absurd hactive ended

/-- A thread that does nothing for some steps keeps its registers. -/
theorem Fresh.thread?_of_quiet (fresh : run.Fresh) (hle : i ≤ n)
    (hactive : (run.after program n).Active) (ht : (run.after program i).thread? t = some r)
    (hquiet : ∀ j, i ≤ j → j < n → ¬ (run.after program j).Executes t) :
    (run.after program n).thread? t = some r := by
  induction hle with
  | refl => exact ht
  | @step n hle ih =>
    have ht := ih hactive.of_next fun j hij hj => hquiet j hij (Nat.lt_succ_of_lt hj)
    exact fresh.thread?_next hactive ht (hquiet n hle (Nat.lt_succ_self n))

/-- A thread is started by an instruction for that. -/
theorem Fresh.started_of_starts (fresh : run.Fresh) (hstarts : (run.after program n).Starts program t) :
    ∃ start, run.StartedAt program t n start := by
  obtain ⟨hnone, hsome⟩ := id hstarts
  have hactive : (run.after program (n + 1)).Active :=
    ((fresh.moves program n).eq_of_starts (fresh.rostered_after program n) hnone hsome).1
  cases fresh.moves program n with
  | dispatched _ same => exact absurd ((same.thread t).trans hnone) hsome
  | stopped _ ended => exact absurd hactive ended
  | @stepped m _ s left _ here _ _ acts turned =>
    rw [here] at hnone
    have hne : t ≠ m.current := by
      rintro rfl
      rw [thread?, if_pos rfl] at hnone
      cases hnone
    rw [thread?, if_neg hne] at hnone
    have hnew : (run.after program (n + 1)).thread? t ≠ none := hsome
    rw [turned.other t hne] at hnew
    obtain ⟨count, hspawn⟩ := spawn_of_new acts hnone hnew
    exact ⟨_, m.current, count, ⟨m, s, left, here, rfl, rfl⟩, hspawn, hstarts⟩

end Quiet

/-- A thread runs code that is outside of functions. -/
theorem outer_of_has {plan : Plan} {program : Program} {run : Run} {h : Heap} {n : Nat}
    {t : ThreadId} {r : Registers} {σ : Shape} (has : r.Has plan h (run.past program n t) σ)
    (hlevel : σ.level ≠ .function) :
    run.bases program t n = [] ∧ ∃ origin, σ.level.Outer origin ∧ run.Born program t n origin :=
  has.framed.bases_eq_nil hlevel

/-! ## The law -/

/-- What holds of the threads of compiled code. -/
structure KeepsSpawned (program : Program) (run : Run) : Prop where
  /-- The instruction that starts a thread stands in front of a call and of the end of a thread.  It
  starts one thread, which has the function and its arguments and stands in front of the call.  The
  thread that executes it goes on behind, with a result in their place. -/
  spawns : ∀ n m s left count, run.after program n = running m s left →
    program.at? m.registers.pc = some (.spawn count) →
    program.at? (m.registers.pc + 1) = some (.call count) ∧
    program.at? (m.registers.pc + 2) = some .endThread ∧ count < m.registers.stack.length ∧
    (∀ u, (run.after program n).Starts program u ↔ u = m.nextThread) ∧
    (run.after program (n + 1)).thread? m.nextThread = some
      ⟨m.registers.stack.take (count + 1), m.registers.pc + 1, m.registers.environment, []⟩ ∧
    (run.after program (n + 1)).thread? m.current = some
      ⟨Heap.undefined :: m.registers.stack.drop (count + 1), m.registers.pc + 3,
        m.registers.environment, m.registers.frames⟩
  /-- Only these instructions start threads. -/
  started : ∀ n t, (run.after program n).Starts program t → ∃ start, run.StartedAt program t n start
  /-- What a new thread executes first is the call, and then it has all that it was given. -/
  begins : ∀ i n t start, run.StartedAt program t i start → i < n →
    (run.after program n).Executes t → (∀ j, i < j → j < n → ¬ (run.after program j).Executes t) →
    (run.after program n).ExecutesAt t (start + 1) ∧
      (run.after program n).thread? t = (run.after program (i + 1)).thread? t
  /-- Whoever makes this call was started in front of it, and it is the first that it executes. -/
  calls : ∀ n t start count, program.at? start = some (.spawn count) →
    (run.after program n).ExecutesAt t (start + 1) →
    t ≠ mainThread ∧ (∃ i < n, run.StartedAt program t i start) ∧
      ∀ j < n, ¬ (run.after program j).Executes t
  /-- Whoever comes to the end of a thread was started in front of it and has left all functions.  It is
  gone then. -/
  ends : ∀ n t pc, (run.after program n).ExecutesAt t pc → program.at? pc = some .endThread →
    t ≠ mainThread ∧ (∃ i < n, ∃ start, pc = start + 2 ∧ run.StartedAt program t i start) ∧
      (run.after program n).calls t = 0 ∧ (run.after program (n + 1)).thread? t = none
  /-- Outside of functions there is only the call and the end of the thread. -/
  outside : ∀ n t r, (run.after program n).Active → (run.after program n).thread? t = some r →
    t ≠ mainThread → (run.after program n).calls t = 0 →
    ∃ i < n, ∃ start, run.StartedAt program t i start ∧ (r.pc = start + 1 ∨ r.pc = start + 2)
  /-- The thread that starts another one never makes the call, and it comes to the end behind only if it
  was started in front of it before. -/
  spawner : ∀ i n t start count, (run.after program i).ExecutesAt t start →
    program.at? start = some (.spawn count) → i < n →
    ¬ (run.after program n).ExecutesAt t (start + 1) ∧
      ((run.after program n).ExecutesAt t (start + 2) →
        ∃ j < i, run.StartedAt program t j start)
  /-- No thread runs past the end of the program. -/
  inside : ∀ n t pc, (run.after program n).ExecutesAt t pc → pc < program.code.size
  /-- Only the main thread comes to the end of the program. -/
  halt : ∀ n t pc, (run.after program n).ExecutesAt t pc → program.at? pc = some .halt →
    t = mainThread
  /-- The result is the one of the main thread. -/
  finished : ∀ n m a, run.after program n = ended m (.finished a) →
    m.current = mainThread ∧ m.registers.stack = [a]

section Law

variable {program : Program} {plan : Plan} {run : Run} {n : Nat} {t : ThreadId} {pc : Nat}

/-- What is planned for the thread that runs. -/
theorem has_of_executesAt (hkeeps : (run.after program n).KeepsPlan plan (run.past program n))
    (hexec : (run.after program n).ExecutesAt t pc) : ∃ r σ,
      (run.after program n).thread? t = some r ∧ r.pc = pc ∧ plan pc = some σ ∧
        r.Has plan (run.after program n).machine.heap (run.past program n t) σ := by
  obtain ⟨m, s, left, hrun, rfl, rfl⟩ := hexec
  have hr : (run.after program n).thread? m.current = some m.registers := by
    rw [hrun]
    exact if_pos rfl
  have hactive : (run.after program n).Active := by
    rw [hrun]
    exact nofun
  obtain ⟨σ, hσ, has⟩ := (hkeeps.planned hactive).threads _ _ hr
  exact ⟨_, σ, hr, rfl, hσ, has⟩

variable (fresh : run.Fresh) (plans : Plans program plan)
  (hkeeps : ∀ n, (run.after program n).KeepsPlan plan (run.past program n))

include plans hkeeps

theorem calls_of_executesAt {start count : Nat} (hspawn : program.at? start = some (.spawn count))
    (hexec : (run.after program n).ExecutesAt t (start + 1)) :
    t ≠ mainThread ∧ (∃ i < n, run.StartedAt program t i start) ∧
      ∀ j < n, ¬ (run.after program j).Executes t := by
  obtain ⟨r, σ, -, -, hσ, has⟩ := has_of_executesAt (hkeeps n) hexec
  have hlevel := (plans.spawn _ _ hspawn).start σ hσ
  obtain ⟨-, origin, outer, born⟩ := outer_of_has has (hlevel ▸ nofun)
  have framed := has.framed
  rw [hlevel] at outer framed
  cases outer
  exact ⟨born.1, born.2, framed.fresh_of_spawned⟩

theorem ends_of_executesAt (fresh : run.Fresh) (hexec : (run.after program n).ExecutesAt t pc)
    (hend : program.at? pc = some .endThread) :
    t ≠ mainThread ∧ (∃ i < n, ∃ start, pc = start + 2 ∧ run.StartedAt program t i start) ∧
      (run.after program n).calls t = 0 ∧ (run.after program (n + 1)).thread? t = none := by
  obtain ⟨r, σ, hr, -, hσ, has⟩ := has_of_executesAt (hkeeps n) hexec
  obtain ⟨i, hi, follows⟩ := plans.follows _ σ hσ
  obtain rfl := Option.some.inj (hi.symm.trans hend)
  cases follows with
  | plain takes => cases takes
  | @endThread _ start here level =>
    obtain ⟨hbases, origin, outer, born⟩ := outer_of_has has (level ▸ Level.noConfusion)
    rw [level] at outer
    cases outer
    obtain ⟨hne, i, hi, hstarted⟩ := born
    have hcalls : (run.after program n).calls t = 0 :=
      (calls_of_has hr has).trans (congrArg List.length hbases)
    refine ⟨hne, ⟨i, hi, start, here, hstarted⟩, hcalls, ?_⟩
    obtain ⟨m, s, left, hrun, rfl, rfl⟩ := hexec
    have hstep : m.step program = .ok .exited m := Machine.step_eq hend
    exact (fresh.turned hrun hstep (by rintro _ ⟨⟩)).self.trans (if_pos rfl)

theorem outside_of_calls {r : Registers} (hactive : (run.after program n).Active)
    (hr : (run.after program n).thread? t = some r) (hne : t ≠ mainThread)
    (hcalls : (run.after program n).calls t = 0) :
    ∃ i < n, ∃ start, run.StartedAt program t i start ∧ (r.pc = start + 1 ∨ r.pc = start + 2) := by
  obtain ⟨σ, hσ, has⟩ := ((hkeeps n).planned hactive).threads t r hr
  have hbases : run.bases program t n = [] :=
    List.length_eq_zero_iff.1 ((calls_of_has hr has).symm.trans hcalls)
  have hlevel : σ.level ≠ .function := fun hlevel =>
    (hlevel ▸ has.framed).bases_ne_nil hbases
  obtain ⟨-, origin, outer, born⟩ := outer_of_has has hlevel
  have home := plans.home _ σ hσ
  unfold Shape.AtHome at home
  generalize σ.level = level at outer home
  cases outer with
  | main => exact absurd born hne
  | spawned start =>
    obtain ⟨-, i, hi, hstarted⟩ := born
    exact ⟨i, hi, start, hstarted, .inl home.1⟩
  | ending start =>
    obtain ⟨-, i, hi, hstarted⟩ := born
    exact ⟨i, hi, start, hstarted, .inr home.1⟩

theorem spawns_of_running (fresh : run.Fresh) {m : Machine} {s : Scheduler} {left count : Nat}
    (hrun : run.after program n = running m s left)
    (hspawn : program.at? m.registers.pc = some (.spawn count)) :
    count < m.registers.stack.length ∧
    (∀ u, (run.after program n).Starts program u ↔ u = m.nextThread) ∧
    (run.after program (n + 1)).thread? m.nextThread = some
      ⟨m.registers.stack.take (count + 1), m.registers.pc + 1, m.registers.environment, []⟩ ∧
    (run.after program (n + 1)).thread? m.current = some
      ⟨Heap.undefined :: m.registers.stack.drop (count + 1), m.registers.pc + 3,
        m.registers.environment, m.registers.frames⟩ := by
  have rostered := fresh.rostered_after program n
  have sound := fresh.sound_after program n
  have hexec : (run.after program n).ExecutesAt m.current m.registers.pc :=
    ⟨m, s, left, hrun, rfl, rfl⟩
  obtain ⟨r, σ, hr, -, hσ, has⟩ := has_of_executesAt (hkeeps n) hexec
  have hlt : count < m.registers.stack.length := by
    obtain ⟨i, hi, follows⟩ := plans.follows _ σ hσ
    obtain rfl := Option.some.inj (hi.symm.trans hspawn)
    rw [hrun] at hr
    obtain rfl := Option.some.inj ((if_pos rfl).symm.trans hr)
    cases follows with
    | plain takes => cases takes
    | spawn => exact has.lt_length (Nat.lt_succ_self count)
  obtain ⟨p, k, hstep, rfl, hthreads, hregisters⟩ :=
    (Machine.ensures_step_spawn hspawn hlt).exists_ok
  have turned := fresh.turned hrun hstep nofun
  rw [hrun] at rostered sound
  have hstarts := rostered.starts_of_spawn sound hspawn hstep
  have hne : m.nextThread ≠ m.current :=
    Nat.ne_of_gt (rostered.1.bound _ (.inr (.inr rostered.2)))
  refine ⟨hlt, fun u => ⟨fun h => ?_, ?_⟩, ?_, ?_⟩
  · have heq := ((fresh.moves program n).eq_of_starts (fresh.rostered_after program n) h.1 h.2).2
    rwa [hrun] at heq
  · rintro rfl
    rwa [hrun]
  · rw [turned.other _ hne, hthreads, Std.TreeMap.getElem?_insert, if_pos Std.ReflCmp.compare_self]
  · rw [turned.self, hregisters]
    rfl

theorem begins_of_startedAt (fresh : run.Fresh) {i start : Nat}
    (hstarted : run.StartedAt program t i start) (hlt : i < n)
    (hexec : (run.after program n).Executes t)
    (hquiet : ∀ j, i < j → j < n → ¬ (run.after program j).Executes t) :
    (run.after program n).ExecutesAt t (start + 1) ∧
      (run.after program n).thread? t = (run.after program (i + 1)).thread? t := by
  obtain ⟨u, count, ⟨m, s, left, hrun, rfl, rfl⟩, hspawn, hstarts⟩ := hstarted
  obtain ⟨-, honly, hnew, -⟩ := spawns_of_running plans hkeeps fresh hrun hspawn
  obtain rfl := (honly t).1 hstarts
  obtain ⟨m', s', left', hrun', hcurrent⟩ := hexec
  have hactive : (run.after program n).Active := by
    rw [hrun']
    exact nofun
  have hkept := fresh.thread?_of_quiet hlt hactive hnew hquiet
  refine ⟨⟨m', s', left', hrun', hcurrent, ?_⟩, hkept.trans hnew.symm⟩
  rw [hrun', thread?, if_pos hcurrent.symm] at hkept
  rw [Option.some.inj hkept]

theorem spawner_of_executesAt (fresh : run.Fresh) {i start count : Nat}
    (hexec : (run.after program i).ExecutesAt t start)
    (hspawn : program.at? start = some (.spawn count)) (hlt : i < n) :
    ¬ (run.after program n).ExecutesAt t (start + 1) ∧
      ((run.after program n).ExecutesAt t (start + 2) →
        ∃ j < i, run.StartedAt program t j start) := by
  have hi : (run.after program i).Executes t := by
    obtain ⟨m, s, left, hrun, hcurrent, -⟩ := hexec
    exact ⟨m, s, left, hrun, hcurrent⟩
  refine ⟨fun h => (calls_of_executesAt plans hkeeps hspawn h).2.2 i hlt hi, fun h => ?_⟩
  obtain ⟨-, ⟨j, -, start', heq, hstarted⟩, -⟩ :=
    ends_of_executesAt plans hkeeps fresh h (plans.spawn _ _ hspawn).stop
  obtain rfl := Nat.add_right_cancel heq
  -- The thread was there when it started the other one.
  refine ⟨j, Nat.not_le.1 fun hle => ?_, hstarted⟩
  obtain ⟨_, _, -, -, hstarts⟩ := hstarted
  exact not_executes (fresh.new_of_starts hstarts hle) hi

end Law

/-- New threads of compiled code keep to the code that stands behind the instruction that starts them,
however the threads take turns. -/
theorem keepsSpawned {source : Module} {program : Program} (hcompile : source.compile = .ok program)
    (hsize : program.code.size < 2 ^ 32) {config : Config} {m : Machine}
    (hcreate : Machine.create config standardBuiltins = .ok m) :
    KeepsSpawned program (begin m (.create config.maxQuantum config.seed)) := by
  obtain ⟨plan, plans, -⟩ := source.exists_plan hcompile
  have fresh := fresh_begin hcreate
  have hkeeps := keeps_after hcreate plans hsize
  have wellFormed := wellFormed hcreate plans hsize
  refine {
    spawns := fun n m s left count hrun hspawn => ⟨(plans.spawn _ _ hspawn).call,
      (plans.spawn _ _ hspawn).stop, spawns_of_running plans hkeeps fresh hrun hspawn⟩
    started := fun n t => fresh.started_of_starts
    begins := fun i n t start => begins_of_startedAt plans hkeeps fresh
    calls := fun n t start count => calls_of_executesAt plans hkeeps
    ends := fun n t pc => ends_of_executesAt plans hkeeps fresh
    outside := fun n t r => outside_of_calls plans hkeeps
    spawner := fun i n t start count => spawner_of_executesAt plans hkeeps fresh
    inside := fun n t pc hexec => ?_
    halt := fun n t pc hexec hhalt => ?_
    finished := wellFormed.finished }
  · obtain ⟨_, σ, -, -, hσ, -⟩ := has_of_executesAt (hkeeps n) hexec
    obtain ⟨i, hi, -⟩ := plans.follows _ σ hσ
    exact (Array.getElem?_eq_some_iff.1 hi).1
  · obtain ⟨k, s, left, hrun, rfl, rfl⟩ := hexec
    exact (wellFormed.halt n k s left hrun hhalt).1

/-- The main thread has another one print and waits for ever. -/
def printing : Module :=
  ⟨[.spawn (.call (.name "println") [.null]), .expr (.receive (.newChannel 0))]⟩

/-- The second thread makes its call in step eight, and it has executed nothing before. -/
theorem keepsSpawned_printing : ∃ program m, printing.compile = .ok program ∧
    Machine.create { heapWords := 200, seed := 7 } standardBuiltins = .ok m ∧
      ((begin m (.create 15 7)).after program 8).ExecutesAt 1 3 ∧
      (∃ i < 8, (begin m (.create 15 7)).StartedAt program 1 i 2) ∧
      ∀ j < 8, ¬ ((begin m (.create 15 7)).after program j).Executes 1 := by
  obtain ⟨m, hcreate, heq⟩ := exists_sample
  have hcompile : printing.compile = .ok ⟨#[.load ⟨0, 0⟩, .constant .null, .spawn 1, .call 1,
    .endThread, .pop, .newChannel 0, .receive, .halt]⟩ := rfl
  generalize hprogram : Program.mk _ = program at hcompile
  have hexec : (sample.after program 8).ExecutesAt 1 (2 + 1) := by
    subst hprogram
    decide +kernel
  have hsize : program.code.size < 2 ^ 32 := by
    subst hprogram
    decide
  have hspawn : program.at? 2 = some (.spawn 1) := by
    subst hprogram
    rfl
  rw [heq] at hexec
  have hcalls := (keepsSpawned hcompile hsize hcreate).calls 8 1 2 1 hspawn hexec
  exact ⟨program, m, hcompile, hcreate, hexec, hcalls.2⟩

end Run

end ChannelMachine

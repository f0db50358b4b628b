import ChannelMachine.Proofs.Run.Collection
import ChannelMachine.Proofs.Run.Threads
import ChannelMachine.Proofs.Run.Typing

/-!
# Runs of a single thread

Where no instruction starts a thread, the scheduler has nothing to decide: the main thread is the only
one.  At the end of a quantum no other thread is ready, there is no thread to be woken, and when the main
thread waits nobody is left (`Lone`).  So the lengths of the quanta do not count: two runs whose
schedulers differ in nothing else go through the same machines, step by step (`Alike`).
-/

namespace ChannelMachine

/-- No instruction of the program starts a thread. -/
def Program.Solitary (program : Program) : Prop := ∀ n, Instruction.spawn n ∉ program.code

theorem Program.Solitary.at?_ne {program : Program} (solitary : program.Solitary) (pc n : Nat) :
    program.at? pc ≠ some (.spawn n) := fun h => solitary n (Array.mem_of_getElem? h)

/-- If no thread is blocked, an instruction that starts no thread leaves none to be made ready. -/
theorem Roster.runnable_eq_nil {program : Program} {m k : Machine} {s : Scheduler} {p : Progress}
    {d : Option Deal} (roster : Roster m s none) (acts : m.Acts program k p d)
    (hblocked : s.blocked = []) (notSpawn : ∀ n, program.at? m.registers.pc ≠ some (.spawn n)) :
    k.runnable = [] := by
  have hqueue : ∀ place, m.queue place = [] := fun place =>
    List.eq_nil_iff_forall_not_mem.2 fun t ht => by
      have hin := roster.blocked_of_mem ht
      rw [hblocked] at hin
      cases hin
  have hrunnable := roster.runnable
  cases acts with
  | apart _ _ _ _ apart => exact apart.runnable.trans hrunnable
  | started instr => exact absurd instr (notSpawn _)
  | madeChannel _ _ _ _ _ _ _ requeues => simpa [hrunnable] using requeues.runnable
  | sent _ _ _ _ _ _ _ _ requeues => simpa [hrunnable, hqueue] using requeues.runnable
  | full _ _ _ _ _ _ _ requeues => simpa [hrunnable] using requeues.runnable
  | received _ _ _ _ _ _ _ requeues => simpa [hrunnable, hqueue] using requeues.runnable
  | empty _ _ _ _ _ _ _ requeues => simpa [hrunnable] using requeues.runnable
  | madeGroup _ _ _ _ _ _ _ requeues => simpa [hrunnable] using requeues.runnable
  | counted _ _ _ _ _ _ requeues =>
    split at requeues
    next => simpa [hrunnable, hqueue] using requeues.runnable
    next => simpa [hrunnable] using requeues.runnable
  | waits _ _ _ _ _ _ _ requeues => simpa [hrunnable] using requeues.runnable

/-- Both schedulers know the same threads.  The quanta that they draw may differ. -/
structure Scheduler.Alike (s s' : Scheduler) : Prop where
  /-- The threads that may run. -/
  ready : s.ready = s'.ready
  /-- The threads that wait. -/
  blocked : s.blocked = s'.blocked
  /-- The thread that runs. -/
  running : s.running = s'.running

namespace Scheduler.Alike

variable {s s' s'' : Scheduler}

theorem refl (s : Scheduler) : s.Alike s := ⟨rfl, rfl, rfl⟩

theorem symm (alike : s.Alike s') : s'.Alike s :=
  ⟨alike.ready.symm, alike.blocked.symm, alike.running.symm⟩

theorem trans (alike : s.Alike s') (alike' : s'.Alike s'') : s.Alike s'' :=
  ⟨alike.ready.trans alike'.ready, alike.blocked.trans alike'.blocked,
    alike.running.trans alike'.running⟩

theorem draw (s : Scheduler) : s.draw.2.Alike s :=
  ⟨s.draw_snd.1, s.draw_snd.2.1, s.draw_snd.2.2⟩

theorem makeReady (alike : s.Alike s') (t : ThreadId) : (s.makeReady t).Alike (s'.makeReady t) := by
  unfold Scheduler.makeReady
  rw [← alike.ready, ← alike.running]
  split
  next => exact alike
  next => exact ⟨rfl, congrArg (List.filter _) alike.blocked, rfl⟩

theorem block (alike : s.Alike s') : s.block.Alike s'.block := by
  unfold Scheduler.block
  rw [← alike.running]
  cases s.running with
  | none => exact alike
  | some t => exact ⟨alike.ready, congrArg (List.insert t) alike.blocked, rfl⟩

theorem kill (alike : s.Alike s') : s.kill.Alike s'.kill := ⟨alike.ready, alike.blocked, rfl⟩

/-- Both choose the same thread, or neither finds one, for the same reason. -/
theorem next (alike : s.Alike s') : (∃ fault, s.next = .error fault ∧ s'.next = .error fault) ∨
    ∃ t k k', s.next = .ok (t, k) ∧ s'.next = .ok (t, k') ∧ k.Alike k' := by
  unfold Scheduler.next
  rw [← alike.ready, ← alike.blocked]
  cases s.ready with
  | nil => exact .inl ⟨_, rfl, rfl⟩
  | cons t rest => exact .inr ⟨t, _, _, rfl, rfl, ⟨rfl, rfl, rfl⟩⟩

end Scheduler.Alike

namespace Run

/-! ## Lone threads -/

/-- There is one thread at most, and if it waits no other one can run. -/
def Lone : Run → Prop
  | running _ s _ => s.ready = [] ∧ s.blocked = []
  | idle _ s => s.ready = [] ∨ (∃ t, s.ready = [t]) ∧ s.blocked = []
  | ended _ _ => True

/-- The two runs are in the same state, but for the quanta. -/
inductive Alike : Run → Run → Prop where
  /-- The same thread is about to execute an instruction. -/
  | running {m : Machine} {s s' : Scheduler} {left left' : Nat} (alike : s.Alike s') :
      Alike (running m s left) (running m s' left')
  /-- A thread is about to be chosen. -/
  | idle {m : Machine} {s s' : Scheduler} (alike : s.Alike s') : Alike (idle m s) (idle m s')
  /-- Both runs are over. -/
  | ended {m : Machine} {ending : Ending} : Alike (ended m ending) (ended m ending)

section Steps

variable {program : Program} {m k : Machine} {s s' : Scheduler} {left left' : Nat} {p : Progress}

theorem lone_dispatch (lone : (idle m s).Lone) : (dispatch m s).Lone := by
  unfold dispatch
  split
  next => trivial
  next t rest hnext =>
    obtain ⟨hready, hblocked, -⟩ := Scheduler.of_next hnext
    have hnone : rest.ready = [] ∧ rest.blocked = [] := by
      rcases lone with hnil | ⟨⟨u, hone⟩, hnil⟩
      · rw [hnil] at hready
        cases hready
      · rw [hone, List.cons.injEq] at hready
        exact ⟨hready.2.symm, hblocked.trans hnil⟩
    dsimp only
    split
    next => trivial
    next =>
      have drawn := Scheduler.Alike.draw rest
      exact ⟨drawn.ready.trans hnone.1, drawn.blocked.trans hnone.2⟩

theorem alike_dispatch (alike : s.Alike s') : Alike (dispatch m s) (dispatch m s') := by
  rcases alike.next with ⟨fault, hnext, hnext'⟩ | ⟨t, rest, rest', hnext, hnext', alike'⟩
  · simp only [dispatch, hnext, hnext']
    exact .ended
  · have hevent : rest'.switchEvent t = rest.switchEvent t := by
      rw [Scheduler.switchEvent, Scheduler.switchEvent, alike'.ready, alike'.blocked]
    simp only [dispatch, hnext, hnext', hevent]
    cases (m.note (rest.switchEvent t)).resume t with
    | none => exact .ended
    | some m => exact .running ((Scheduler.Alike.draw rest).trans (alike'.trans (.symm (.draw rest'))))

/-- If no other thread is ready, a thread that goes on keeps running, however much of its quantum is
left. -/
theorem proceed_advanced (hready : s.ready = []) (left : Nat) :
    ∃ after left', proceed m s left .advanced = running m after left' ∧ after.Alike s := by
  rw [proceed]
  split
  next =>
    rw [Scheduler.hasReady, hready]
    exact ⟨_, _, rfl, .draw s⟩
  next => exact ⟨_, _, rfl, .refl s⟩

theorem lone_proceed (hready : s.ready = []) (hblocked : s.blocked = []) :
    (proceed m s left p).Lone := by
  cases p with
  | advanced =>
    obtain ⟨after, left', heq, alike⟩ := proceed_advanced (m := m) hready left
    rw [heq]
    exact ⟨alike.ready.trans hready, alike.blocked.trans hblocked⟩
  | blocked =>
    refine .inl ?_
    unfold Scheduler.block
    split <;> exact hready
  | exited => exact .inl hready
  | finished => trivial
  | spinning => exact ⟨hready, hblocked⟩

theorem alike_proceed (alike : s.Alike s') (hready : s.ready = []) :
    Alike (proceed m s left p) (proceed m s' left' p) := by
  cases p with
  | advanced =>
    obtain ⟨after, _, heq, same⟩ := proceed_advanced (m := m) hready left
    obtain ⟨after', _, heq', same'⟩ :=
      proceed_advanced (m := m) (alike.ready.symm.trans hready) left'
    rw [heq, heq']
    exact .running (same.trans (alike.trans same'.symm))
  | blocked =>
    rw [proceed, proceed, Scheduler.blockEvent?, Scheduler.blockEvent?, alike.running]
    exact .idle alike.block
  | exited =>
    rw [proceed, proceed, Scheduler.exitEvent?, Scheduler.exitEvent?, alike.running]
    exact .idle alike.kill
  | finished value => exact .ended
  | spinning => exact .running alike

/-- An instruction after which no thread has to be made ready. -/
theorem tick_of_ok (hstep : m.step program = .ok p k) (hrunnable : k.runnable = []) :
    tick program m s left = proceed k s left p := by
  have heq : { k with runnable := [] } = k := by rw [← hrunnable]
  rw [tick, hstep]
  dsimp only
  rw [heq, hrunnable]
  rfl

end Steps

/-! ## Runs -/

section Whole

variable {program : Program} {run run' : Run} {n : Nat}

/-- No instruction of a lone thread leaves a thread to be made ready. -/
theorem Rostered.runnable_eq_nil {m k : Machine} {s : Scheduler} {left : Nat} {p : Progress}
    (rostered : (running m s left).Rostered) (sound : (running m s left).Sound)
    (solitary : program.Solitary) (lone : (running m s left).Lone)
    (hstep : m.step program = .ok p k) : k.runnable = [] :=
  have hm : m.Sound := sound
  rostered.1.runnable_eq_nil ((hm.does_step program).of_ok hstep) lone.2
    (solitary.at?_ne m.registers.pc)

/-- A step leaves the main thread alone, and the quanta do not count. -/
theorem Alike.step (alike : run.Alike run') (rostered : run.Rostered) (sound : run.Sound)
    (solitary : program.Solitary) (lone : run.Lone) :
    (run.next program).Lone ∧ (run.next program).Alike (run'.next program) := by
  cases alike with
  | ended => exact ⟨trivial, .ended⟩
  | idle alike => exact ⟨lone_dispatch lone, alike_dispatch alike⟩
  | @running m s s' left left' alike =>
    cases hstep : m.step program with
    | error fault k =>
      rw [next, next, tick, tick, hstep]
      exact ⟨trivial, .ended⟩
    | ok p k =>
      have hrunnable := rostered.runnable_eq_nil sound solitary lone hstep
      rw [next, next, tick_of_ok hstep hrunnable, tick_of_ok hstep hrunnable]
      exact ⟨lone_proceed lone.1 lone.2, alike_proceed alike lone.1⟩

/-- The main thread stays alone, and the quanta do not count. -/
theorem Fresh.alike_after (fresh : run.Fresh) (solitary : program.Solitary) (lone : run.Lone)
    (alike : run.Alike run') (n : Nat) :
    (run.after program n).Lone ∧ (run.after program n).Alike (run'.after program n) := by
  induction n with
  | zero => exact ⟨lone, alike⟩
  | succ n ih =>
    exact ih.2.step (fresh.rostered_after program n) (fresh.sound_after program n) solitary ih.1

/-- Where the main thread waits, the run ends. -/
theorem Fresh.deadlock_of_blocked {m k : Machine} {s : Scheduler} {left : Nat} (fresh : run.Fresh)
    (solitary : program.Solitary) (lone : (run.after program n).Lone)
    (hrun : run.after program n = running m s left) (hstep : m.step program = .ok .blocked k) :
    ∃ l, run.after program (n + 2) = ended l (.failed .deadlock) := by
  have rostered := fresh.rostered_after program n
  have sound := fresh.sound_after program n
  rw [hrun] at rostered sound lone
  have hrunnable := rostered.runnable_eq_nil sound solitary lone hstep
  have hidle : run.after program (n + 1) = idle (noteAll k.suspend s.blockEvent?) s.block := by
    rw [after_succ_of_running hrun, tick_of_ok hstep hrunnable, proceed]
  have hnext : s.block.next = .error .deadlock := by
    rw [Scheduler.block, rostered.2, Scheduler.next, lone.1, lone.2]
    rfl
  refine ⟨(noteAll k.suspend s.blockEvent?).note (.stopped .deadlock), ?_⟩
  rw [after, hidle, Run.next, dispatch, hnext]
  rfl

theorem go_eq_status (program : Program) (n : Nat) :
    ∀ run : Run, run.go program n = (run.after program n).status := by
  induction n with
  | zero =>
    intro run
    cases run <;> rfl
  | succ n ih =>
    intro run
    rw [go_succ, ih, after_next]

theorem Alike.status (alike : run.Alike run') : run.status = run'.status := by
  cases alike <;> rfl

/-- The thread that is about to execute an instruction, and where this stands. -/
def position? : Run → Option (ThreadId × Nat)
  | running m _ _ => some (m.current, m.registers.pc)
  | idle _ _ | ended _ _ => none

theorem Alike.position? (alike : run.Alike run') : run.position? = run'.position? := by
  cases alike <;> rfl

/-- The instructions that are executed in the first `n` steps: which thread executes them, and where they
stand. -/
def executed (program : Program) (run : Run) (n : Nat) : List (ThreadId × Nat) :=
  (List.range n).filterMap fun i => (run.after program i).position?

/-! ## The law -/

/-- Two runs that come to the same. -/
structure ComesToTheSame (program : Program) (run run' : Run) : Prop where
  /-- They execute the same instructions in the same order. -/
  executed : ∀ n, run.executed program n = run'.executed program n
  /-- They go through the same machines and end alike, if they end. -/
  go : ∀ n, run.go program n = run'.go program n
  /-- If a thread waits, both end in a deadlock. -/
  deadlock : ∀ n m s left k, run.after program n = running m s left →
    m.step program = .ok .blocked k →
    ∃ l, run.after program (n + 2) = ended l (.failed .deadlock) ∧
      run'.after program (n + 2) = ended l (.failed .deadlock)

theorem Fresh.comesToTheSame (fresh : run.Fresh) (solitary : program.Solitary) (lone : run.Lone)
    (alike : run.Alike run') : ComesToTheSame program run run' where
  executed n := by
    unfold Run.executed
    congr 1
    funext i
    exact (fresh.alike_after solitary lone alike i).2.position?
  go n := by
    rw [go_eq_status, go_eq_status]
    exact (fresh.alike_after solitary lone alike n).2.status
  deadlock := by
    intro n m s left k hrun hstep
    obtain ⟨lone', -⟩ := fresh.alike_after solitary lone alike n
    obtain ⟨l, hended⟩ := fresh.deadlock_of_blocked solitary lone' hrun hstep
    obtain ⟨-, alike'⟩ := fresh.alike_after solitary lone alike (n + 2)
    rw [hended] at alike'
    refine ⟨l, hended, ?_⟩
    generalize run'.after program (n + 2) = last at alike'
    cases alike'
    rfl

end Whole

theorem lone_begin (m : Machine) (maxQuantum : Nat) (seed : UInt64) :
    (begin m (.create maxQuantum seed)).Lone := .inr ⟨⟨m.current, rfl⟩, rfl⟩

theorem alike_begin (m : Machine) (maxQuantum maxQuantum' : Nat) (seed seed' : UInt64) :
    (begin m (.create maxQuantum seed)).Alike (begin m (.create maxQuantum' seed')) := by
  have alike : (Scheduler.create maxQuantum seed).Alike (.create maxQuantum' seed') := ⟨rfl, rfl, rfl⟩
  exact .idle (alike.makeReady m.current)

end Run

namespace Session

/-- The session with other quanta. -/
def rescheduled (s : Session) (maxQuantum : Nat) (seed : UInt64) : Session :=
  { s with config := { s.config with maxQuantum, seed } }

/-- What it means that the quanta of a session do not count. -/
structure IgnoresQuanta (program : Program) (s s' : Session) : Prop where
  /-- The machine is the same, or it cannot be built for the same reason. -/
  create : Machine.create s.config standardBuiltins = Machine.create s'.config standardBuiltins
  /-- The runs come to the same. -/
  runs : ∀ m, Machine.create s.config standardBuiltins = .ok m → Run.ComesToTheSame program
    (.begin m (.create s.config.maxQuantum s.config.seed))
    (.begin m (.create s'.config.maxQuantum s'.config.seed))
  /-- The host is told the same value or fault, and the same events. -/
  report : ∀ n, (s.run program n).1 = (s'.run program n).1
  /-- The output is the same. -/
  output : ∀ n, (s.run program n).2.output = (s'.run program n).2.output
  /-- The counts of the heap are the same. -/
  stats : ∀ n, (s.run program n).2.stats = (s'.run program n).2.stats

theorem create_rescheduled (s : Session) (maxQuantum : Nat) (seed : UInt64) :
    Machine.create s.config standardBuiltins =
      Machine.create (s.rescheduled maxQuantum seed).config standardBuiltins := rfl

/-- A program that starts no thread does not depend on the quanta. -/
theorem ignoresQuanta {program : Program} (solitary : program.Solitary) (s : Session)
    (maxQuantum : Nat) (seed : UInt64) :
    IgnoresQuanta program s (s.rescheduled maxQuantum seed) := by
  have hruns : ∀ m, Machine.create s.config standardBuiltins = .ok m → Run.ComesToTheSame program
      (.begin m (.create s.config.maxQuantum s.config.seed)) (.begin m (.create maxQuantum seed)) :=
    fun m hcreate => (Run.fresh_begin hcreate).comesToTheSame solitary (Run.lone_begin ..)
      (Run.alike_begin ..)
  have hsame : ∀ n, (s.run program n).1 = ((s.rescheduled maxQuantum seed).run program n).1 ∧
      (s.run program n).2.output = ((s.rescheduled maxQuantum seed).run program n).2.output ∧
      (s.run program n).2.stats = ((s.rescheduled maxQuantum seed).run program n).2.stats := by
    intro n
    have hcreate' := s.create_rescheduled maxQuantum seed
    cases hcreate : Machine.create s.config standardBuiltins with
    | error failure =>
      rw [run_of_error hcreate, run_of_error (hcreate'.symm.trans hcreate)]
      exact ⟨rfl, rfl, rfl⟩
    | ok m =>
      have hgo := (hruns m hcreate).go n
      rw [run_of_ok hcreate hgo, run_of_ok (hcreate'.symm.trans hcreate) rfl]
      exact ⟨rfl, rfl, rfl⟩
  exact ⟨s.create_rescheduled maxQuantum seed, hruns, fun n => (hsame n).1, fun n => (hsame n).2.1,
    fun n => (hsame n).2.2⟩

/-- The main thread sends to an unbuffered channel from which nobody receives. -/
def unanswered : Program := ⟨#[.newChannel 0, .constant .null, .send, .halt]⟩

/-- It ends in a deadlock, also with quanta of one instruction. -/
theorem ignoresQuanta_unanswered : unanswered.Solitary ∧
    (∃ m, Machine.create { heapWords := 200, seed := 7 } standardBuiltins = .ok m ∧
      ((Run.begin m (.create 15 7)).after unanswered 5).status.2 = .failed .deadlock) ∧
    IgnoresQuanta unanswered { config := { heapWords := 200, seed := 7 } }
      { config := { heapWords := 200, maxQuantum := 1, seed := 99 } } := by
  have solitary : unanswered.Solitary := by simp [Program.Solitary, unanswered]
  obtain ⟨m, hcreate, heq⟩ := Run.exists_sample
  have hended : (Run.sample.after unanswered 5).status.2 = .failed .deadlock := by decide +kernel
  exact ⟨solitary, ⟨m, hcreate, heq ▸ hended⟩, ignoresQuanta solitary _ 1 99⟩

end Session

end ChannelMachine

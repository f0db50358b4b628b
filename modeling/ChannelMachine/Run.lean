import ChannelMachine.Machine.Step
import ChannelMachine.Scheduler

/-!
# Runs

A `Run` is a machine and a scheduler at work on a program.  `Run.next` takes it one step
further.  If a thread runs, that is one instruction and what follows from it: the threads it
started or woke become ready, and the running thread goes on, is preempted, waits, or comes to
its end.  If no thread runs, the scheduler chooses one and draws its quantum.

A thread is preempted only at the end of a quantum and only if another thread is ready;
otherwise it gets a fresh quantum.

A run need not end, so `Run.go` takes at most a given number of steps and says if they were not
enough.
-/

namespace ChannelMachine

/-- How a run ended. -/
inductive Ending where
  /-- A thread ended it with a value. -/
  | finished (value : Address)
  /-- A fault ended it. -/
  | failed (fault : Fault)
  /-- It did not end within the given number of steps. -/
  | unfinished
deriving DecidableEq, Repr

/-- The state of a run. -/
inductive Run where
  /-- A thread is about to execute an instruction.  Its registers are those of the machine, and
  `left` instructions are left in its quantum. -/
  | running (machine : Machine) (scheduler : Scheduler) (left : Nat)
  /-- No thread runs, and the scheduler is about to choose one. -/
  | idle (machine : Machine) (scheduler : Scheduler)
  /-- The run is over. -/
  | ended (machine : Machine) (ending : Ending)

namespace Run

/-- The state before the main thread is chosen for the first time. -/
def begin (m : Machine) (s : Scheduler) : Run :=
  let t := m.current
  .idle m.suspend (s.makeReady t)

/-- Ends a run with a fault. -/
def fail (m : Machine) (fault : Fault) : Run := .ended (m.note (.stopped fault)) (.failed fault)

/-- Gives the running thread a new quantum. -/
def renew (m : Machine) (s : Scheduler) : Run :=
  let drawn := s.draw
  .running m drawn.2 drawn.1

/-- Lets the next ready thread run for a new quantum. -/
def dispatch (m : Machine) (s : Scheduler) : Run :=
  match s.next with
  | .error fault => fail m fault
  | .ok (t, s) =>
      let m := m.note (s.switchEvent t)
      match m.resume t with
      | none => fail m .noThreads
      | some m => renew m s

/-- Reports an event if there is one. -/
def noteAll (m : Machine) : Option Event → Machine
  | some e => m.note e
  | none => m

/-- What follows an instruction of a quantum with `left` instructions left. -/
def proceed (m : Machine) (s : Scheduler) (left : Nat) : Progress → Run
  | .advanced =>
      match left - 1 with
      | 0 => if s.hasReady then .idle m.suspend s.suspend else renew m s
      | left + 1 => .running m s (left + 1)
  | .blocked => .idle (noteAll m.suspend s.blockEvent?) s.block
  | .exited => .idle (noteAll m.retire s.exitEvent?) s.kill
  | .finished value => .ended m (.finished value)
  | .spinning => .running m s left

/-- Executes one instruction of the running thread.  The threads that it started or woke
become ready. -/
def tick (program : Program) (m : Machine) (s : Scheduler) (left : Nat) : Run :=
  match m.step program with
  | .error fault m => fail m fault
  | .ok progress m =>
      let started := m.runnable
      proceed { m with runnable := [] } (started.foldl Scheduler.makeReady s) left progress

/-- One step of a run.  A run that is over stays as it is. -/
def next (program : Program) : Run → Run
  | .running m s left => tick program m s left
  | .idle m s => dispatch m s
  | .ended m ending => .ended m ending

/-- The machine of a run. -/
def machine : Run → Machine
  | .running m _ _ | .idle m _ | .ended m _ => m

/-- Takes at most `n` steps. -/
def go (program : Program) : Nat → Run → Machine × Ending
  | _, .ended m ending => (m, ending)
  | 0, run => (run.machine, .unfinished)
  | n + 1, run => go program n (run.next program)

theorem go_ended (program : Program) (m : Machine) (ending : Ending) :
    ∀ n, (ended m ending).go program n = (m, ending)
  | 0 => rfl
  | _ + 1 => rfl

theorem go_succ (program : Program) (run : Run) (n : Nat) :
    run.go program (n + 1) = (run.next program).go program n := by
  cases run with
  | running => rfl
  | idle => rfl
  | ended m ending => exact (go_ended program m ending n).symm

end Run

end ChannelMachine

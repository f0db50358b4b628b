import ChannelMachine.Event
import ChannelMachine.Random

/-!
# The scheduler

The scheduler decides which thread runs and for how long.  A thread is ready, running or
blocked.  Ready threads run in the order in which they became ready, for a number of
instructions that is drawn from the upper half of what is allowed.
-/

namespace ChannelMachine

/-- The state of the scheduler. -/
structure Scheduler where
  /-- The threads that may run, in order. -/
  ready : List ThreadId
  /-- The threads that wait. -/
  blocked : List ThreadId
  /-- The thread that runs. -/
  running : Option ThreadId
  /-- Where quanta are drawn from. -/
  random : Random
  /-- The most instructions of a quantum. -/
  maxQuantum : Nat
deriving DecidableEq, Repr, Inhabited

namespace Scheduler

/-- A scheduler without threads.  A quantum has at least one instruction. -/
def create (maxQuantum : Nat) (seed : UInt64) : Scheduler :=
  ⟨[], [], none, ⟨seed⟩, max maxQuantum 1⟩

/-- Draws how many instructions the next thread may run: at least half of the most, rounded
up. -/
def draw (s : Scheduler) : Nat × Scheduler :=
  let drawn := s.random.between ((s.maxQuantum + 1) / 2) s.maxQuantum
  (drawn.1, { s with random := drawn.2 })

/-- Queues a new thread, or a blocked one that may go on.  A thread that is ready or running
stays what it is. -/
def makeReady (s : Scheduler) (t : ThreadId) : Scheduler :=
  if s.running = some t ∨ t ∈ s.ready then s
  else { s with ready := s.ready ++ [t], blocked := s.blocked.filter (· ≠ t) }

/-- Whether some thread is ready. -/
def hasReady (s : Scheduler) : Bool := !s.ready.isEmpty

/-- Lets the first ready thread run.  If none is ready and some are blocked, no thread can ever
run again. -/
def next (s : Scheduler) : Except Fault (ThreadId × Scheduler) :=
  match s.ready with
  | t :: rest => .ok (t, { s with ready := rest, running := some t })
  | [] => .error (if s.blocked.isEmpty then .noThreads else .deadlock)

/-- The quantum of the running thread is over: it becomes the last ready one. -/
def suspend (s : Scheduler) : Scheduler :=
  match s.running with
  | some t => { s with running := none, ready := s.ready ++ [t] }
  | none => s

/-- The running thread waits. -/
def block (s : Scheduler) : Scheduler :=
  match s.running with
  | some t => { s with running := none, blocked := s.blocked.insert t }
  | none => s

/-- The running thread comes to its end. -/
def kill (s : Scheduler) : Scheduler := { s with running := none }

/-! ## Events -/

/-- What is reported when a thread was chosen to run. -/
def switchEvent (s : Scheduler) (t : ThreadId) : Event :=
  .switched t s.ready.length s.blocked.length

/-- What is reported when the running thread is about to wait. -/
def blockEvent? (s : Scheduler) : Option Event := s.running.map .blocked

/-- What is reported when the running thread is about to end. -/
def exitEvent? (s : Scheduler) : Option Event := s.running.map .exited

/-! ## Quanta -/

theorem le_draw (s : Scheduler) : (s.maxQuantum + 1) / 2 ≤ s.draw.1 := s.random.le_between ..

theorem draw_le {s : Scheduler} (h : 0 < s.maxQuantum) : s.draw.1 ≤ s.maxQuantum :=
  s.random.between_le (by omega)

/-! ## Tests

Thread one runs while thread two is ready. -/

section Tests

/-- Two threads, of which the first runs. -/
def pair : Scheduler := ⟨[2], [], some 1, ⟨7⟩, 15⟩

/-- At the end of its quantum the running thread queues behind the other one. -/
example : pair.suspend.ready = [2, 1] := by decide
/-- A thread that is ready is not queued again. -/
example : pair.makeReady 2 = pair := by decide
/-- A thread that waits can be made ready. -/
example : pair.block.makeReady 1 = pair.suspend := by decide
/-- A quantum is drawn from the upper half. -/
example : pair.draw.1 = 14 := by decide +kernel

end Tests

end Scheduler

end ChannelMachine

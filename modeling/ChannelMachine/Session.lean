import ChannelMachine.Heap.Boxing
import ChannelMachine.Run

/-!
# Sessions

A `Session` runs programs one after the other, each on a new machine.  What the last run printed
and the counts of its heap can be asked for afterwards.  A run whose machine cannot be built
leaves both as they were.
-/

namespace ChannelMachine

/-- What a run comes to for the host. -/
inductive Outcome where
  /-- It ended with a value. -/
  | finished (value : Value)
  /-- A fault ended it. -/
  | failed (fault : Fault)
  /-- It did not end within the given number of steps. -/
  | unfinished
deriving DecidableEq, Repr

namespace Outcome

/-- The text of an outcome. -/
def display : Outcome → String
  | finished value => value.display
  | failed fault => "error: " ++ fault.message
  | unfinished => "unfinished"

/-- The value of a run that ended with one. -/
def value? : Outcome → Option Value
  | finished value => some value
  | _ => none

end Outcome

/-- The outcome of a run that ended on a machine. -/
def Ending.outcome (m : Machine) : Ending → Outcome
  | .finished a => .finished (m.heap.unbox a)
  | .failed fault => .failed fault
  | .unfinished => .unfinished

/-- What a run reports. -/
structure Report where
  /-- What it came to. -/
  outcome : Outcome
  /-- The events of a traced run, oldest first. -/
  events : List Event

/-- A session between two runs. -/
structure Session where
  /-- How the next program is run. -/
  config : Config
  /-- What the last run printed, also if it ended in a fault. -/
  output : String := ""
  /-- The counts of the heap after the last run. -/
  stats : Option HeapStats := none
deriving Inhabited

/-- Runs a program for at most `n` steps. -/
def Session.run (s : Session) (program : Program) (n : Nat) : Report × Session :=
  match Machine.create s.config standardBuiltins with
  | .error failure => (⟨.failed failure.fault, failure.events⟩, s)
  | .ok m =>
      let scheduler := Scheduler.create s.config.maxQuantum s.config.seed
      let ended := (Run.begin m scheduler).go program n
      let m := ended.1
      (⟨ended.2.outcome m, m.journal.toList⟩,
        { s with output := m.output, stats := some m.heap.stats })

end ChannelMachine

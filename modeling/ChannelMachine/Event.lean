import ChannelMachine.Fault
import ChannelMachine.Heap.Arena
import ChannelMachine.Thread

/-!
# Events

What a traced run reports while it goes on.  `Event.line` is the line that is shown.
-/

namespace ChannelMachine

/-- Something that a trace shows. -/
inductive Event where
  /-- A collection, with the counts after it. -/
  | collected (stats : HeapStats)
  /-- A thread was started by another one. -/
  | spawned (thread parent : ThreadId)
  /-- A thread that waited may go on. -/
  | woken (thread : ThreadId)
  /-- A thread runs while others are ready or blocked. -/
  | switched (thread : ThreadId) (ready blocked : Nat)
  /-- The running thread waits. -/
  | blocked (thread : ThreadId)
  /-- The running thread came to its end. -/
  | exited (thread : ThreadId)
  /-- The run ended in a fault. -/
  | stopped (fault : Fault)
deriving DecidableEq, Repr

/-- The line of an event. -/
def Event.line : Event → String
  | collected stats => stats.line
  | spawned t parent => "[gvm] spawn " ++ threadName t ++ " from " ++ threadName parent
  | woken t => "[gvm] wake " ++ threadName t
  | switched t ready waiting =>
      "[gvm] switch to " ++ threadName t ++ " (" ++ toString ready ++ " ready, "
        ++ toString waiting ++ " blocked)"
  | blocked t => "[gvm] block " ++ threadName t
  | exited t => "[gvm] exit " ++ threadName t
  | stopped fault => "[gvm] stopped: " ++ fault.message

end ChannelMachine

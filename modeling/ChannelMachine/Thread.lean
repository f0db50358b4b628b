/-!
# Threads

A thread is known by its number.  The main thread has number zero, and no number is given out
twice.
-/

namespace ChannelMachine

/-- The number of a thread. -/
abbrev ThreadId := Nat

/-- The thread that a run starts with. -/
def mainThread : ThreadId := 0

/-- How a thread is named in traces. -/
def threadName (t : ThreadId) : String := "#" ++ toString t

end ChannelMachine

import ChannelMachine.Heap.Header
import ChannelMachine.Thread
import Std.Data.TreeMap

/-!
# Waiting threads

Threads that wait for a channel or a wait-group stand in queues, oldest first.  The queues are
kept by the address of the node, outside of the heap, so they outlive a node that is collected;
a new node at the same address starts with empty ones.
-/

namespace ChannelMachine

/-- What a thread waits for at a channel. -/
inductive Side where
  /-- For a value to receive. -/
  | reader
  /-- For room to send. -/
  | writer
  /-- For its value to be taken over. -/
  | sender
deriving DecidableEq, Repr

/-- The queues of one channel. -/
structure ChannelQueues where
  /-- Threads that wait for a value. -/
  readers : List ThreadId := []
  /-- Threads that wait for room. -/
  writers : List ThreadId := []
  /-- Threads whose value lies in the slot of an unbuffered channel. -/
  senders : List ThreadId := []
deriving DecidableEq, Repr, Inhabited

namespace ChannelQueues

/-- The queue of one side. -/
def queue (q : ChannelQueues) : Side → List ThreadId
  | .reader => q.readers
  | .writer => q.writers
  | .sender => q.senders

/-- Replaces the queue of one side. -/
def setQueue (q : ChannelQueues) (ts : List ThreadId) : Side → ChannelQueues
  | .reader => { q with readers := ts }
  | .writer => { q with writers := ts }
  | .sender => { q with senders := ts }

end ChannelQueues

/-- The threads that wait for channels. -/
structure ChannelWaiters where
  /-- The queues by the address of the channel. -/
  queues : Std.TreeMap Address ChannelQueues := ∅
deriving Inhabited

namespace ChannelWaiters

/-- The queues of a channel. -/
def get (w : ChannelWaiters) (a : Address) : ChannelQueues := w.queues[a]?.getD {}

/-- Forgets the threads that wait for a channel. -/
def reset (w : ChannelWaiters) (a : Address) : ChannelWaiters := ⟨w.queues.erase a⟩

/-- Lets a thread wait behind the others. -/
def enqueue (w : ChannelWaiters) (side : Side) (a : Address) (t : ThreadId) : ChannelWaiters :=
  let q := w.get a
  ⟨w.queues.insert a (q.setQueue (q.queue side ++ [t]) side)⟩

/-- Takes the thread that has waited longest. -/
def dequeue (w : ChannelWaiters) (side : Side) (a : Address) : Option ThreadId × ChannelWaiters :=
  let q := w.get a
  match q.queue side with
  | [] => (none, w)
  | t :: rest => (some t, ⟨w.queues.insert a (q.setQueue rest side)⟩)

/-- How many threads wait for a channel. -/
def count (w : ChannelWaiters) (a : Address) : Nat :=
  let q := w.get a
  q.readers.length + q.writers.length + q.senders.length

theorem get_reset_self (w : ChannelWaiters) (a : Address) : (w.reset a).get a = {} := by
  simp [reset, get]

theorem get_reset_of_ne (w : ChannelWaiters) {a b : Address} (hab : a ≠ b) :
    (w.reset a).get b = w.get b := by
  simp [reset, get, Std.TreeMap.getElem?_erase, hab]

theorem get_enqueue_self (w : ChannelWaiters) (side : Side) (a : Address) (t : ThreadId) :
    (w.enqueue side a t).get a = (w.get a).setQueue ((w.get a).queue side ++ [t]) side := by
  simp [enqueue, get]

theorem get_enqueue_of_ne (w : ChannelWaiters) (side : Side) {a b : Address} (t : ThreadId)
    (hab : a ≠ b) : (w.enqueue side a t).get b = w.get b := by
  simp [enqueue, get, Std.TreeMap.getElem?_insert, hab]

/-- The thread that is taken is the first of its queue. -/
theorem dequeue_fst (w : ChannelWaiters) (side : Side) (a : Address) :
    (w.dequeue side a).1 = ((w.get a).queue side).head? := by
  unfold dequeue
  cases h : (w.get a).queue side with
  | nil => simp only [h, List.head?_nil]
  | cons t rest => simp only [h, List.head?_cons]

end ChannelWaiters

/-- The threads that wait for wait-groups. -/
structure GroupWaiters where
  /-- The queues by the address of the wait-group. -/
  queues : Std.TreeMap Address (List ThreadId) := ∅
deriving Inhabited

namespace GroupWaiters

/-- The threads that wait for a wait-group, oldest first. -/
def get (w : GroupWaiters) (a : Address) : List ThreadId := w.queues[a]?.getD []

/-- Forgets the threads that wait for a wait-group. -/
def reset (w : GroupWaiters) (a : Address) : GroupWaiters := ⟨w.queues.erase a⟩

/-- Lets a thread wait behind the others. -/
def enqueue (w : GroupWaiters) (a : Address) (t : ThreadId) : GroupWaiters :=
  ⟨w.queues.insert a (w.get a ++ [t])⟩

/-- Takes all threads that wait. -/
def takeAll (w : GroupWaiters) (a : Address) : List ThreadId × GroupWaiters :=
  (w.get a, w.reset a)

theorem get_reset_self (w : GroupWaiters) (a : Address) : (w.reset a).get a = [] := by
  simp [reset, get]

theorem get_reset_of_ne (w : GroupWaiters) {a b : Address} (hab : a ≠ b) :
    (w.reset a).get b = w.get b := by
  simp [reset, get, Std.TreeMap.getElem?_erase, hab]

theorem get_enqueue_self (w : GroupWaiters) (a : Address) (t : ThreadId) :
    (w.enqueue a t).get a = w.get a ++ [t] := by
  simp [enqueue, get]

theorem get_enqueue_of_ne (w : GroupWaiters) {a b : Address} (t : ThreadId) (hab : a ≠ b) :
    (w.enqueue a t).get b = w.get b := by
  simp [enqueue, get, Std.TreeMap.getElem?_insert, hab]

end GroupWaiters

end ChannelMachine

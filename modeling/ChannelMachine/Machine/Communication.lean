import ChannelMachine.Heap.Channel
import ChannelMachine.Heap.WaitGroup
import ChannelMachine.Machine.Action

/-!
# Channels and wait-groups at work

A thread that cannot go on stands in a queue and stays at its instruction with all operands, so
it executes the instruction again once it is woken.  Being woken is no promise: another thread
may have been faster, and then it waits again at the end of the queue.

An unbuffered send is different.  It completes when its value lies in the slot, and the thread
waits behind the instruction until the value is taken.
-/

namespace ChannelMachine

/-- What an instruction means for the thread that executed it. -/
inductive Progress where
  /-- It goes on. -/
  | advanced
  /-- It waits in a queue. -/
  | blocked
  /-- It came to its end. -/
  | exited
  /-- It ended the run with a value. -/
  | finished (value : Address)
  /-- It never completes the instruction. -/
  | spinning
deriving DecidableEq, Repr

namespace Machine

/-! ## Channels -/

/-- Pushes a new channel. -/
def newChannel (capacity : Nat) : Action Unit := do
  let a ← onHeap (Heap.newChannel capacity)
  update fun m => { m with channels := m.channels.reset a }
  push a
  advance

/-- Refuses anything but a channel. -/
def needChannel (a : Address) : Action Unit := do
  let t ← readHeap (·.tag a)
  if t ≠ .channel then throw (.type (.notChannel t))

/-- The type of an element: both booleans have one. -/
def elementType (t : Tag) : Tag := if t = .true then .false else t

/-- Refuses a value whose type differs from that of the first value of a channel, and records
the type of the first one. -/
def checkElement (channel value : Address) : Action Unit := do
  let got := elementType (← readHeap (·.tag value))
  match ← readHeap (·.elementKind? channel) with
  | none => updateHeap (·.setElementKind channel got)
  | some expected => if expected ≠ got then throw (.channelItemType expected got)

/-- Lets the running thread wait at a channel. -/
def waitAt (side : Side) (channel : Address) : Action Unit := update fun m =>
  { m with channels := m.channels.enqueue side channel m.current }

/-- Wakes the thread that has waited longest at a channel, if there is one. -/
def wakeAt (side : Side) (channel : Address) : Action Unit := do
  let t? ← modifyGet fun m =>
    let (t?, channels) := m.channels.dequeue side channel
    (t?, { m with channels })
  match t? with
  | some t => wake t
  | none => pure ()

/-- Sends the operand on top to the channel below it. -/
def send : Action Progress := do
  let value ← peek 0
  let channel ← peek 1
  needChannel channel
  if (← get).typedChannels then checkElement channel value
  if ← readHeap (·.isFull channel) then
    waitAt .writer channel
    return .blocked
  updateHeap (·.channelPush channel value)
  replace 2 Heap.undefined
  advance
  wakeAt .reader channel
  if ← readHeap (·.isUnbuffered channel) then
    waitAt .sender channel
    return .blocked
  return .advanced

/-- Receives a value from the channel on top. -/
def receive : Action Progress := do
  let channel ← peek 0
  needChannel channel
  if ← readHeap (·.isEmpty channel) then
    waitAt .reader channel
    return .blocked
  let value ← readHeap (·.channelFront channel)
  updateHeap (·.channelPop channel)
  replace 1 value
  advance
  if ← readHeap (·.isUnbuffered channel) then wakeAt .sender channel
  wakeAt .writer channel
  return .advanced

/-! ## Wait-groups -/

/-- Pushes a new wait-group. -/
def newWaitGroup : Action Unit := do
  let a ← onHeap Heap.newWaitGroup
  update fun m => { m with groups := m.groups.reset a }
  push a
  advance

/-- Refuses anything but a wait-group. -/
def needWaitGroup (a : Address) : Action Unit := do
  let t ← readHeap (·.tag a)
  if t ≠ .waitGroup then throw (.type (.notWaitGroup t))

/-- Wakes threads in order. -/
def wakeAll : List ThreadId → Action Unit
  | [] => pure ()
  | t :: rest => do
      wake t
      wakeAll rest

/-- Adds to the counter of a wait-group.  At zero the waiting threads are woken. -/
def adjust (group : Address) (delta : Number) : Action Unit := do
  let waiting := (← get).groups.get group
  if Number.zero.less delta ∧ waiting ≠ [] then throw .waitGroupMisuse
  let count := (← readHeap (·.groupCount group)).add delta
  if count.less .zero then throw .negativeWaitGroup
  updateHeap (·.setGroupCount group count)
  if count.same .zero then
    update fun m => { m with groups := m.groups.reset group }
    wakeAll waiting

/-- Adds the operand on top to the wait-group below it. -/
def groupAdd : Action Unit := do
  let delta ← peek 0
  let group ← peek 1
  needWaitGroup group
  match ← readHeap (·.number? delta) with
  | none => throw (.type (.notNumber (← readHeap (·.tag delta))))
  | some x =>
      adjust group x
      replace 2 Heap.undefined
      advance

/-- Subtracts one from the wait-group on top. -/
def groupDone : Action Unit := do
  let group ← peek 0
  needWaitGroup group
  adjust group .minusOne
  replace 1 Heap.undefined
  advance

/-- Waits while the wait-group on top is above zero. -/
def groupWait : Action Progress := do
  let group ← peek 0
  needWaitGroup group
  if Number.zero.less (← readHeap (·.groupCount group)) then
    update fun m => { m with groups := m.groups.enqueue group m.current }
    return .blocked
  replace 1 Heap.undefined
  advance
  return .advanced

end Machine

end ChannelMachine

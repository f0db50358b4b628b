import ChannelMachine.Heap.Header
import ChannelMachine.Value

/-!
# Faults

A fault ends a run.  Each constructor is a cause, and `Fault.message` is its wording.
-/

namespace ChannelMachine

/-- The most values a channel buffers. -/
def maxCapacity : Nat := nodeSize - 4

/-- A value or a frame of the wrong kind. -/
inductive TypeFault where
  /-- A boolean was needed. -/
  | notBool (got : Tag)
  /-- A number was needed. -/
  | notNumber (got : Tag)
  /-- A text was needed. -/
  | notString (got : Tag)
  /-- A channel was needed. -/
  | notChannel (got : Tag)
  /-- A wait-group was needed. -/
  | notWaitGroup (got : Tag)
  /-- The innermost frame to return to is not that of a scope. -/
  | notBlockframe
  /-- An operation does not apply to two kinds. -/
  | badOperands (op : BinaryOp) (left right : Tag)
  /-- A value exists only in the machine. -/
  | unboxable (value : Value)
deriving DecidableEq, Repr

/-- A cause that ends a run. -/
inductive Fault where
  /-- A variable was read before it was assigned. -/
  | unassignedAccess
  /-- No node is free, and none could be freed. -/
  | heapExhausted
  /-- A node of no word, or of more than a node has. -/
  | nodeTooLarge (words : Nat)
  /-- Threads are left and all of them wait. -/
  | deadlock
  /-- There is no loop to leave. -/
  | outsideLoop
  /-- A wait-group would fall below zero. -/
  | negativeWaitGroup
  /-- A wait-group was raised while threads wait for it. -/
  | waitGroupMisuse
  /-- A channel would buffer more than it can. -/
  | channelCapacity (capacity : Nat)
  /-- A typed channel was sent a value of another type. -/
  | channelItemType (expected got : Tag)
  /-- A value or a frame of the wrong kind. -/
  | type (cause : TypeFault)
  /-- A function was called with a wrong number of arguments. -/
  | arity (expected got : Nat)
  /-- The operand stack is too short. -/
  | stackUnderflow
  /-- There is no frame to return to. -/
  | returnStackUnderflow
  /-- There is no variable at a position. -/
  | invalidPosition (position : Position)
  /-- A value that is no function was called. -/
  | notCallable (got : Tag)
  /-- A builtin that the machine does not have was called. -/
  | unknownBuiltin (slot : Nat)
  /-- No thread is left. -/
  | noThreads
deriving DecidableEq, Repr

/-- The wording of a type fault. -/
def TypeFault.message : TypeFault → String
  | notBool got => "Not a bool: " ++ got.name
  | notNumber got => "Not a number: " ++ got.name
  | notString got => "Not a string: " ++ got.name
  | notChannel got => "Not a channel: " ++ got.name
  | notWaitGroup got => "Not a WaitGroup: " ++ got.name
  | notBlockframe => "Scope exit without a matching block frame"
  | badOperands op left right =>
      "Invalid operands for " ++ op.symbol ++ ": " ++ left.name ++ " and " ++ right.name
  | unboxable value => "Value cannot be placed on the heap: " ++ value.display

/-- The wording of a fault. -/
def Fault.message : Fault → String
  | unassignedAccess => "access of unassigned variable"
  | heapExhausted => "heap memory exhausted"
  | nodeTooLarge words =>
      "node of " ++ toString words ++ " words exceeds the node size of " ++ toString nodeSize
  | deadlock => "all goroutines are asleep - deadlock!"
  | outsideLoop => "break or continue outside of a loop"
  | negativeWaitGroup => "sync: negative WaitGroup counter"
  | waitGroupMisuse => "sync: WaitGroup misuse: Add called concurrently with Wait"
  | channelCapacity capacity =>
      "channel capacity " ++ toString capacity ++ " exceeds the maximum of "
        ++ toString maxCapacity
  | channelItemType expected got =>
      "channel item type mismatch: expected " ++ expected.name ++ ", got " ++ got.name
  | type cause => cause.message
  | arity expected got =>
      "expected " ++ toString expected ++ " argument(s), got " ++ toString got
  | stackUnderflow => "operand stack underflow"
  | returnStackUnderflow => "return stack underflow"
  | invalidPosition p =>
      "invalid variable position (" ++ toString p.frame ++ ", " ++ toString p.slot ++ ")"
  | notCallable got => "not a function: " ++ got.name
  | unknownBuiltin slot => "unknown builtin #" ++ toString slot
  | noThreads => "no threads left to run"

end ChannelMachine

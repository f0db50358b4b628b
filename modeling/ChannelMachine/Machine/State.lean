import ChannelMachine.Code.Builtin
import ChannelMachine.Event
import ChannelMachine.Heap.Environment
import ChannelMachine.Waiting

/-!
# The machine

A `Machine` has one heap and many threads, of which one runs.  The running thread works on the
registers of the machine; those of the others are kept in the thread table.

A machine is built with its builtins: a frame with a node for each, and the global environment
with this frame.  All of it is permanent.
-/

namespace ChannelMachine

/-- How a program is run. -/
structure Config where
  /-- The words of the heap. -/
  heapWords : Nat := 1000000
  /-- The most instructions a thread runs while another one is ready. -/
  maxQuantum : Nat := 15
  /-- What the lengths of the quanta are drawn from. -/
  seed : UInt64
  /-- Whether a channel takes values of one type only. -/
  typedChannels : Bool := false
  /-- Whether events are reported. -/
  tracing : Bool := false
deriving Repr, Inhabited

/-- The registers of a thread. -/
structure Registers where
  /-- The operands, the top of the stack first. -/
  stack : List Address
  /-- The index of the next instruction. -/
  pc : Nat
  /-- The environment. -/
  environment : Address
  /-- The block and call frames to return to, the innermost first. -/
  frames : List Address
deriving DecidableEq, Repr, Inhabited

namespace Registers

/-- The registers of a thread that starts with the program. -/
def start (environment : Address) : Registers := ⟨[], 0, environment, []⟩

/-- The addresses that a thread uses: the operands from the lowest, the environment, and the frames
from the outermost. -/
def roots (r : Registers) : List Address :=
  r.stack.reverse ++ r.environment :: r.frames.reverse

end Registers

/-- A builtin of a machine: the name and the number of arguments under which it is known, and
what it does. -/
structure BuiltinEntry where
  /-- Its name. -/
  name : String
  /-- How many arguments a call passes. -/
  arity : Nat
  /-- What it does. -/
  action : Builtin
deriving DecidableEq, Repr, Inhabited

/-- The builtin under its own name. -/
def Builtin.entry (b : Builtin) : BuiltinEntry := ⟨b.name, b.arity, b⟩

/-- The builtins that the compiler counts on. -/
def standardBuiltins : List BuiltinEntry := Builtin.all.map Builtin.entry

/-- The suspended threads. -/
abbrev ThreadTable := Std.TreeMap ThreadId Registers

/-- A machine. -/
structure Machine where
  /-- The heap. -/
  heap : Heap
  /-- The registers of the running thread. -/
  registers : Registers
  /-- The running thread. -/
  current : ThreadId
  /-- The registers of the other threads. -/
  threads : ThreadTable
  /-- The number of the next thread. -/
  nextThread : ThreadId
  /-- The threads that wait for channels. -/
  channels : ChannelWaiters
  /-- The threads that wait for wait-groups. -/
  groups : GroupWaiters
  /-- The threads that the running instruction started or woke, in this order. -/
  runnable : List ThreadId
  /-- The builtins by slot. -/
  builtins : List BuiltinEntry
  /-- What has been printed. -/
  output : String
  /-- Whether a channel takes values of one type only. -/
  typedChannels : Bool
  /-- Whether events are reported. -/
  tracing : Bool
  /-- The reported events, oldest first. -/
  journal : Array Event
deriving Inhabited

/-- The addresses that the threads of a machine use. -/
def threadRoots (registers : Registers) (threads : ThreadTable) : List Address :=
  registers.roots ++ threads.toList.flatMap fun (_, r) => r.roots

namespace Machine

/-- The addresses that the threads of a machine use. -/
def roots (m : Machine) : List Address := threadRoots m.registers m.threads

/-- Reports an event. -/
def note (m : Machine) (e : Event) : Machine :=
  if m.tracing then { m with journal := m.journal.push e } else m

end Machine

/-! ## Building a machine -/

namespace Heap

/-- The nodes of the builtins from a slot on, each in its slot of the frame. -/
def newBuiltins (frame : Address) : List BuiltinEntry → Nat → Action Unit
  | [], _ => pure ()
  | _ :: rest, slot => do
      let a ← allocate .builtin 1 noRoots
      update fun h => (h.setPayload a (.ofNat slot)).setWord frame (slot + 1) a
      newBuiltins frame rest (slot + 1)

/-- The global environment. -/
def newGlobal (builtins : List BuiltinEntry) : Action Address := do
  let frame ← newFrame builtins.length noRoots
  let global ← holding frame do
    newBuiltins frame builtins 0
    let global ← allocate .environment 2 noRoots
    update (·.setWord global 1 frame)
    return global
  update sealAll
  return global

end Heap

/-- Why a machine was not built, and what was reported meanwhile. -/
structure BuildFailure where
  /-- The cause. -/
  fault : Fault
  /-- The reported events, oldest first. -/
  events : List Event

namespace Machine

/-- A machine before the first instruction. -/
def create (config : Config) (builtins : List BuiltinEntry) : Except BuildFailure Machine :=
  match Heap.create config.heapWords with
  | .error fault => .error ⟨fault, []⟩
  | .ok heap =>
      match Heap.newGlobal builtins { heap with tracing := config.tracing } with
      | .error fault heap => .error ⟨fault, heap.reports.map .collected⟩
      | .ok global heap =>
          .ok {
            heap := { heap with reports := [] }
            registers := .start global
            current := mainThread
            threads := ∅
            nextThread := mainThread + 1
            channels := {}
            groups := {}
            runnable := []
            builtins
            output := ""
            typedChannels := config.typedChannels
            tracing := config.tracing
            journal := (heap.reports.map Event.collected).toArray }

end Machine

end ChannelMachine

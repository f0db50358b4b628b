import ChannelMachine.Machine.State

/-!
# Actions of a machine

A `Machine.Action` works on a machine and may end in a fault; the machine it leaves behind
counts in either case.  Instructions are written as actions.  An instruction takes its operands
off the stack only after the nodes that it needs are there, so a collection in between still
sees them.
-/

namespace ChannelMachine.Machine

/-- A computation on a machine that may end in a fault. -/
abbrev Action (α : Type) := EStateM Fault Machine α

/-- Changes the machine. -/
def update (f : Machine → Machine) : Action Unit := modifyGet fun m => ((), f m)

/-- Looks something up in the heap. -/
def readHeap {α : Type} (f : Heap → α) : Action α := fun m =>
  let x := f m.heap
  .ok x m

/-- Changes the heap without allocating. -/
def updateHeap (f : Heap → Heap) : Action Unit := update fun m => { m with heap := f m.heap }

/-- Moves the reports of a heap to the end of a journal. -/
def absorb (heap : Heap) (journal : Array Event) : Heap × Array Event :=
  match heap.reports with
  | [] => (heap, journal)
  | reports => ({ heap with reports := [] }, journal ++ reports.map Event.collected)

/-- Runs an action on the heap, with the addresses that the threads use as roots. -/
def onHeap {α : Type} (action : Roots → Heap.Action α) : Action α :=
  fun ⟨heap, registers, current, threads, nextThread, channels, groups, runnable, builtins,
      output, typedChannels, tracing, journal⟩ =>
    match action (threadRoots registers threads) heap with
    | .ok x heap =>
        let (heap, journal) := absorb heap journal
        .ok x ⟨heap, registers, current, threads, nextThread, channels, groups, runnable,
          builtins, output, typedChannels, tracing, journal⟩
    | .error e heap =>
        let (heap, journal) := absorb heap journal
        .error e ⟨heap, registers, current, threads, nextThread, channels, groups, runnable,
          builtins, output, typedChannels, tracing, journal⟩

/-- Forces a collection. -/
def collect : Action Unit := onHeap fun roots => Heap.update (·.collect roots.get)

/-! ## Registers -/

/-- Reads the registers. -/
def registersNow : Action Registers := fun m =>
  let r := m.registers
  .ok r m

/-- Changes the registers. -/
def setRegisters (f : Registers → Registers) : Action Unit :=
  update fun m => { m with registers := f m.registers }

/-- Pushes an operand. -/
def push (a : Address) : Action Unit := setRegisters fun r => { r with stack := a :: r.stack }

/-- Pops an operand. -/
def pop : Action Address := do
  match (← registersNow).stack with
  | [] => throw .stackUnderflow
  | a :: rest =>
      setRegisters fun r => { r with stack := rest }
      return a

/-- The operand below `depth` others. -/
def peek (depth : Nat) : Action Address := do
  match (← registersNow).stack[depth]? with
  | some a => return a
  | none => throw .stackUnderflow

/-- Replaces the top `n` operands by one. -/
def replace (n : Nat) (a : Address) : Action Unit :=
  setRegisters fun r => { r with stack := a :: r.stack.drop n }

/-- Goes on at an index. -/
def goTo (pc : Nat) : Action Unit := setRegisters fun r => { r with pc }

/-- Goes on with the next instruction. -/
def advance : Action Unit := setRegisters fun r => { r with pc := r.pc + 1 }

/-! ## Threads -/

/-- Adds a thread, which may run once the instruction is over. -/
def start (registers : Registers) : Action Unit := update fun m =>
  let t := m.nextThread
  let parent := m.current
  { m with
    threads := m.threads.insert t registers
    nextThread := t + 1
    runnable := m.runnable ++ [t] }.note (.spawned t parent)

/-- Lets a thread that waited run once the instruction is over. -/
def wake (t : ThreadId) : Action Unit := update fun m =>
  { m with runnable := m.runnable ++ [t] }.note (.woken t)

/-- The registers while no thread runs. -/
def idle : Registers := .start Heap.undefined

/-- Puts the running thread into the thread table. -/
def suspend (m : Machine) : Machine :=
  { m with threads := m.threads.insert m.current m.registers, registers := idle }

/-- Drops the running thread. -/
def retire (m : Machine) : Machine := { m with registers := idle }

/-- Takes a thread out of the thread table and runs it. -/
def resume (m : Machine) (t : ThreadId) : Option Machine :=
  match m.threads[t]? with
  | none => none
  | some registers => some { m with threads := m.threads.erase t, registers, current := t }

end ChannelMachine.Machine

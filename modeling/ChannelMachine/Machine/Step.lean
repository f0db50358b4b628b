import ChannelMachine.Machine.Call
import ChannelMachine.Machine.Communication
import ChannelMachine.Machine.Operator
import ChannelMachine.Machine.Scope

/-!
# One instruction

`Machine.step` executes the instruction that the running thread is at.
-/

namespace ChannelMachine.Machine

/-- Pushes a literal. -/
def constant (l : Literal) : Action Unit := do
  let a ← match l with
    | .number x => onHeap (Heap.newNumber x)
    | .text s => onHeap (Heap.newString s)
    | .bool b => pure (Heap.boolean b)
    | .null => pure Heap.null
    | .undefined => pure Heap.undefined
  push a
  advance

/-- The value that ends the run: the operand on top, or `undefined`. -/
def halt : Action Progress := do
  return .finished ((← registersNow).stack.head?.getD Heap.undefined)

/-- Leaves the loop around the running instruction, to behind its end or for its next
round. -/
def leave (program : Program) (isBreak : Bool) : Action Progress := do
  match program.loopEndAfter (← registersNow).pc with
  | .found exit =>
      leaveLoop exit.closed (if isBreak then exit.marker + 1 else exit.next)
      return .advanced
  | .outside => throw .outsideLoop
  | .unfinished => return .spinning

/-- The thread goes on after an action. -/
def proceed (action : Action Unit) : Action Progress := do
  action
  return .advanced

/-- Closes a scope and goes on. -/
def closeScope : Action Unit := do
  exitScope
  advance

/-- Drops the operand on top. -/
def drop : Action Unit := do
  let _ ← pop
  advance

/-- Executes an instruction. -/
def execute (program : Program) : Instruction → Action Progress
  | .constant l => proceed (constant l)
  | .load p => proceed (load p)
  | .store p => proceed (store p)
  | .closure arity entry => proceed (closure arity entry)
  | .call n => proceed (call n false)
  | .tailCall n => proceed (call n true)
  | .ret => proceed ret
  | .enterScope n => proceed (enterScope n)
  | .exitScope => proceed closeScope
  | .pop => proceed drop
  | .unary op => proceed (unary op)
  | .binary op => proceed (binary op)
  | .jumpUnless target => proceed (jumpUnless target)
  | .jump target => proceed (goTo target)
  | .loopEnd _ => proceed advance
  | .breakLoop => leave program true
  | .continueLoop => leave program false
  | .spawn n => proceed (spawn n)
  | .endThread => return .exited
  | .newChannel capacity => proceed (newChannel capacity)
  | .send => send
  | .receive => receive
  | .newWaitGroup => proceed newWaitGroup
  | .groupAdd => proceed groupAdd
  | .groupDone => proceed groupDone
  | .groupWait => groupWait
  | .halt => halt

/-- Executes the next instruction of the running thread.  Past the end of the program the run
ends. -/
def step (program : Program) : Action Progress := do
  match program.at? (← registersNow).pc with
  | some i => execute program i
  | none => halt

end ChannelMachine.Machine

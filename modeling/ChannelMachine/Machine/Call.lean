import ChannelMachine.Machine.Builtins

/-!
# Functions, calls and threads

The function to call lies below its arguments on the stack.  All of them stay there until every
node that the call needs is allocated.

A tail call pushes no call frame.  It drops the block frames of the running function, so the
called one returns to the caller of that function.

An entry and an index to return to are kept in 32 bits.
-/

namespace ChannelMachine.Machine

/-- Pushes a function over the current environment. -/
def closure (arity entry : Nat) : Action Unit := do
  let environment := (← registersNow).environment
  let a ← onHeap fun roots => do
    let a ← Heap.allocate .closure 3 roots
    Heap.update fun h =>
      (h.setPayload a (.ofNat entry)).setWords a 1 [arity, environment]
    return a
  push a
  advance

/-- Returns to the nearest call frame. -/
def ret : Action Unit := do
  let frames := (← registersNow).frames
  match ← readHeap fun h => frames.dropWhile fun a => h.tag a ≠ .callframe with
  | [] =>
      setRegisters fun r => { r with frames := [] }
      throw .returnStackUnderflow
  | call :: rest =>
      let pc := (← readHeap (·.payload call)).toNat
      let environment ← readHeap (·.word call 1)
      setRegisters fun r => { r with frames := rest, pc, environment }

/-- The top `n` operands, the lowest first. -/
def argumentsNow (n : Nat) : Action (List Address) := do
  return ((← registersNow).stack.take n).reverse

/-- Calls a builtin. -/
def callBuiltin (slot n : Nat) (tail : Bool) : Action Unit := do
  match (← get).builtins[slot]? with
  | none => throw (.unknownBuiltin slot)
  | some entry =>
      if entry.arity ≠ n then throw (.arity entry.arity n)
      let result ← runBuiltin entry.action (← argumentsNow n)
      replace (n + 1) result
      if tail then ret else advance

/-- Calls a function of the program. -/
def callClosure (function : Address) (n : Nat) (tail : Bool) : Action Unit := do
  let arity ← readHeap (·.word function 1)
  if arity ≠ n then throw (.arity arity n)
  let entry := (← readHeap (·.payload function)).toNat
  let captured ← readHeap (·.word function 2)
  let arguments ← argumentsNow n
  if tail then
    let inside ← onHeap (Heap.newArguments captured arguments)
    let frames := (← registersNow).frames
    let frames ← readHeap fun h => frames.dropWhile fun a => h.tag a = .blockframe
    setRegisters fun r =>
      { r with stack := r.stack.drop (n + 1), frames, environment := inside, pc := entry }
  else
    let r ← registersNow
    let (call, inside) ← onHeap (Heap.newCall (r.pc + 1) r.environment captured arguments)
    setRegisters fun r =>
      { stack := r.stack.drop (n + 1), frames := call :: r.frames, environment := inside,
        pc := entry }

/-- Calls the function below its `n` arguments. -/
def call (n : Nat) (tail : Bool) : Action Unit := do
  let a ← peek n
  match ← readHeap (·.tag a) with
  | .builtin => callBuiltin (← readHeap (·.payload a)).toNat n tail
  | .closure => callClosure a n tail
  | t => throw (.notCallable t)

/-- Moves a function and its `n` arguments to a new thread that starts with the next
instruction.  The running thread goes on two instructions later, with `undefined` in their
place. -/
def spawn (n : Nat) : Action Unit := do
  let r ← registersNow
  if r.stack.length < n + 1 then throw .stackUnderflow
  start ⟨r.stack.take (n + 1), r.pc + 1, r.environment, []⟩
  replace (n + 1) Heap.undefined
  goTo (r.pc + 3)

end ChannelMachine.Machine

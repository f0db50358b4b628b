import ChannelMachine.Number

/-!
# Instructions

A program is an array of instructions, and jump targets are indices into it.  An index past the
end ends the run like `halt`.

Three groups of instructions belong together.  `closure` is followed by a `jump` over the body
of the function.  `spawn n` is followed by `call n` and `endThread`: the new thread starts at the
`call` and the spawning thread goes on behind the `endThread`.  A loop ends in `loopEnd`, which
`breakLoop` and `continueLoop` look for.
-/

namespace ChannelMachine

/-- The words of a heap node, its header included. -/
def nodeSize : Nat := 10

/-- The most variables of one scope, and the most frames of an environment. -/
def maxSlots : Nat := nodeSize - 1

/-- A constant of the program. -/
inductive Literal where
  /-- A number. -/
  | number (value : Number)
  /-- A boolean. -/
  | bool (value : Bool)
  /-- A text. -/
  | text (value : String)
  /-- The value `null`. -/
  | null
  /-- The value `undefined`. -/
  | undefined
deriving DecidableEq, Repr, Inhabited

/-- Where a variable is found: the frame within the environment, outermost first, and the slot
within the frame. -/
structure Position where
  /-- The index of the frame. -/
  frame : Nat
  /-- The index within the frame. -/
  slot : Nat
deriving DecidableEq, Repr, Inhabited

/-- An operation on one value. -/
inductive UnaryOp where
  /-- Negates a number. -/
  | neg
  /-- Negates a boolean. -/
  | not
deriving DecidableEq, Repr, Inhabited

/-- An operation on two values. -/
inductive BinaryOp where
  /-- Adds numbers and joins texts. -/
  | add
  /-- Subtracts. -/
  | sub
  /-- Multiplies. -/
  | mul
  /-- Divides. -/
  | div
  /-- The remainder of a division. -/
  | mod
  /-- Whether the first is less. -/
  | lt
  /-- Whether the first is not greater. -/
  | le
  /-- Whether the first is greater. -/
  | gt
  /-- Whether the first is not less. -/
  | ge
  /-- Whether both are the same value. -/
  | eq
  /-- Whether they are different values. -/
  | ne
deriving DecidableEq, Repr, Inhabited

/-- The sign of an operation. -/
def BinaryOp.symbol : BinaryOp → String
  | .add => "+"
  | .sub => "-"
  | .mul => "*"
  | .div => "/"
  | .mod => "%"
  | .lt => "<"
  | .le => "<="
  | .gt => ">"
  | .ge => ">="
  | .eq => "=="
  | .ne => "!="

/-- An instruction of the machine. -/
inductive Instruction where
  /-- Pushes a literal. -/
  | constant (literal : Literal)
  /-- Pushes the value of an assigned variable. -/
  | load (position : Position)
  /-- Assigns the value on top of the stack and leaves it there. -/
  | store (position : Position)
  /-- Pushes a function over the current environment. -/
  | closure (arity entry : Nat)
  /-- Calls the function below its arguments. -/
  | call (arguments : Nat)
  /-- Calls a function in place of the running one. -/
  | tailCall (arguments : Nat)
  /-- Returns to the nearest call frame. -/
  | ret
  /-- Opens a scope of unassigned variables. -/
  | enterScope (slots : Nat)
  /-- Closes the innermost scope. -/
  | exitScope
  /-- Drops the value on top of the stack. -/
  | pop
  /-- Applies an operation to one value. -/
  | unary (op : UnaryOp)
  /-- Applies an operation to two values. -/
  | binary (op : BinaryOp)
  /-- Pops a boolean and jumps if it is false. -/
  | jumpUnless (target : Nat)
  /-- Jumps. -/
  | jump (target : Nat)
  /-- Ends a loop whose next round starts at `next`.  Does nothing when it is executed. -/
  | loopEnd (next : Nat)
  /-- Leaves the enclosing loop. -/
  | breakLoop
  /-- Goes on with the next round of the enclosing loop. -/
  | continueLoop
  /-- Starts a thread that calls the function below its arguments. -/
  | spawn (arguments : Nat)
  /-- Ends the running thread. -/
  | endThread
  /-- Pushes a new channel; capacity zero makes it unbuffered. -/
  | newChannel (capacity : Nat)
  /-- Sends the value on top of the stack to the channel below it. -/
  | send
  /-- Receives a value from the channel on top of the stack. -/
  | receive
  /-- Pushes a new wait-group. -/
  | newWaitGroup
  /-- Adds the number on top of the stack to the wait-group below it. -/
  | groupAdd
  /-- Subtracts one from the wait-group on top of the stack. -/
  | groupDone
  /-- Waits until the wait-group on top of the stack is at zero. -/
  | groupWait
  /-- Ends the run with the value on top of the stack. -/
  | halt
deriving DecidableEq, Repr, Inhabited

/-- A program. -/
structure Program where
  /-- Its instructions. -/
  code : Array Instruction
deriving DecidableEq, Repr, Inhabited

/-- The instruction at an index. -/
def Program.at? (p : Program) (pc : Nat) : Option Instruction := p.code[pc]?

end ChannelMachine

import ChannelMachine.Machine.Action

/-!
# Variables, scopes and loops

`enterScope` pushes a block frame and extends the environment; `exitScope` goes back.

A loop is left by a search of the code that follows.  The loop ends at the first `loopEnd` that
is not inside a scope opened on the way, and each `exitScope` on the way that closes no such
scope closes one that the thread is in.  The bodies of functions are jumped over.  Since the
search takes jumps that the program may aim anywhere, it need not end.
-/

namespace ChannelMachine

/-- Where a loop ends, seen from inside. -/
structure LoopExit where
  /-- The index of its `loopEnd`. -/
  marker : Nat
  /-- Where the next round starts. -/
  next : Nat
  /-- How many scopes inside the loop are to be closed. -/
  closed : Nat
deriving DecidableEq, Repr

/-- The result of a search for the end of a loop. -/
inductive LoopSearch where
  /-- The loop ends here. -/
  | found (exit : LoopExit)
  /-- There is no loop around. -/
  | outside
  /-- The search did not end within its bound. -/
  | unfinished
deriving DecidableEq, Repr

namespace Program

/-- Looks for the end of a loop from an index on, `depth` scopes in and `closed` scopes out, in
at most `fuel` steps. -/
def findLoopEnd (p : Program) (fuel pc depth closed : Nat) : LoopSearch :=
  match fuel with
  | 0 => .unfinished
  | fuel + 1 =>
      match p.at? pc with
      | none | some .halt => .outside
      | some (.enterScope _) => p.findLoopEnd fuel (pc + 1) (depth + 1) closed
      | some .exitScope =>
          match depth with
          | 0 => p.findLoopEnd fuel (pc + 1) 0 (closed + 1)
          | depth + 1 => p.findLoopEnd fuel (pc + 1) depth closed
      | some (.closure ..) =>
          match p.at? (pc + 1) with
          | some (.jump target) => p.findLoopEnd fuel target depth closed
          | _ => p.findLoopEnd fuel (pc + 1) depth closed
      | some (.loopEnd next) =>
          match depth with
          | 0 => .found ⟨pc, next, closed⟩
          | _ + 1 => p.findLoopEnd fuel (pc + 1) depth closed
      | some _ => p.findLoopEnd fuel (pc + 1) depth closed

/-- A search that takes more steps never ends.  The indices it visits form a cycle after at
most as many steps as there are instructions.  A cycle that does not lower the depth finds
nothing in a later round that it does not find in the first; one that lowers it has done so for
good after as many rounds as there are instructions. -/
def searchBound (p : Program) : Nat := (p.code.size + 1) * (p.code.size + 3)

/-- The end of the loop around an index. -/
def loopEndAfter (p : Program) (pc : Nat) : LoopSearch :=
  p.findLoopEnd p.searchBound (pc + 1) 0 0

/-- A loop whose body opens a scope and breaks inside of it. -/
example : (Program.mk #[.enterScope 0, .enterScope 1, .breakLoop, .exitScope, .jump 1, .loopEnd 4,
    .exitScope]).loopEndAfter 2 = .found ⟨5, 4, 1⟩ := by
  decide +kernel
/-- A function whose body is jumped over backwards, so that the search runs in a circle. -/
example : (Program.mk #[.breakLoop, .closure 0 0, .jump 0]).loopEndAfter 0 = .unfinished := by
  decide +kernel

end Program

namespace Machine

/-! ## Variables -/

/-- Pushes the value of a variable. -/
def load (p : Position) : Action Unit := do
  let environment := (← registersNow).environment
  match ← readHeap fun h => h.lookup environment p with
  | .error fault => throw fault
  | .ok a =>
      if a = Heap.unassigned then throw .unassignedAccess
      push a
      advance

/-- Assigns the operand on top to a variable. -/
def store (p : Position) : Action Unit := do
  let a ← peek 0
  let environment := (← registersNow).environment
  onHeap fun _ => Heap.assign environment p a
  advance

/-! ## Scopes -/

/-- Opens a scope. -/
def enterScope (slots : Nat) : Action Unit := do
  let environment := (← registersNow).environment
  let (block, inside) ← onHeap (Heap.newScope environment slots)
  setRegisters fun r =>
    { r with frames := block :: r.frames, environment := inside, pc := r.pc + 1 }

/-- Closes the innermost scope. -/
def exitScope : Action Unit := do
  match (← registersNow).frames with
  | [] => throw .returnStackUnderflow
  | frame :: rest =>
      setRegisters fun r => { r with frames := rest }
      if (← readHeap (·.tag frame)) = .blockframe then
        let outside ← readHeap (·.word frame 1)
        setRegisters fun r => { r with environment := outside }
      else throw (.type .notBlockframe)

/-- Closes the innermost scopes. -/
def exitScopes : Nat → Action Unit
  | 0 => pure ()
  | n + 1 => do
      exitScope
      exitScopes n

/-- Closes the scopes inside a loop and goes on at an index. -/
def leaveLoop (closed target : Nat) : Action Unit := do
  exitScopes closed
  goTo target

/-! ## Jumps -/

/-- Pops a boolean and jumps if it is false. -/
def jumpUnless (target : Nat) : Action Unit := do
  let a ← pop
  match ← readHeap (·.bool? a) with
  | some true => advance
  | some false => goTo target
  | none => throw (.type (.notBool (← readHeap (·.tag a))))

end Machine

end ChannelMachine

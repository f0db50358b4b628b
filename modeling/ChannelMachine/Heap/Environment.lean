import ChannelMachine.Heap.Allocation

/-!
# Frames and environments

A frame holds the variables of one scope.  An environment lists the frames that a thread sees,
outermost first.  It is never changed: entering a scope copies it into one with a frame more,
so a function that keeps an environment sees the same frames for good, while the variables in
them are shared.
-/

namespace ChannelMachine.Heap

/-- A frame of unassigned variables. -/
def newFrame (slots : Nat) (roots : Roots) : Action Address := allocate .frame (slots + 1) roots

/-- The environment without frames. -/
def emptyEnvironment (roots : Roots) : Action Address := allocate .environment 1 roots

/-- How many frames an environment has. -/
def frameCount (h : Heap) (environment : Address) : Nat := h.size environment - 1

/-- The environment with one frame more.  Both have to be in use, or be held. -/
def extend (environment frame : Address) (roots : Roots) : Action Address := do
  let frames := (← get).frameCount environment
  let extended ← allocate .environment (frames + 2) roots
  update fun h =>
    (h.copyWords environment extended 1 frames).setWord extended (frames + 1) frame
  return extended

/-- The frame of a position and its word there, if there is such a variable. -/
def slotOf? (h : Heap) (environment : Address) (p : Position) : Option (Address × Nat) :=
  if p.frame < h.frameCount environment then
    let frame := h.word environment (p.frame + 1)
    if h.tag frame = .frame ∧ p.slot + 1 < h.size frame then some (frame, p.slot + 1) else none
  else none

/-- The value of a variable. -/
def lookup (h : Heap) (environment : Address) (p : Position) : Except Fault Address :=
  match h.slotOf? environment p with
  | some (frame, i) => .ok (h.word frame i)
  | none => .error (.invalidPosition p)

/-- Assigns a variable. -/
def assign (environment : Address) (p : Position) (value : Address) : Action Unit := fun h =>
  match h.slotOf? environment p with
  | some (frame, i) => .ok () (h.setWord frame i value)
  | none => .error (.invalidPosition p) h

/-! ## Scopes and calls -/

/-- The nodes of a new scope: its block frame and the environment inside. -/
def newScope (environment : Address) (slots : Nat) (roots : Roots) :
    Action (Address × Address) := do
  let block ← allocate .blockframe 2 roots
  update (·.setWord block 1 environment)
  holding block do
    let frame ← newFrame slots roots
    let inside ← holding frame (extend environment frame roots)
    return (block, inside)

/-- The environment of a call: the one the function keeps, and a frame of its arguments. -/
def newArguments (captured : Address) (arguments : List Address) (roots : Roots) :
    Action Address := do
  let frame ← newFrame arguments.length roots
  update (·.setWords frame 1 arguments)
  holding frame (extend captured frame roots)

/-- The nodes of a call: a call frame that resumes at an index in an environment, and the
environment of the function. -/
def newCall (resume : Nat) (environment captured : Address) (arguments : List Address)
    (roots : Roots) : Action (Address × Address) := do
  let call ← allocate .callframe 2 roots
  update fun h => (h.setPayload call (.ofNat resume)).setWord call 1 environment
  holding call do
    let inside ← newArguments captured arguments roots
    return (call, inside)

end ChannelMachine.Heap

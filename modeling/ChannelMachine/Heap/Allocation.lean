import ChannelMachine.Fault
import ChannelMachine.Heap.Collector

/-!
# Allocation

A `Heap.Action` works on a heap and may end in a fault; the heap it leaves behind counts in
either case.  `Heap.allocate` takes the first free node, after a collection if none is free.

Actions that may collect take the roots as a list that is only made when it is needed.
-/

namespace ChannelMachine

/-- The addresses that are in use outside of a heap. -/
abbrev Roots := Thunk (List Address)

/-- No address is in use outside of the heap. -/
def noRoots : Roots := ⟨fun _ => []⟩

namespace Heap

/-- A computation on a heap that may end in a fault. -/
abbrev Action (α : Type) := EStateM Fault Heap α

/-! ## A new heap -/

/-- The header of a node of a new heap of `count` nodes: the constants come first, then the free
nodes, each linked to the next. -/
def initialHeader (count index : Nat) : Header :=
  match constants[index]? with
  | some tag => .fresh tag 1
  | none => ⟨.free, 0, 0, if index + 1 < count then .ofNat (index + 1) else noNode⟩

/-- The words of a new heap of `count` nodes. -/
def initialWords (count : Nat) : Array Nat :=
  .ofFn fun i : Fin (nodeSize * count) =>
    if i.val % nodeSize = 0 then (initialHeader count (i.val / nodeSize)).pack else 0

/-- A heap of `words` words, rounded down to whole nodes.  The constants come first, and they
are permanent. -/
def create (words : Nat) : Except Fault Heap :=
  let count := min (words / nodeSize) noNode.toNat
  let first := constants.length
  if count < first then .error .heapExhausted
  else
    .ok {
      words := initialWords count
      free := if count = first then noNode else .ofNat first
      freeCount := count - first
      bottom := addressOf first
      strings := ∅
      texts := ∅
      nextText := 0
      building := []
      collections := 0
      lastFreed := 0
      tracing := false
      reports := [] }

/-! ## Nodes -/

/-- The heap after a collection if no node is free. -/
def refill (h : Heap) (roots : Roots) : Heap :=
  if h.free = noNode then h.collect roots.get else h

/-- Takes a node out of the list of free ones, where it is the first. -/
def unlink (h : Heap) (a : Address) : Heap :=
  { h with free := h.payload a, freeCount := h.freeCount - 1 }

/-- Makes a node one that is in use.  The words that it uses start out unassigned, so that a
collection finds no stale child among them, and the others stay as they were. -/
def renew (h : Heap) (a : Address) (tag : Tag) (size : Nat) : Heap :=
  (h.setHeader a (.fresh tag size)).setWords a 1 (.replicate (size - 1) unassigned)

/-- Takes the first free node into use. -/
def allocate (tag : Tag) (size : Nat) (roots : Roots) : Action Address := fun h =>
  if size = 0 ∨ nodeSize < size then .error (.nodeTooLarge size) h
  else
    let h := h.refill roots
    if h.free = noNode then .error .heapExhausted h
    else
      let a := addressOf h.free.toNat
      .ok a ((h.unlink a).renew a tag size)

/-- Runs an action while a node is being built, so that a collection keeps it. -/
def holding {α : Type} (a : Address) (action : Action α) : Action α := fun h =>
  let building := h.building
  match action { h with building := a :: building } with
  | .ok x h => .ok x { h with building }
  | .error e h => .error e { h with building }

/-- Changes the heap. -/
def update (f : Heap → Heap) : Action Unit := modifyGet fun h => ((), f h)

/-! ## Numbers and texts -/

/-- Writes a number into a number node.  Only for a node that no value shares. -/
def setNumber (h : Heap) (a : Address) (x : Number) : Heap := h.setWord a 1 x.bits.toNat

/-- A new number node. -/
def newNumber (x : Number) (roots : Roots) : Action Address := do
  let a ← allocate .number 2 roots
  update (·.setNumber a x)
  return a

/-- Makes a node the node of a new text. -/
def intern (a : Address) (text : String) (h : Heap) : Heap :=
  let h := h.setWord a 1 h.nextText
  { h with
    strings := h.strings.insert text a
    texts := h.texts.insert h.nextText text
    nextText := h.nextText + 1 }

/-- The node of a text: the one that has it, or a new one. -/
def newString (text : String) (roots : Roots) : Action Address := do
  match (← get).strings[text]? with
  | some a => return a
  | none =>
      let a ← allocate .string 2 roots
      update (·.intern a text)
      return a

end Heap

end ChannelMachine

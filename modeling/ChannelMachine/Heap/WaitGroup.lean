import ChannelMachine.Heap.Allocation

/-!
# Wait-groups

A wait-group counts work that is not done.  Its only child is a number node of its own, the
counter, which is written in place.
-/

namespace ChannelMachine.Heap

/-- A new wait-group at zero. -/
def newWaitGroup (roots : Roots) : Action Address := do
  let counter ← newNumber .zero roots
  let group ← holding counter (allocate .waitGroup 2 roots)
  update (·.setWord group 1 counter)
  return group

/-- The counter of a wait-group. -/
def groupCount (h : Heap) (group : Address) : Number := (h.number? (h.word group 1)).getD .zero

/-- Replaces the counter of a wait-group. -/
def setGroupCount (h : Heap) (group : Address) (count : Number) : Heap :=
  let counter := h.word group 1
  h.setNumber counter count

end ChannelMachine.Heap

import ChannelMachine.Heap.Arena

/-!
# The collector

A collection marks what can be reached and sweeps the rest.  It starts from the given roots,
the nodes being built and the permanent nodes; the latter are never swept, but what they point
to has to be kept.

`mark` follows the children of each header that it marks for the first time, so it ends: a
marked header costs no more than the words that a node can have in use, and an address on the
list one step.  The list is a stack, on which the last child comes first.  The order shows only
where an address is not that of a node: a mark in the middle of a node changes a word of it.

`sweep` runs down from the end of the arena, so the list of free nodes that it builds is in
ascending order.
-/

namespace ChannelMachine

/-- Whether a word is a marked header. -/
def Header.isMarked (w : Nat) : Bool := (unpack w).mark != 0

/-- A word as a marked header. -/
def Header.marked (w : Nat) : Nat :=
  let header := unpack w
  pack { header with mark := 1 }

theorem Header.isMarked_marked (w : Nat) : isMarked (marked w) = true := by
  rw [isMarked, marked, unpack_pack]
  rfl

namespace Heap

/-! ## Marking -/

/-- The children of a node.  An empty slot of a channel is none. -/
def children (words : Array Nat) (a : Address) : List Address :=
  let range := (Header.unpack (words.getD a 0)).childRange
  (words.extract (a + range.1) (a + range.2)).toList.filter (· ≠ vacant)

theorem length_children_le (words : Array Nat) (a : Address) :
    (children words a).length ≤ 0x10000 := by
  have hrange := Header.childRange_snd_le (Header.unpack (words.getD a 0))
  refine Nat.le_trans (List.length_filter_le ..) ?_
  rw [Array.length_toList, Array.size_extract]
  omega

/-- How many words are no marked headers. -/
def unmarkedCount (words : Array Nat) : Nat := words.countP fun w => !Header.isMarked w

theorem unmarkedCount_set (words : Array Nat) (a : Address) (ha : a < words.size)
    (hmark : Header.isMarked words[a] = false) :
    unmarkedCount (words.set a (Header.marked words[a]) ha) + 1 = unmarkedCount words := by
  have hpos : 0 < unmarkedCount words :=
    Array.countP_pos_iff.2 ⟨words[a], Array.getElem_mem ha, by simp [hmark]⟩
  simp only [unmarkedCount, Array.countP_set, hmark, Header.isMarked_marked] at hpos ⊢
  simp
  omega

/-- Marks every header that can be reached from the pending addresses through unmarked ones. -/
def mark (words : Array Nat) (pending : List Address) : Array Nat :=
  match pending with
  | [] => words
  | a :: rest =>
      if ha : a < words.size then
        if hmark : Header.isMarked words[a] = false then
          let pending := (children words a).reverse ++ rest
          mark (words.set a (Header.marked words[a])) pending
        else mark words rest
      else mark words rest
termination_by 0x10001 * unmarkedCount words + pending.length
decreasing_by
  · have hcount := unmarkedCount_set words a ha hmark
    have hchildren := length_children_le words a
    simp only [List.length_append, List.length_reverse, List.length_cons]
    omega
  · simp
  · simp

/-- Marking keeps the size of the arena. -/
theorem size_mark (words : Array Nat) (pending : List Address) :
    (mark words pending).size = words.size := by
  fun_induction mark words pending with
  | case1 => rfl
  | case2 words a rest ha hmark pending ih => exact ih.trans (Array.size_set ..)
  | case3 _ _ _ _ _ ih => exact ih
  | case4 _ _ _ _ ih => exact ih

/-! ## Sweeping -/

/-- Puts a node in front of the free ones.  Behind its header it stays as it is. -/
def release (h : Heap) (a : Address) : Heap :=
  let next := h.free
  { h with free := UInt32.ofNat (a / nodeSize), freeCount := h.freeCount + 1 }.setHeader a
    ⟨.free, 0, 0, next⟩

/-- Counts one node more that the running collection freed. -/
def countFreed (h : Heap) : Heap := { h with lastFreed := h.lastFreed + 1 }

/-- Frees an unmarked node: a string forgets its text, and a node that was in use is
counted. -/
def reclaim (h : Heap) (a : Address) : Heap :=
  match h.tag a with
  | .free => h.release a
  | .string => ((h.evict a).countFreed).release a
  | _ => h.countFreed.release a

/-- Sweeps one node: clears its mark, or frees it if it is neither marked nor permanent. -/
def sweepNode (h : Heap) (a : Address) : Heap :=
  let header := h.header a
  if h.isPermanent a || header.mark != 0 then h.setHeader a { header with mark := 0 }
  else h.reclaim a

/-- Sweeps the first `n` nodes of the arena, the last of them first. -/
def sweep (h : Heap) : Nat → Heap
  | 0 => h
  | n + 1 => (h.sweepNode (addressOf n)).sweep n

/-! ## Collecting -/

/-- The permanent nodes that are in use. -/
def permanentRoots (h : Heap) : List Address :=
  ((List.range (h.bottom / nodeSize)).map addressOf).filter fun a => h.tag a ≠ .free

/-- Frees every node that cannot be reached from the roots, the nodes being built and the
permanent nodes.  The last of them all is followed first. -/
def collect (h : Heap) (roots : List Address) : Heap :=
  let pending := h.permanentRoots.reverse ++ h.building ++ roots.reverse
  let h := { h with words := mark h.words pending, free := noNode, freeCount := 0, lastFreed := 0 }
  let h := h.sweep h.nodeCount
  let h := { h with collections := h.collections + 1 }
  if h.tracing then { h with reports := h.reports ++ [h.stats] } else h

end Heap

end ChannelMachine

import ChannelMachine.Heap.Allocation

/-!
# Channels

A channel buffers values in a ring of slots.  Behind its header it has the number of slots, the
index of the slot that is written next and the index of the one that is read next; the slots
follow, and an empty one holds `vacant`.  The ring is full if the next slot to write is taken,
and empty if the next slot to read is vacant.

An unbuffered channel has one slot, through which a value is handed over.  The payload says
whether a channel is unbuffered, and the kind of its elements once that is recorded.
-/

namespace ChannelMachine

/-- The words of a channel in front of the slots. -/
def ringStart : Nat := 4

/-- The code that stands for no element kind. -/
def noKind : Nat := 255

/-- The payload of a channel: the lowest bit says that it is unbuffered, and the second byte is
the code of the element kind. -/
def channelPayload (unbuffered : Bool) (kind : Nat) : UInt32 :=
  UInt32.ofNat (256 * kind + if unbuffered then 1 else 0)

namespace Heap

/-- A new channel.  Capacity zero makes it unbuffered. -/
def newChannel (capacity : Nat) (roots : Roots) : Action Address := do
  if maxCapacity < capacity then throw (.channelCapacity capacity)
  let slots := max capacity 1
  let a ← allocate .channel (ringStart + slots) roots
  update fun h =>
    (h.setPayload a (channelPayload (capacity == 0) noKind)).setWords a 1
      (slots :: 0 :: 0 :: .replicate slots vacant)
  return a

/-- How many slots a channel has. -/
def channelSlots (h : Heap) (a : Address) : Nat := h.word a 1

/-- The slot of a channel that is written next. -/
def writeSlot (h : Heap) (a : Address) : Nat := h.word a 2

/-- The slot of a channel that is read next. -/
def readSlot (h : Heap) (a : Address) : Nat := h.word a 3

/-- The value in a slot of a channel, or `vacant`. -/
def channelSlot (h : Heap) (a : Address) (i : Nat) : Nat := h.word a (ringStart + i)

/-- Whether a channel is unbuffered. -/
def isUnbuffered (h : Heap) (a : Address) : Bool := (h.payload a).toNat % 2 == 1

/-- Whether a channel takes no further value. -/
def isFull (h : Heap) (a : Address) : Bool := h.channelSlot a (h.writeSlot a) != vacant

/-- Whether a channel has no value to give. -/
def isEmpty (h : Heap) (a : Address) : Bool := h.channelSlot a (h.readSlot a) == vacant

/-- How many values a channel buffers. -/
def channelLength (h : Heap) (a : Address) : Nat :=
  let slots := h.words.extract (a + ringStart) (a + ringStart + h.channelSlots a)
  slots.countP (· != vacant)

/-- Puts a value into a channel that is not full. -/
def channelPush (h : Heap) (a value : Address) : Heap :=
  let i := h.writeSlot a
  let next := (i + 1) % h.channelSlots a
  (h.setWord a (ringStart + i) value).setWord a 2 next

/-- The oldest value in a channel that is not empty. -/
def channelFront (h : Heap) (a : Address) : Address := h.channelSlot a (h.readSlot a)

/-- Takes the oldest value out of a channel that is not empty. -/
def channelPop (h : Heap) (a : Address) : Heap :=
  let i := h.readSlot a
  let next := (i + 1) % h.channelSlots a
  (h.setWord a (ringStart + i) vacant).setWord a 3 next

/-- The recorded element kind of a channel. -/
def elementKind? (h : Heap) (a : Address) : Option Tag :=
  let code := (h.payload a).toNat / 256 % 256
  if code = noKind then none else Tag.ofCode? code

/-- Records the element kind of a channel. -/
def setElementKind (h : Heap) (a : Address) (kind : Tag) : Heap :=
  let unbuffered := h.isUnbuffered a
  h.setPayload a (channelPayload unbuffered kind.code)

end Heap

end ChannelMachine

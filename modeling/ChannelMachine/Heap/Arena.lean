import ChannelMachine.Heap.Header
import Std.Data.TreeMap

/-!
# The arena

A `Heap` is an array of words with the bookkeeping of the allocator and the collector: the list
of free nodes, the permanent region at the start that is never swept, the texts of the string
nodes, and the nodes that are being built.  The free nodes are linked through their payloads.

A text is interned: `strings` finds the node of a text and `texts` the text of a node through
the number in its second word.

Nothing here asks whether an address is that of a node: a header can be read off any word, and
the words that follow count as words of the node, also behind its end.  Behind the end of the
arena every word is zero, and writing there changes nothing.
-/

namespace ChannelMachine

/-- The counts that a heap reports. -/
structure HeapStats where
  /-- All nodes of the arena. -/
  total : Nat
  /-- The free ones. -/
  free : Nat
  /-- The ones in the permanent region. -/
  permanent : Nat
  /-- The collections so far. -/
  collections : Nat
  /-- The nodes that the last collection freed. -/
  lastFreed : Nat
deriving DecidableEq, Repr, Inhabited

/-- The trace line of a collection, from the counts after it. -/
def HeapStats.line (s : HeapStats) : String :=
  "gc #" ++ toString s.collections ++ ": freed " ++ toString s.lastFreed ++ " nodes, "
    ++ toString s.free ++ " of " ++ toString s.total ++ " free"

/-- The payload of the last free node. -/
def noNode : UInt32 := 0xffffffff

/-- The heap of a machine. -/
structure Heap where
  /-- The words of the arena. -/
  words : Array Nat
  /-- The index of the first free node, or `noNode`. -/
  free : UInt32
  /-- How many nodes are free. -/
  freeCount : Nat
  /-- The first address that is not permanent. -/
  bottom : Address
  /-- The node of each interned text. -/
  strings : Std.TreeMap String Address
  /-- The text of each text number. -/
  texts : Std.TreeMap Nat String
  /-- The next text number. -/
  nextText : Nat
  /-- Nodes that are linked to nothing yet, the newest first; the collector keeps them. -/
  building : List Address
  /-- The collections so far. -/
  collections : Nat
  /-- The nodes that the last collection freed. -/
  lastFreed : Nat
  /-- Whether collections are reported. -/
  tracing : Bool
  /-- The counts after each reported collection, oldest first. -/
  reports : List HeapStats
deriving Inhabited

/-- The address of the node at an index of the arena. -/
def addressOf (index : Nat) : Address := nodeSize * index

namespace Heap

/-! ## The permanent constants -/

/-- The kinds of the first nodes of every heap. -/
def constants : List Tag := [.false, .true, .null, .unassigned, .undefined]

/-- The node of a boolean. -/
def boolean (b : Bool) : Address := addressOf (if b then 1 else 0)

/-- The node of `null`. -/
def null : Address := addressOf 2

/-- The node that an unassigned variable holds. -/
def unassigned : Address := addressOf 3

/-- The node of `undefined`. -/
def undefined : Address := addressOf 4

/-! ## Words -/

/-- A word of the node at an address; the header is word zero. -/
def word (h : Heap) (a : Address) (i : Nat) : Nat := h.words.getD (a + i) 0

/-- Replaces a word of the node at an address. -/
def setWord (h : Heap) (a : Address) (i w : Nat) : Heap :=
  { h with words := h.words.setIfInBounds (a + i) w }

theorem size_words_setWord (h : Heap) (a : Address) (i w : Nat) :
    (h.setWord a i w).words.size = h.words.size := Array.size_setIfInBounds

theorem word_setWord_self {h : Heap} {a : Address} {i : Nat} (hi : a + i < h.words.size)
    (w : Nat) : (h.setWord a i w).word a i = w := by
  simp [setWord, word, hi]

theorem word_setWord_of_ne (h : Heap) {a b : Address} {i j : Nat} (hne : a + i ≠ b + j)
    (w : Nat) : (h.setWord a i w).word b j = h.word b j := by
  simp [setWord, word, Array.getD_eq_getD_getElem?, hne]

/-- Replaces words of a node, from the given one on, by those of a list. -/
def setWords (h : Heap) (a : Address) (i : Nat) : List Nat → Heap
  | [] => h
  | w :: rest => (h.setWord a i w).setWords a (i + 1) rest

/-- Copies `n` words of a node to the same place in another one, the first one first. -/
def copyWords (h : Heap) (source target : Address) (i : Nat) : Nat → Heap
  | 0 => h
  | n + 1 =>
      let w := h.word source i
      (h.setWord target i w).copyWords source target (i + 1) n

/-! ## Headers -/

/-- The header of a node. -/
def header (h : Heap) (a : Address) : Header := .unpack (h.word a 0)

/-- Replaces the header of a node. -/
def setHeader (h : Heap) (a : Address) (header : Header) : Heap := h.setWord a 0 header.pack

theorem header_setHeader_self {h : Heap} {a : Address} (ha : a < h.words.size)
    (header : Header) : (h.setHeader a header).header a = header := by
  rw [Heap.header, setHeader, word_setWord_self ha, Header.unpack_pack]

/-- The kind of a node. -/
def tag (h : Heap) (a : Address) : Tag := (h.header a).tag

/-- The words of a node that are in use. -/
def size (h : Heap) (a : Address) : Nat := (h.header a).size.toNat

/-- The payload of a node. -/
def payload (h : Heap) (a : Address) : UInt32 := (h.header a).payload

/-- Replaces the payload of a node. -/
def setPayload (h : Heap) (a : Address) (payload : UInt32) : Heap :=
  let header := h.header a
  h.setHeader a { header with payload }

/-- Whether a node is in the permanent region. -/
def isPermanent (h : Heap) (a : Address) : Bool := a < h.bottom

/-- How many nodes the arena has. -/
def nodeCount (h : Heap) : Nat := h.words.size / nodeSize

/-- The counts of a heap. -/
def stats (h : Heap) : HeapStats :=
  ⟨h.nodeCount, h.freeCount, h.bottom / nodeSize, h.collections, h.lastFreed⟩

/-! ## Numbers, booleans and texts -/

/-- The number of a number node. -/
def number? (h : Heap) (a : Address) : Option Number :=
  if h.tag a = .number then some ⟨UInt64.ofNat (h.word a 1)⟩ else none

/-- The boolean of a boolean node. -/
def bool? (h : Heap) (a : Address) : Option Bool :=
  match h.tag a with
  | .true => some true
  | .false => some false
  | _ => none

/-- The text of a string node. -/
def text? (h : Heap) (a : Address) : Option String :=
  if h.tag a = .string then h.texts[h.word a 1]? else none

/-- How many texts are interned. -/
def stringCount (h : Heap) : Nat := h.strings.size

/-- Forgets the text of a string node. -/
def evict (h : Heap) (a : Address) : Heap :=
  let number := h.word a 1
  match h.texts[number]? with
  | none => h
  | some text =>
      { h with
        texts := h.texts.erase number
        strings := if h.strings[text]? = some a then h.strings.erase text else h.strings }

/-- Makes everything permanent up to the first free node. -/
def sealAll (h : Heap) : Heap :=
  { h with bottom := if h.free = noNode then h.words.size else addressOf h.free.toNat }

end Heap

end ChannelMachine

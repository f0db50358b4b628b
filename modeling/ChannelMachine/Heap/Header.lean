import ChannelMachine.Code.Instruction

/-!
# Headers

The heap is an arena of words, and a node is a block of `nodeSize` words.  The first word is its
header: the kind of node, the mark of the collector, how many words are in use, and a payload of
32 bits.  What the other words hold depends on the kind, and so does the payload:

* free: the payload is the index of the next free node
* number: its bits
* string: the number of its text
* closure: how many arguments it takes, and its environment; the payload is its entry
* frame: its variables
* environment: its frames, outermost first
* block frame: the environment to return to
* call frame: the same, and the payload is the index to return to
* builtin: nothing; the payload is its slot
* channel: see `Heap.Channel`
* wait-group: the node of its counter

`Header.pack` and `Header.unpack` are the two directions between a header and its word.  Every
word can be unpacked, since a kind that is not known counts as free.
-/

namespace ChannelMachine

/-- The index of a word, mostly of the header of a node. -/
abbrev Address := Nat

/-- The kind of a node. -/
inductive Tag where
  /-- A node that is not in use. -/
  | free
  /-- The boolean `false`. -/
  | false
  /-- The boolean `true`. -/
  | true
  /-- The value `null`. -/
  | null
  /-- What a variable holds before it is assigned. -/
  | unassigned
  /-- The value `undefined`. -/
  | undefined
  /-- A number. -/
  | number
  /-- A text. -/
  | string
  /-- A function of the program. -/
  | closure
  /-- The variables of a scope. -/
  | frame
  /-- The frames a thread sees. -/
  | environment
  /-- What a scope returns to. -/
  | blockframe
  /-- What a call returns to. -/
  | callframe
  /-- A builtin function. -/
  | builtin
  /-- A channel. -/
  | channel
  /-- A wait-group. -/
  | waitGroup
deriving DecidableEq, Repr, Inhabited

namespace Tag

/-- The name of a kind in messages. -/
def name : Tag → String
  | .free => "free"
  | .false | .true => "bool"
  | .null => "null"
  | .unassigned => "unassigned"
  | .undefined => "undefined"
  | .number => "number"
  | .string => "string"
  | .closure => "closure"
  | .frame => "frame"
  | .environment => "environment"
  | .blockframe => "blockframe"
  | .callframe => "callframe"
  | .builtin => "builtin"
  | .channel => "channel"
  | .waitGroup => "waitgroup"

/-- All kinds, in the order of their codes. -/
def all : Array Tag :=
  #[.free, .false, .true, .null, .unassigned, .undefined, .number, .string, .closure, .frame,
    .environment, .blockframe, .callframe, .builtin, .channel, .waitGroup]

/-- The code of a kind. -/
def code : Tag → Nat
  | .free => 0
  | .false => 1
  | .true => 2
  | .null => 3
  | .unassigned => 4
  | .undefined => 5
  | .number => 6
  | .string => 7
  | .closure => 8
  | .frame => 9
  | .environment => 10
  | .blockframe => 11
  | .callframe => 12
  | .builtin => 13
  | .channel => 14
  | .waitGroup => 15

/-- The kind of a code. -/
def ofCode? (n : Nat) : Option Tag := all[n]?

/-- The kind of a code, or `free` if there is none. -/
def ofCode (n : Nat) : Tag := all.getD n .free

theorem ofCode?_code (t : Tag) : ofCode? t.code = some t := by cases t <;> rfl

theorem ofCode_code (t : Tag) : ofCode t.code = t := by cases t <;> rfl

theorem code_lt (t : Tag) : t.code < 256 := by cases t <;> decide

end Tag

/-- The first word of a node. -/
structure Header where
  /-- The kind of node. -/
  tag : Tag
  /-- Not zero if a running collection has reached the node. -/
  mark : UInt8
  /-- The words in use, the header included. -/
  size : UInt16
  /-- The payload. -/
  payload : UInt32
deriving DecidableEq, Repr, Inhabited

namespace Header

/-- The word of a header: the code of the kind lowest, then mark, size and payload. -/
def pack (h : Header) : Nat :=
  h.tag.code + 0x100 * h.mark.toNat + 0x10000 * h.size.toNat + 0x100000000 * h.payload.toNat

/-- The header of a word. -/
@[inline]
def unpack (w : Nat) : Header :=
  ⟨.ofCode (w % 0x100), .ofNat (w / 0x100), .ofNat (w / 0x10000), .ofNat (w / 0x100000000)⟩

theorem unpack_pack (h : Header) : unpack h.pack = h := by
  have htag := h.tag.code_lt
  have hmark := h.mark.toNat_lt
  have hsize := h.size.toNat_lt
  have hpayload := h.payload.toNat_lt
  have h1 : h.pack % 0x100 = h.tag.code := by rw [pack]; omega
  have h2 : h.pack / 0x100 % 2 ^ 8 = h.mark.toNat := by rw [pack]; omega
  have h3 : h.pack / 0x10000 % 2 ^ 16 = h.size.toNat := by rw [pack]; omega
  have h4 : h.pack / 0x100000000 % 2 ^ 32 = h.payload.toNat := by rw [pack]; omega
  rw [unpack, h1, Tag.ofCode_code]
  congr 1
  · exact UInt8.toNat.inj (by rw [UInt8.toNat_ofNat', h2])
  · exact UInt16.toNat.inj (by rw [UInt16.toNat_ofNat', h3])
  · exact UInt32.toNat.inj (by rw [UInt32.toNat_ofNat', h4])

/-- The header of a node that was just taken into use. -/
def fresh (tag : Tag) (size : Nat) : Header := ⟨tag, 0, .ofNat size, 0⟩

/-- The words of a node that are children: from the first number up to the second, which is
excluded. -/
def childRange (h : Header) : Nat × Nat :=
  match h.tag with
  | .closure => (2, 3)
  | .blockframe | .callframe | .waitGroup => (1, 2)
  | .frame | .environment => (1, h.size.toNat)
  | .channel => (4, h.size.toNat)
  | _ => (0, 0)

theorem childRange_snd_le (h : Header) : h.childRange.2 ≤ 0x10000 := by
  have hsize := h.size.toNat_lt
  unfold childRange
  split <;> omega

end Header

/-- What an empty slot of a channel holds.  No node has this address. -/
def vacant : Nat := 0xffffffffffffffff

end ChannelMachine

import ChannelMachine.Heap.Channel
import ChannelMachine.Proofs.Heap.Marking

/-!
# Sound heaps

`Heap.Sound` is what every heap satisfies between two instructions, and also between the steps of
an instruction that builds several nodes.  It has four parts.

* `Intact`: the arena consists of whole nodes without marks, the permanent region is in use, and
  the free nodes are linked in ascending order.
* `Interned`: each string node has a text, and each text has one node.
* `Typed`: the children of a node in use are nodes in use of a kind that its own kind admits, and
  the indices of a channel are those of slots.
* the nodes that are being built are in use.

`Live h roots a` are the addresses that a collection keeps.
-/

namespace ChannelMachine

/-- Whether a node of this kind is a value of the program. -/
def Tag.isValue : Tag → Bool
  | .free | .frame | .environment | .blockframe | .callframe => Bool.false
  | _ => Bool.true

/-- Which kinds of children a kind of node has. -/
def Tag.Admits : Tag → Tag → Prop
  | .closure, t | .blockframe, t | .callframe, t => t = .environment
  | .environment, t => t = .frame
  | .frame, t | .channel, t => t.isValue = Bool.true
  | .waitGroup, t => t = .number
  | _, _ => False

namespace Heap

/-! ## Nodes in use -/

/-- An address of a node that is in use. -/
structure InUse (h : Heap) (a : Nat) : Prop extends IsBlock h a where
  /-- The node is not free. -/
  tag_ne : h.tag a ≠ .free

theorem InUse.of_tag {h : Heap} {a : Address} {t : Tag} (ha : h.IsBlock a) (htag : h.tag a = t)
    (ht : t ≠ .free) : h.InUse a :=
  ⟨ha, htag ▸ ht⟩

theorem InUse.congr {h k : Heap} {a : Address} (hsize : k.words.size = h.words.size)
    (htag : k.tag a = h.tag a) : k.InUse a ↔ h.InUse a := by
  constructor
  · intro ha
    exact ⟨(IsBlock.congr hsize).1 ha.toIsBlock, htag ▸ ha.tag_ne⟩
  · intro ha
    exact ⟨(IsBlock.congr hsize).2 ha.toIsBlock, htag ▸ ha.tag_ne⟩

/-- A word that may be a child of a node of some kind. -/
def Child (h : Heap) (parent : Tag) (w : Nat) : Prop :=
  (parent = .channel ∧ w = vacant) ∨ (h.InUse w ∧ parent.Admits (h.tag w))

/-- A node whose words are what its kind requires. -/
structure NodeSound (h : Heap) (a : Address) : Prop where
  /-- Its header is in use. -/
  pos : 1 ≤ h.size a
  /-- It fits its block. -/
  le : h.size a ≤ nodeSize
  /-- Its children are nodes of a kind that it admits. -/
  child : ∀ i, (h.header a).childRange.1 ≤ i → i < (h.header a).childRange.2 →
    h.Child (h.tag a) (h.word a i)
  /-- The indices of a channel are those of slots. -/
  ring : h.tag a = .channel → h.size a = ringStart + h.channelSlots a ∧
    h.writeSlot a < h.channelSlots a ∧ h.readSlot a < h.channelSlots a

/-- All nodes in use are what their kinds require. -/
def Typed (h : Heap) : Prop := ∀ a, h.InUse a → h.NodeSound a

/-- The kind of a node says which of its words are children. -/
theorem childRange_of_tag {h : Heap} {a : Address} {t : Tag} (ht : h.tag a = t) :
    (h.header a).childRange = Header.childRange ⟨t, 0, (h.header a).size, 0⟩ := by
  unfold Header.childRange
  rw [show (h.header a).tag = t from ht]

/-- A node in use keeps its children inside of its block. -/
theorem NodeSound.range {h : Heap} {a : Address} (ha : h.NodeSound a) :
    (h.header a).childRange.2 ≤ nodeSize := by
  have hle : (h.header a).size.toNat ≤ nodeSize := ha.le
  have hsize : nodeSize = 10 := rfl
  unfold Header.childRange
  split <;> simp only <;> omega

/-! ## The free list -/

/-- The free nodes from an index on, each linked to the next. -/
inductive Chain (h : Heap) : UInt32 → List Nat → Prop where
  /-- No node is left. -/
  | nil : Chain h noNode []
  /-- A node, whose payload is the index of the next. -/
  | cons {i : UInt32} {rest : List Nat} : i.toNat < h.nodeCount →
      Chain h (h.payload (addressOf i.toNat)) rest → Chain h i (i.toNat :: rest)

/-- The nodes of a chain are nodes of the arena. -/
theorem Chain.lt {h : Heap} {i : UInt32} {l : List Nat} (c : Chain h i l) :
    ∀ n ∈ l, n < h.nodeCount := by
  induction c with
  | nil => simp
  | cons hi _ ih =>
    intro n hn
    rcases List.mem_cons.1 hn with rfl | hn
    · exact hi
    · exact ih n hn

/-- A chain depends on the payloads of its nodes only. -/
theorem Chain.congr {h k : Heap} (hcount : k.nodeCount = h.nodeCount) {i : UInt32} {l : List Nat}
    (c : Chain h i l) (hpayload : ∀ n ∈ l, k.payload (addressOf n) = h.payload (addressOf n)) :
    Chain k i l := by
  induction c with
  | nil => exact .nil
  | cons hi _ ih =>
    refine .cons (hcount ▸ hi) ?_
    rw [hpayload _ (by simp)]
    exact ih fun n hn => hpayload n (by simp [hn])

/-- Behind the end of the list there are no nodes. -/
theorem Chain.eq_nil {h : Heap} (hcount : h.nodeCount ≤ noNode.toNat) {l : List Nat}
    (c : Chain h noNode l) : l = [] := by
  generalize noNode = first at c hcount
  cases c with
  | nil => rfl
  | cons hlt _ => exact absurd hlt (Nat.not_lt.2 hcount)

/-- The free list: its nodes in ascending order, exactly the free nodes of the arena. -/
structure FreeList (h : Heap) (l : List Nat) : Prop where
  /-- They are linked. -/
  chain : Chain h h.free l
  /-- They are in ascending order. -/
  sorted : l.Pairwise (· < ·)
  /-- They are the free nodes. -/
  mem_iff : ∀ i, i < h.nodeCount → (i ∈ l ↔ h.tag (addressOf i) = .free)
  /-- They are counted. -/
  count : h.freeCount = l.length

/-! ## Sound heaps -/

/-- The arena and its free list are in order. -/
structure Intact (h : Heap) : Prop where
  /-- The arena consists of whole nodes. -/
  size : h.words.size = nodeSize * h.nodeCount
  /-- Every index of a node is different from the end of the free list. -/
  count : h.nodeCount ≤ noNode.toNat
  /-- No node is marked. -/
  mark : ∀ a, h.IsBlock a → (h.header a).mark = 0
  /-- The permanent region consists of whole nodes. -/
  bottom_mod : h.bottom % nodeSize = 0
  /-- The permanent region is inside of the arena. -/
  bottom_le : h.bottom ≤ h.words.size
  /-- Permanent nodes are in use. -/
  permanent : ∀ a, h.IsBlock a → a < h.bottom → h.tag a ≠ .free
  /-- The constants are permanent. -/
  constants_le : addressOf constants.length ≤ h.bottom
  /-- The constants are at the start. -/
  constant : ∀ (i : Nat) (t : Tag), constants[i]? = some t → h.tag (addressOf i) = t
  /-- The free nodes are linked. -/
  free : ∃ l, FreeList h l

/-- Each string node has a text, and each text has one node. -/
structure Interned (h : Heap) : Prop where
  /-- The text of a node has this node. -/
  text : ∀ a, h.IsBlock a → h.tag a = .string →
    ∃ s, h.texts[h.word a 1]? = some s ∧ h.strings[s]? = some a
  /-- The node of a text is a string node that has this text. -/
  node : ∀ s a, h.strings[s]? = some a →
    h.IsBlock a ∧ h.tag a = .string ∧ h.texts[h.word a 1]? = some s
  /-- The number of the next text is not taken. -/
  next : ∀ n s, h.texts[n]? = some s → n < h.nextText

/-- What every heap satisfies. -/
structure Sound (h : Heap) : Prop extends Intact h, Interned h where
  /-- The nodes in use are what their kinds require. -/
  typed : h.Typed
  /-- The nodes being built are in use. -/
  building : ∀ a ∈ h.building, h.InUse a

/-! ## Blocks and indices -/

theorem addressOf_mod (i : Nat) : addressOf i % nodeSize = 0 := Nat.mul_mod_right nodeSize i

theorem addressOf_inj {i j : Nat} (h : addressOf i = addressOf j) : i = j :=
  Nat.eq_of_mul_eq_mul_left (by decide) h

theorem addressOf_div {a : Nat} (h : a % nodeSize = 0) : addressOf (a / nodeSize) = a := by
  rw [addressOf, Nat.mul_div_cancel' (Nat.dvd_of_mod_eq_zero h)]

theorem div_addressOf (i : Nat) : addressOf i / nodeSize = i :=
  Nat.mul_div_cancel_left i (by decide)

/-- The blocks are the nodes of the arena. -/
theorem isBlock_addressOf {h : Heap} {i : Nat} : h.IsBlock (addressOf i) ↔ i < h.nodeCount := by
  have hcount : h.nodeCount = h.words.size / nodeSize := rfl
  constructor
  · intro hb
    have hle := hb.inside
    simp only [addressOf, nodeSize] at hcount hle
    omega
  · intro hlt
    refine ⟨addressOf_mod i, ?_⟩
    simp only [addressOf, nodeSize] at hcount ⊢
    omega

/-- Each block has an index. -/
theorem IsBlock.exists_index {h : Heap} {a : Nat} (ha : h.IsBlock a) :
    ∃ i, i < h.nodeCount ∧ addressOf i = a := by
  refine ⟨a / nodeSize, ?_, addressOf_div ha.aligned⟩
  rw [← isBlock_addressOf, addressOf_div ha.aligned]
  exact ha

/-- The index of a node fits a payload. -/
theorem toNat_ofNat_of_lt {count i : Nat} (hcount : count ≤ noNode.toNat) (hi : i < count) :
    (UInt32.ofNat i).toNat = i := by
  have hlimit : noNode.toNat = 2 ^ 32 - 1 := rfl
  rw [UInt32.toNat_ofNat']
  exact Nat.mod_eq_of_lt (by omega)

/-- The arena consists of whole nodes without marks. -/
structure Whole (h : Heap) : Prop where
  /-- The arena consists of whole nodes. -/
  size : h.words.size = nodeSize * h.nodeCount
  /-- Every index of a node is different from the end of the free list. -/
  count : h.nodeCount ≤ noNode.toNat
  /-- No node is marked. -/
  mark : ∀ a, h.IsBlock a → (h.header a).mark = 0

theorem Intact.whole {h : Heap} (hi : h.Intact) : h.Whole := ⟨hi.size, hi.count, hi.mark⟩

namespace Whole

theorem isBlock_of_lt {h : Heap} (hi : h.Whole) {a : Nat} (hmod : a % nodeSize = 0)
    (hlt : a < h.words.size) : h.IsBlock a := by
  have hsize := hi.size
  refine ⟨hmod, ?_⟩
  simp only [nodeSize] at hsize hmod ⊢
  omega

/-- No address of a node is taken for a vacant slot. -/
theorem ne_vacant {h : Heap} (hi : h.Whole) {a : Nat} (ha : h.IsBlock a) : a ≠ vacant := by
  have hsize := hi.size
  have hcount := hi.count
  have hle := ha.inside
  have hlimit : noNode.toNat = 2 ^ 32 - 1 := rfl
  simp only [nodeSize, vacant] at hsize hle ⊢
  omega

end Whole

namespace Intact

theorem isBlock_of_lt {h : Heap} (hi : h.Intact) {a : Nat} (hmod : a % nodeSize = 0)
    (hlt : a < h.words.size) : h.IsBlock a := hi.whole.isBlock_of_lt hmod hlt

/-- Permanent blocks are in use. -/
theorem inUse_permanent {h : Heap} (hi : h.Intact) {a : Nat} (hmod : a % nodeSize = 0)
    (hlt : a < h.bottom) : h.InUse a := by
  have hb := hi.isBlock_of_lt hmod (Nat.lt_of_lt_of_le hlt hi.bottom_le)
  exact ⟨hb, hi.permanent a hb hlt⟩

theorem ne_vacant {h : Heap} (hi : h.Intact) {a : Nat} (ha : h.IsBlock a) : a ≠ vacant :=
  hi.whole.ne_vacant ha

end Intact

/-! ## Constants -/

namespace Intact

theorem constant_inUse {h : Heap} (hi : h.Intact) {i : Nat} {t : Tag}
    (ht : constants[i]? = some t) : h.InUse (addressOf i) := by
  have hlt : i < constants.length := (List.getElem?_eq_some_iff.1 ht).1
  have hle := hi.constants_le
  refine hi.inUse_permanent (addressOf_mod i) ?_
  simp only [Address, addressOf, nodeSize] at hle ⊢
  omega

theorem tag_boolean {h : Heap} (hi : h.Intact) (b : Bool) :
    h.tag (boolean b) = if b then .true else .false := by
  cases b
  · exact hi.constant 0 .false rfl
  · exact hi.constant 1 .true rfl

theorem tag_null {h : Heap} (hi : h.Intact) : h.tag null = .null := hi.constant 2 .null rfl

theorem tag_unassigned {h : Heap} (hi : h.Intact) : h.tag unassigned = .unassigned :=
  hi.constant 3 .unassigned rfl

theorem tag_undefined {h : Heap} (hi : h.Intact) : h.tag undefined = .undefined :=
  hi.constant 4 .undefined rfl

end Intact

/-! ## Heaps with the same nodes -/

/-- Two heaps with the same words and the same free nodes. -/
structure SameArena (h k : Heap) : Prop where
  /-- The words. -/
  words : k.words = h.words
  /-- The first free node. -/
  free : k.free = h.free
  /-- How many nodes are free. -/
  freeCount : k.freeCount = h.freeCount
  /-- The permanent region. -/
  bottom : k.bottom = h.bottom

namespace SameArena

variable {h k : Heap}

theorem word (arena : SameArena h k) (a : Address) (i : Nat) : k.word a i = h.word a i := by
  rw [Heap.word, Heap.word, arena.words]

theorem header (arena : SameArena h k) (a : Address) : k.header a = h.header a := by
  rw [Heap.header, Heap.header, arena.word]

theorem same (arena : SameArena h k) (a : Address) : SameNode h k a :=
  ⟨arena.header a, fun i _ _ => arena.word a i⟩

theorem tag (arena : SameArena h k) (a : Address) : k.tag a = h.tag a := (arena.same a).tag

theorem size (arena : SameArena h k) : k.words.size = h.words.size :=
  congrArg Array.size arena.words

theorem nodeCount (arena : SameArena h k) : k.nodeCount = h.nodeCount := by
  rw [Heap.nodeCount, Heap.nodeCount, arena.words]

theorem isBlock (arena : SameArena h k) {a : Nat} : k.IsBlock a ↔ h.IsBlock a :=
  IsBlock.congr arena.size

theorem inUse (arena : SameArena h k) {a : Nat} : k.InUse a ↔ h.InUse a :=
  InUse.congr arena.size (arena.tag a)

theorem freeList (arena : SameArena h k) {l : List Nat} (hl : FreeList h l) : FreeList k l where
  chain := by
    rw [arena.free]
    exact hl.chain.congr arena.nodeCount fun n _ => (arena.same _).payload
  sorted := hl.sorted
  mem_iff := by
    intro i hlt
    rw [arena.tag]
    exact hl.mem_iff i (arena.nodeCount ▸ hlt)
  count := arena.freeCount.trans hl.count

end SameArena

/-- Two heaps that differ in their statistics and in the nodes being built only. -/
structure Alike (h k : Heap) : Prop extends SameArena h k where
  /-- The nodes of the texts. -/
  strings : k.strings = h.strings
  /-- The texts. -/
  texts : k.texts = h.texts
  /-- The number of the next text. -/
  nextText : k.nextText = h.nextText

theorem Alike.refl (h : Heap) : Alike h h := ⟨⟨rfl, rfl, rfl, rfl⟩, rfl, rfl, rfl⟩

theorem Alike.text? {h k : Heap} (alike : Alike h k) (a : Address) : k.text? a = h.text? a := by
  rw [Heap.text?, Heap.text?, alike.tag, alike.word, alike.texts]

theorem Intact.congr {h k : Heap} (hi : h.Intact) (arena : SameArena h k) : k.Intact where
  size := by
    rw [arena.nodeCount, arena.words]
    exact hi.size
  count := arena.nodeCount ▸ hi.count
  mark := by
    intro a ha
    rw [arena.header]
    exact hi.mark a (arena.isBlock.1 ha)
  bottom_mod := arena.bottom ▸ hi.bottom_mod
  bottom_le := by
    rw [arena.bottom, arena.words]
    exact hi.bottom_le
  permanent := by
    intro a ha hlt
    rw [arena.tag]
    exact hi.permanent a (arena.isBlock.1 ha) (arena.bottom ▸ hlt)
  constants_le := arena.bottom ▸ hi.constants_le
  constant := by
    intro i t ht
    rw [arena.tag]
    exact hi.constant i t ht
  free := hi.free.imp fun _ hl => arena.freeList hl

theorem Interned.alike {h k : Heap} (hi : h.Interned) (alike : Alike h k) : k.Interned where
  text := by
    intro a ha htag
    rw [alike.strings, alike.texts, alike.word]
    exact hi.text a (alike.isBlock.1 ha) (alike.tag a ▸ htag)
  node := by
    intro s a hs
    rw [alike.isBlock, alike.tag, alike.texts, alike.word]
    exact hi.node s a (alike.strings ▸ hs)
  next := by
    rw [alike.texts, alike.nextText]
    exact hi.next

/-- Whether a node is what its kind requires depends on its words and on the kinds of its
children. -/
theorem NodeSound.congr {h k : Heap} {a : Address} (hn : h.NodeSound a) (same : SameNode h k a)
    (hsize : k.words.size = h.words.size)
    (hchild : ∀ i, (h.header a).childRange.1 ≤ i → i < (h.header a).childRange.2 →
      h.InUse (h.word a i) → k.tag (h.word a i) = h.tag (h.word a i)) : k.NodeSound a where
  pos := same.size ▸ hn.pos
  le := same.size ▸ hn.le
  child := by
    intro i hle hlt
    rw [same.header] at hle hlt
    have hpos := Header.one_le_childRange_fst (Nat.lt_of_le_of_lt hle hlt)
    have hend := Nat.lt_of_lt_of_le hlt hn.range
    rw [same.word i (Nat.le_trans hpos hle) hend, same.tag]
    rcases hn.child i hle hlt with hvacant | ⟨hin, hadmits⟩
    · exact .inl hvacant
    · have htag := hchild i hle hlt hin
      exact .inr ⟨(InUse.congr hsize htag).2 hin, htag ▸ hadmits⟩
  ring := by
    intro htag
    rw [same.size, channelSlots, writeSlot, readSlot, same.word 1 (by decide) (by decide),
      same.word 2 (by decide) (by decide), same.word 3 (by decide) (by decide)]
    exact hn.ring (same.tag ▸ htag)

theorem Typed.congr {h k : Heap} (ht : h.Typed) (arena : SameArena h k) : k.Typed := fun a ha =>
  (ht a (arena.inUse.1 ha)).congr (arena.same a) arena.size fun _ _ _ _ => arena.tag _

theorem Sound.alike {h k : Heap} (hs : h.Sound) (alike : Alike h k)
    (hbuilding : ∀ a ∈ k.building, h.InUse a) : k.Sound where
  toIntact := hs.toIntact.congr alike.toSameArena
  toInterned := hs.toInterned.alike alike
  typed := hs.typed.congr alike.toSameArena
  building := fun a ha => alike.inUse.2 (hbuilding a ha)

/-! ## Live nodes -/

/-- The addresses that a collection keeps: what can be reached from the roots, from the nodes
being built and from the permanent nodes. -/
def Live (h : Heap) (roots : List Address) : Address → Prop :=
  Reach h.words (h.permanentRoots.reverse ++ h.building ++ roots.reverse)

theorem mem_permanentRoots {h : Heap} (hi : h.Intact) {a : Nat} :
    a ∈ h.permanentRoots ↔ a % nodeSize = 0 ∧ a < h.bottom := by
  have hmod := hi.bottom_mod
  simp only [permanentRoots, List.mem_filter, List.mem_map, List.mem_range, decide_eq_true_eq]
  constructor
  · rintro ⟨⟨i, hlt, rfl⟩, _⟩
    refine ⟨addressOf_mod i, ?_⟩
    simp only [Address, addressOf, nodeSize] at hlt hmod ⊢
    omega
  · rintro ⟨ha, hlt⟩
    refine ⟨⟨a / nodeSize, ?_, addressOf_div ha⟩, (hi.inUse_permanent ha hlt).tag_ne⟩
    simp only [Address, nodeSize] at ha hmod ⊢
    omega

namespace Live

theorem root {h : Heap} {roots : List Address} {a : Address} (ha : a ∈ roots) :
    h.Live roots a :=
  .pending (by simp [ha])

theorem building {h : Heap} {roots : List Address} {a : Address} (ha : a ∈ h.building) :
    h.Live roots a :=
  .pending (by simp [ha])

theorem permanent {h : Heap} (hi : h.Intact) {roots : List Address} {a : Nat}
    (hmod : a % nodeSize = 0) (hlt : a < h.bottom) : h.Live roots a :=
  .pending (by simp [(mem_permanentRoots hi).2 ⟨hmod, hlt⟩])

/-- The three ways to be live. -/
theorem elim {h : Heap} (hi : h.Intact) {roots : List Address} {motive : Nat → Prop}
    {a : Nat} (ha : h.Live roots a) (root : ∀ a ∈ roots, motive a)
    (building : ∀ a ∈ h.building, motive a)
    (permanent : ∀ a : Nat, a % nodeSize = 0 → a < h.bottom → motive a)
    (child : ∀ a c, h.Live roots a → c ∈ children h.words a → motive a → motive c) :
    motive a := by
  induction ha with
  | @pending a ha =>
    rw [List.mem_append, List.mem_append, List.mem_reverse, List.mem_reverse] at ha
    rcases ha with (ha | ha) | ha
    · obtain ⟨hmod, hlt⟩ := (mem_permanentRoots hi).1 ha
      exact permanent a hmod hlt
    · exact building a ha
    · exact root a ha
  | child ha hc ih => exact child _ _ ha hc ih

end Live

/-- A child of a node in use is in use. -/
theorem Typed.inUse_child {h : Heap} (ht : h.Typed) {a c : Nat} (ha : h.InUse a)
    (hc : c ∈ children h.words a) : h.InUse c := by
  obtain ⟨hv, i, hle, hlt, _, hword⟩ := mem_children.1 hc
  rcases (ht a ha).child i hle hlt with ⟨_, hvacant⟩ | ⟨hin, _⟩
  · exact absurd (hword.symm.trans hvacant) hv
  · exact hword ▸ hin

/-- Children that are in use are reached. -/
theorem mem_children_of_inUse {h : Heap} (hi : h.Intact) {a i : Nat} (ha : h.NodeSound a)
    (hb : h.IsBlock a) (hle : (h.header a).childRange.1 ≤ i)
    (hlt : i < (h.header a).childRange.2) (hin : h.InUse (h.word a i)) :
    h.word a i ∈ children h.words a := by
  have hrange := ha.range
  have hinside := hb.inside
  exact mem_children.2 ⟨hi.ne_vacant hin.toIsBlock, i, hle, hlt, by omega, rfl⟩

/-- What is live is in use, if the roots are. -/
theorem Sound.inUse_of_live {h : Heap} (hs : h.Sound) {roots : List Address}
    (hroots : ∀ a ∈ roots, h.InUse a) {a : Nat} (ha : h.Live roots a) : h.InUse a :=
  ha.elim hs.toIntact hroots hs.building (fun _ hmod hlt => hs.inUse_permanent hmod hlt)
    fun _ _ _ hc ih => hs.typed.inUse_child ih hc

/-- What a live node leads to is live. -/
theorem Sound.live_child {h : Heap} (hs : h.Sound) {roots : List Address}
    (hroots : ∀ a ∈ roots, h.InUse a) {a i : Nat} (ha : h.Live roots a) (ht : h.tag a ≠ .channel)
    (hle : (h.header a).childRange.1 ≤ i) (hlt : i < (h.header a).childRange.2) :
    h.Live roots (h.word a i) := by
  have hin := hs.inUse_of_live hroots ha
  have hsound := hs.typed a hin
  rcases hsound.child i hle hlt with ⟨hchannel, -⟩ | ⟨hchild, -⟩
  · exact absurd hchannel ht
  · exact .child ha (mem_children_of_inUse hs.toIntact hsound hin.toIsBlock hle hlt hchild)

end Heap

end ChannelMachine

import ChannelMachine.Heap.Collector

/-!
# Blocks

A node stands in a block: `nodeSize` words of the arena, the first of which is at a multiple of
`nodeSize`.  Two blocks do not overlap, so a write into one leaves every word of the others as it
was.  `Writes h k a` says this of any heap `k` that differs from `h` in the block at `a` only, and
the lemmas here give it for each way in which the heap writes into a node.

`SameNode h k a` says that `k` has at `a` the node that `h` has there.
-/

namespace ChannelMachine.Heap

/-- A node may stand at this address. -/
structure IsBlock (h : Heap) (a : Nat) : Prop where
  /-- It is a multiple of the node size. -/
  aligned : a % nodeSize = 0
  /-- The whole block is inside of the arena. -/
  inside : a + nodeSize ≤ h.words.size

theorem IsBlock.mod {h : Heap} {a : Nat} (ha : h.IsBlock a) : a % 10 = 0 := ha.aligned

theorem IsBlock.le {h : Heap} {a : Nat} (ha : h.IsBlock a) : a + 10 ≤ h.words.size :=
  ha.inside

theorem IsBlock.congr {h k : Heap} (hsize : k.words.size = h.words.size) {a : Address} :
    k.IsBlock a ↔ h.IsBlock a := by
  constructor
  · intro ha
    exact ⟨ha.aligned, hsize ▸ ha.inside⟩
  · intro ha
    exact ⟨ha.aligned, hsize ▸ ha.inside⟩

/-- Words of two blocks are the same word of the arena only if they are the same word of the same
block. -/
theorem IsBlock.word_eq {h : Heap} {a b i j : Nat} (ha : h.IsBlock a)
    (hb : h.IsBlock b) (hi : i < nodeSize) (hj : j < nodeSize) (heq : a + i = b + j) :
    a = b ∧ i = j := by
  have hsize : nodeSize = 10 := rfl
  have h1 := ha.mod
  have h2 := hb.mod
  omega

/-! ## The same node in two heaps -/

/-- The node at an address is the same in both heaps: its header and all words behind it. -/
structure SameNode (h k : Heap) (a : Address) : Prop where
  /-- The header. -/
  header : k.header a = h.header a
  /-- The words behind the header. -/
  word : ∀ i, 1 ≤ i → i < nodeSize → k.word a i = h.word a i

namespace SameNode

theorem refl (h : Heap) (a : Address) : SameNode h h a := ⟨rfl, fun _ _ _ => rfl⟩

theorem symm {h k : Heap} {a : Address} (same : SameNode h k a) : SameNode k h a :=
  ⟨same.header.symm, fun i hi hlt => (same.word i hi hlt).symm⟩

theorem trans {h k l : Heap} {a : Address} (first : SameNode h k a) (second : SameNode k l a) :
    SameNode h l a :=
  ⟨second.header.trans first.header,
    fun i hi hlt => (second.word i hi hlt).trans (first.word i hi hlt)⟩

theorem tag {h k : Heap} {a : Address} (same : SameNode h k a) : k.tag a = h.tag a :=
  congrArg Header.tag same.header

theorem size {h k : Heap} {a : Address} (same : SameNode h k a) : k.size a = h.size a :=
  congrArg (fun header : Header => header.size.toNat) same.header

theorem payload {h k : Heap} {a : Address} (same : SameNode h k a) :
    k.payload a = h.payload a :=
  congrArg Header.payload same.header

/-- All words of a block are the same, so the node is. -/
theorem of_word {h k : Heap} {a : Address} (hword : ∀ i, i < nodeSize → k.word a i = h.word a i) :
    SameNode h k a := by
  refine ⟨?_, fun i _ hlt => hword i hlt⟩
  rw [Heap.header, Heap.header, hword 0 (by decide)]

theorem number? {h k : Heap} {a : Address} (same : SameNode h k a) :
    k.number? a = h.number? a := by
  rw [Heap.number?, Heap.number?, same.tag, same.word 1 (by decide) (by decide)]

end SameNode

/-! ## Writes into one block -/

/-- Both heaps differ at most in the words of one block. -/
structure Writes (h k : Heap) (a : Address) : Prop where
  /-- Nothing but words was changed. -/
  eq : k = { h with words := k.words }
  /-- The arena has its size. -/
  size : k.words.size = h.words.size
  /-- The words of the other blocks are as they were. -/
  other : ∀ b, h.IsBlock b → b ≠ a → ∀ i, i < nodeSize → k.word b i = h.word b i

namespace Writes

theorem refl (h : Heap) (a : Address) : Writes h h a := ⟨rfl, rfl, fun _ _ _ _ _ => rfl⟩

theorem trans {h k l : Heap} {a : Address} (first : Writes h k a) (second : Writes k l a) :
    Writes h l a := by
  refine ⟨?_, second.size.trans first.size, ?_⟩
  · rw [second.eq, first.eq]
  · intro b hb hne i hi
    rw [second.other b ((IsBlock.congr first.size).2 hb) hne i hi, first.other b hb hne i hi]

theorem isBlock {h k : Heap} {a b : Address} (w : Writes h k a) : k.IsBlock b ↔ h.IsBlock b :=
  IsBlock.congr w.size

/-- The other nodes are as they were. -/
theorem same {h k : Heap} {a b : Address} (w : Writes h k a) (hb : h.IsBlock b) (hne : b ≠ a) :
    SameNode h k b :=
  .of_word (w.other b hb hne)

theorem free {h k : Heap} {a : Address} (w : Writes h k a) : k.free = h.free := by rw [w.eq]

theorem freeCount {h k : Heap} {a : Address} (w : Writes h k a) : k.freeCount = h.freeCount := by
  rw [w.eq]

theorem bottom {h k : Heap} {a : Address} (w : Writes h k a) : k.bottom = h.bottom := by rw [w.eq]

theorem strings {h k : Heap} {a : Address} (w : Writes h k a) : k.strings = h.strings := by
  rw [w.eq]

theorem texts {h k : Heap} {a : Address} (w : Writes h k a) : k.texts = h.texts := by rw [w.eq]

theorem nextText {h k : Heap} {a : Address} (w : Writes h k a) : k.nextText = h.nextText := by
  rw [w.eq]

theorem building {h k : Heap} {a : Address} (w : Writes h k a) : k.building = h.building := by
  rw [w.eq]

theorem nodeCount {h k : Heap} {a : Address} (w : Writes h k a) : k.nodeCount = h.nodeCount := by
  rw [Heap.nodeCount, Heap.nodeCount, w.size]

theorem text? {h k : Heap} {a b : Address} (w : Writes h k a) (hb : h.IsBlock b) (hne : b ≠ a) :
    k.text? b = h.text? b := by
  have same := w.same hb hne
  rw [Heap.text?, Heap.text?, same.tag, same.word 1 (by decide) (by decide), w.texts]

end Writes

/-! ## One word -/

/-- What a write of one word does to the words of all blocks. -/
theorem word_setWord_block {h : Heap} {a b i j : Nat} (ha : h.IsBlock a) (hb : h.IsBlock b)
    (hi : i < nodeSize) (hj : j < nodeSize) (w : Nat) :
    (h.setWord a i w).word b j = if b = a ∧ j = i then w else h.word b j := by
  split
  next heq =>
    obtain ⟨rfl, rfl⟩ := heq
    have hinside := ha.inside
    have hlt : b + j < h.words.size := by omega
    exact word_setWord_self hlt w
  next hne =>
    refine word_setWord_of_ne h ?_ w
    intro heq
    have := ha.word_eq hb hi hj heq
    exact hne ⟨this.1.symm, this.2.symm⟩

theorem writes_setWord {h : Heap} {a : Address} {i : Nat} (ha : h.IsBlock a) (hi : i < nodeSize)
    (w : Nat) : Writes h (h.setWord a i w) a := by
  refine ⟨rfl, size_words_setWord h a i w, ?_⟩
  intro b hb hne j hj
  rw [word_setWord_block ha hb hi hj, if_neg (fun heq => hne heq.1)]

/-- Behind the header there is nothing of the header. -/
theorem header_setWord {h : Heap} {a b : Address} {i : Nat} (ha : h.IsBlock a)
    (hb : h.IsBlock b) (hpos : 1 ≤ i) (hi : i < nodeSize) (w : Nat) :
    (h.setWord a i w).header b = h.header b := by
  rw [Heap.header, Heap.header, word_setWord_block ha hb hi (by decide), if_neg (by omega)]

/-! ## Several words -/

/-- What a write of several words does to the words of all blocks. -/
theorem word_setWords_block {a b : Address} (ws : List Nat) :
    ∀ {h : Heap} {i j : Nat}, h.IsBlock a → h.IsBlock b → i + ws.length ≤ nodeSize →
      j < nodeSize → (h.setWords a i ws).word b j =
        if b = a ∧ i ≤ j then ws.getD (j - i) (h.word b j) else h.word b j := by
  induction ws with
  | nil =>
    intro h i j _ _ _ _
    simp [setWords]
  | cons w rest ih =>
    intro h i j ha hb hlen hj
    rw [List.length_cons] at hlen
    have hi : i < nodeSize := by omega
    have hblock := (writes_setWord ha hi w).isBlock (b := a)
    have hblock' := (writes_setWord ha hi w).isBlock (b := b)
    rw [setWords, ih (hblock.2 ha) (hblock'.2 hb) (by omega) hj, word_setWord_block ha hb hi hj]
    by_cases hab : b = a
    · rcases Nat.lt_trichotomy i j with hlt | heq | hgt
      · have hsub : j - i = (j - (i + 1)) + 1 := by omega
        rw [if_pos ⟨hab, hlt⟩, if_neg (by omega), if_pos ⟨hab, by omega⟩, hsub,
          List.getD_cons_succ]
      · rw [if_neg (by omega), if_pos ⟨hab, heq.symm⟩, if_pos ⟨hab, by omega⟩, heq,
          Nat.sub_self, List.getD_cons_zero]
      · rw [if_neg (by omega), if_neg (by omega), if_neg (by omega)]
    · rw [if_neg (fun h => hab h.1), if_neg (fun h => hab h.1), if_neg (fun h => hab h.1)]

theorem writes_setWords {a : Address} (ws : List Nat) :
    ∀ {h : Heap} {i : Nat}, h.IsBlock a → i + ws.length ≤ nodeSize →
      Writes h (h.setWords a i ws) a := by
  induction ws with
  | nil => exact fun _ _ => Writes.refl _ _
  | cons w rest ih =>
    intro h i ha hlen
    rw [List.length_cons] at hlen
    have first := writes_setWord ha (i := i) (by omega) w
    exact first.trans (ih (first.isBlock.2 ha) (by omega))

/-- Behind the header there is nothing of the header. -/
theorem header_setWords {h : Heap} {a b : Address} {i : Nat} {ws : List Nat} (ha : h.IsBlock a)
    (hb : h.IsBlock b) (hpos : 1 ≤ i) (hlen : i + ws.length ≤ nodeSize) :
    (h.setWords a i ws).header b = h.header b := by
  rw [Heap.header, Heap.header, word_setWords_block ws ha hb hlen (by decide), if_neg (by omega)]

/-! ## Copies -/

/-- What a copy of words from one block to another does to the words of all blocks. -/
theorem word_copyWords_block {source target b : Address} (n : Nat) :
    ∀ {h : Heap} {i j : Nat}, h.IsBlock source → h.IsBlock target → h.IsBlock b →
      source ≠ target → i + n ≤ nodeSize → j < nodeSize →
      (h.copyWords source target i n).word b j =
        if b = target ∧ i ≤ j ∧ j < i + n then h.word source j else h.word b j := by
  induction n with
  | zero =>
    intro h i j _ _ _ _ _ _
    rw [copyWords, if_neg (by omega)]
  | succ n ih =>
    intro h i j hs ht hb hne hlen hj
    have hi : i < nodeSize := by omega
    have hw := writes_setWord ht hi (h.word source i)
    have hsource : (h.setWord target i (h.word source i)).word source j = h.word source j := by
      rw [word_setWord_block ht hs hi hj, if_neg (fun heq => hne heq.1)]
    rw [copyWords, ih (hw.isBlock.2 hs) (hw.isBlock.2 ht) (hw.isBlock.2 hb) hne (by omega) hj,
      hsource, word_setWord_block ht hb hi hj]
    by_cases hab : b = target
    · rcases Nat.lt_trichotomy i j with hlt | heq | hgt
      · by_cases hn : j < i + (n + 1)
        · rw [if_pos ⟨hab, hlt, by omega⟩, if_pos ⟨hab, by omega, hn⟩]
        · rw [if_neg (by omega), if_neg (by omega), if_neg (by omega)]
      · rw [if_neg (by omega), if_pos ⟨hab, heq.symm⟩, if_pos ⟨hab, by omega, by omega⟩, heq]
      · rw [if_neg (by omega), if_neg (by omega), if_neg (by omega)]
    · rw [if_neg (fun heq => hab heq.1), if_neg (fun heq => hab heq.1),
        if_neg (fun heq => hab heq.1)]

theorem writes_copyWords {source target : Address} (n : Nat) :
    ∀ {h : Heap} {i : Nat}, h.IsBlock target → i + n ≤ nodeSize →
      Writes h (h.copyWords source target i n) target := by
  induction n with
  | zero => exact fun _ _ => Writes.refl _ _
  | succ n ih =>
    intro h i ht hlen
    have first := writes_setWord ht (i := i) (by omega) (h.word source i)
    exact first.trans (ih (first.isBlock.2 ht) (by omega))

/-! ## Headers -/

theorem writes_setHeader {h : Heap} {a : Address} (ha : h.IsBlock a) (header : Header) :
    Writes h (h.setHeader a header) a :=
  writes_setWord ha (by decide) header.pack

theorem header_setHeader {h : Heap} {a b : Address} (ha : h.IsBlock a) (hb : h.IsBlock b)
    (header : Header) :
    (h.setHeader a header).header b = if b = a then header else h.header b := by
  rw [Heap.header, setHeader, word_setWord_block ha hb (by decide) (by decide)]
  by_cases hab : b = a
  · rw [if_pos ⟨hab, rfl⟩, if_pos hab, Header.unpack_pack]
  · rw [if_neg (fun h => hab h.1), if_neg hab, Heap.header]

/-- A header that was written is a header in its word. -/
theorem packed_setHeader {h : Heap} {a b : Address} (ha : h.IsBlock a) (hb : h.IsBlock b)
    (header : Header) (hother : b ≠ a → h.word b 0 = (h.header b).pack) :
    (h.setHeader a header).word b 0 = ((h.setHeader a header).header b).pack := by
  rw [header_setHeader ha hb, setHeader, word_setWord_block ha hb (by decide) (by decide)]
  by_cases hab : b = a
  · rw [if_pos ⟨hab, rfl⟩, if_pos hab]
  · rw [if_neg fun heq => hab heq.1, if_neg hab]
    exact hother hab

/-- Behind the header a new header changes nothing. -/
theorem word_setHeader {h : Heap} {a b : Address} {i : Nat} (ha : h.IsBlock a) (hb : h.IsBlock b)
    (hpos : 1 ≤ i) (hi : i < nodeSize) (header : Header) :
    (h.setHeader a header).word b i = h.word b i := by
  rw [setHeader, word_setWord_block ha hb (by decide) hi, if_neg (by omega)]

theorem writes_setPayload {h : Heap} {a : Address} (ha : h.IsBlock a) (payload : UInt32) :
    Writes h (h.setPayload a payload) a :=
  writes_setHeader ha _

theorem header_setPayload {h : Heap} {a : Address} (ha : h.IsBlock a) (payload : UInt32) :
    (h.setPayload a payload).header a = { h.header a with payload } := by
  rw [setPayload, header_setHeader ha ha, if_pos rfl]

end ChannelMachine.Heap

import ChannelMachine.Proofs.Ensures
import ChannelMachine.Proofs.Heap.Collecting

/-!
# Fresh nodes

`allocate` gives a node that was not live, keeps all nodes that were, and fails only where every
node of the arena is live or the node would not fit.  The node it gives is not sound yet: its
words are unassigned, and a string node has no text.  `Fresh` is the state of the heap in between,
and `Fresh.fill` gives back a sound heap once the words are what the kind of node requires.
-/

namespace ChannelMachine.Heap

/-! ## The first free node -/

/-- A heap without a first free node has none. -/
theorem Intact.tag_ne_free {h : Heap} (hi : h.Intact) (hfree : h.free = noNode) {a : Nat}
    (ha : h.IsBlock a) : h.tag a ≠ .free := by
  obtain ⟨l, hl⟩ := hi.free
  obtain ⟨i, hlt, rfl⟩ := ha.exists_index
  intro htag
  have hmem := (hl.mem_iff i hlt).2 htag
  have hchain := hl.chain
  rw [hfree] at hchain
  rw [hchain.eq_nil hi.count] at hmem
  cases hmem

/-- A chain is determined by its first node. -/
theorem Chain.unique {h : Heap} (hi : h.Intact) {i : UInt32} {l l' : List Nat} (c : Chain h i l)
    (c' : Chain h i l') : l = l' := by
  induction c generalizing l' with
  | nil => exact (c'.eq_nil hi.count).symm
  | @cons i rest hlt _ ih =>
    have hcount := hi.count
    cases c' with
    | nil => exact absurd hlt (Nat.not_lt.2 hcount)
    | cons _ hrest => rw [ih hrest]

/-- The first free node is a free node, and behind it the list goes on. -/
theorem Intact.first_free {h : Heap} (hi : h.Intact) (hfree : h.free ≠ noNode) :
    h.free.toNat < h.nodeCount ∧ ∃ rest, FreeList h (h.free.toNat :: rest) ∧
      Chain h (h.payload (addressOf h.free.toNat)) rest := by
  obtain ⟨l, hl⟩ := hi.free
  have hchain := hl.chain
  generalize hfirst : h.free = first at hchain
  cases hchain with
  | nil => exact absurd hfirst hfree
  | cons hlt hrest => exact ⟨hlt, _, hl, hrest⟩

/-! ## The heap with a free node -/

/-- A heap after a collection, or as it was. -/
structure Refilled (h k : Heap) (roots : List Address) : Prop extends
    Keeps h k (h.Live roots) where
  /-- The nodes being built are the same. -/
  building : k.building = h.building
  /-- The heap is sound. -/
  sound : k.Sound
  /-- What is in use was in use, with the same text. -/
  old : ∀ a, k.InUse a → h.InUse a ∧ k.text? a = h.text? a
  /-- If there is no free node, all nodes are live. -/
  full : k.free = noNode → ∀ a, h.IsBlock a → h.Live roots a

theorem Sound.refilled {h : Heap} (hs : h.Sound) {roots : Roots}
    (hroots : ∀ a ∈ roots.get, h.InUse a) : Refilled h (h.refill roots) roots.get := by
  unfold refill
  split
  next =>
    have c := hs.collected hroots
    refine ⟨c.toKeeps, c.building, c.sound, fun a ha => ?_, fun hfree a ha => ?_⟩
    · have hlive := c.live_of_inUse ha
      exact ⟨hs.inUse_of_live hroots hlive, c.toKeeps.text a hlive⟩
    · refine Classical.byContradiction fun hnot => ?_
      exact c.sound.tag_ne_free hfree (c.toKeeps.isBlock.2 ha) (c.freed a ha hnot)
  next hfree =>
    exact ⟨.refl h _, rfl, hs, fun a ha => ⟨ha, rfl⟩, fun h => absurd h hfree⟩

/-! ## The fresh node -/

theorem writes_renew {h : Heap} {a : Address} (ha : h.IsBlock a) (t : Tag) {n : Nat}
    (hpos : 1 ≤ n) (hle : n ≤ nodeSize) : Writes h (h.renew a t n) a := by
  have first := writes_setHeader ha (.fresh t n)
  refine first.trans (writes_setWords _ (first.isBlock.2 ha) ?_)
  rw [List.length_replicate]
  omega

theorem header_renew {h : Heap} {a : Address} (ha : h.IsBlock a) (t : Tag) {n : Nat}
    (hpos : 1 ≤ n) (hle : n ≤ nodeSize) : (h.renew a t n).header a = .fresh t n := by
  have hb := (writes_setHeader ha (.fresh t n)).isBlock.2 ha
  have hlen : 1 + (List.replicate (n - 1) unassigned).length ≤ nodeSize := by
    rw [List.length_replicate]
    omega
  rw [renew, header_setWords hb hb (Nat.le_refl 1) hlen, header_setHeader ha ha, if_pos rfl]

theorem word_renew {h : Heap} {a : Address} (ha : h.IsBlock a) (t : Tag) {n i : Nat}
    (hpos : 1 ≤ i) (hlt : i < n) (hle : n ≤ nodeSize) : (h.renew a t n).word a i = unassigned := by
  have hb := (writes_setHeader ha (.fresh t n)).isBlock.2 ha
  have hlen : 1 + (List.replicate (n - 1) unassigned).length ≤ nodeSize := by
    rw [List.length_replicate]
    omega
  rw [renew, word_setWords_block _ hb hb hlen (Nat.lt_of_lt_of_le hlt hle), if_pos ⟨rfl, hpos⟩,
    List.getD_eq_getElem?_getD, List.getElem?_replicate, if_pos (by omega), Option.getD_some]

/-- The heap after the first free node, with index `n`, was taken into use.  All else is as it
was. -/
structure Taken (h k : Heap) (n : Nat) (t : Tag) (size : Nat) (rest : List Nat) : Prop where
  /-- The node was free, and `rest` were the other free ones. -/
  first : FreeList h (n :: rest)
  /-- It is a node of the arena. -/
  lt : n < h.nodeCount
  /-- The other free nodes are linked as they were. -/
  chain : Chain h k.free rest
  /-- One node less is free. -/
  count : k.freeCount = h.freeCount - 1
  /-- What an allocation does not touch. -/
  eq : k = { h with words := k.words, free := k.free, freeCount := k.freeCount }
  /-- The arena has its size. -/
  arena : k.words.size = h.words.size
  /-- The other nodes are as they were. -/
  same : ∀ b, h.IsBlock b → b ≠ addressOf n → SameNode h k b
  /-- The header of the node. -/
  header : k.header (addressOf n) = .fresh t size
  /-- Its words. -/
  filled : ∀ i, 1 ≤ i → i < size → k.word (addressOf n) i = unassigned

theorem Intact.taken {h : Heap} (hi : h.Intact) (hfree : h.free ≠ noNode) (t : Tag) {size : Nat}
    (hpos : 1 ≤ size) (hle : size ≤ nodeSize) :
    ∃ rest, Taken h ((h.unlink (addressOf h.free.toNat)).renew (addressOf h.free.toNat) t size)
      h.free.toNat t size rest := by
  obtain ⟨hlt, rest, hl, hchain⟩ := hi.first_free hfree
  generalize h.free.toNat = n at hlt hl hchain ⊢
  have hb := isBlock_addressOf.2 hlt
  have hbase : (h.unlink (addressOf n)).IsBlock (addressOf n) := ⟨hb.aligned, hb.inside⟩
  have w := writes_renew hbase t hpos hle
  refine ⟨rest, hl, hlt, w.free ▸ hchain, w.freeCount, ?_, w.size, ?_,
    header_renew hbase t hpos hle, fun i hi hlt => word_renew hbase t hi hlt hle⟩
  · rw [w.eq]
    rfl
  · intro b hbb hne
    exact .of_word (w.other b ⟨hbb.aligned, hbb.inside⟩ hne)

namespace Taken

variable {h k : Heap} {n size : Nat} {t : Tag} {rest : List Nat}

theorem nodeCount (taken : Taken h k n t size rest) : k.nodeCount = h.nodeCount := by
  rw [Heap.nodeCount, Heap.nodeCount, taken.arena]

theorem bottom (taken : Taken h k n t size rest) : k.bottom = h.bottom := by rw [taken.eq]

theorem strings (taken : Taken h k n t size rest) : k.strings = h.strings := by rw [taken.eq]

theorem texts (taken : Taken h k n t size rest) : k.texts = h.texts := by rw [taken.eq]

theorem nextText (taken : Taken h k n t size rest) : k.nextText = h.nextText := by rw [taken.eq]

theorem building (taken : Taken h k n t size rest) : k.building = h.building := by rw [taken.eq]

theorem isBlock (taken : Taken h k n t size rest) {b : Nat} : k.IsBlock b ↔ h.IsBlock b :=
  IsBlock.congr taken.arena

theorem tag_self (taken : Taken h k n t size rest) : k.tag (addressOf n) = t :=
  congrArg Header.tag taken.header

/-- The node was not in use. -/
theorem not_inUse (taken : Taken h k n t size rest) : ¬ h.InUse (addressOf n) := fun hin =>
  hin.tag_ne ((taken.first.mem_iff n taken.lt).1 (List.mem_cons_self ..))

/-- A node that was in use is another one. -/
theorem ne_of_inUse (taken : Taken h k n t size rest) {b : Nat} (hb : h.InUse b) :
    b ≠ addressOf n := fun heq => taken.not_inUse (heq ▸ hb)

/-- Another node that is in use was in use. -/
theorem inUse_of_inUse (taken : Taken h k n t size rest) {b : Nat} (hb : k.InUse b)
    (hne : b ≠ addressOf n) : h.InUse b :=
  (InUse.congr taken.arena (taken.same b (taken.isBlock.1 hb.toIsBlock) hne).tag).1 hb

/-- The other free nodes are still free. -/
theorem freeList (taken : Taken h k n t size rest) (ht : t ≠ .free) : FreeList k rest := by
  have hsorted := List.pairwise_cons.1 taken.first.sorted
  have hnot : n ∉ rest := fun hmem => Nat.lt_irrefl n (hsorted.1 n hmem)
  have hne : ∀ i, i ∈ rest → addressOf i ≠ addressOf n :=
    fun i hmem heq => hnot (addressOf_inj heq ▸ hmem)
  refine ⟨?_, hsorted.2, ?_, ?_⟩
  · refine taken.chain.congr taken.nodeCount fun i hmem => ?_
    have hlt := taken.first.chain.lt i (List.mem_cons_of_mem _ hmem)
    exact (taken.same _ (isBlock_addressOf.2 hlt) (hne i hmem)).payload
  · intro i hlt
    rw [taken.nodeCount] at hlt
    by_cases hin : i = n
    · subst hin
      exact ⟨fun hmem => absurd hmem hnot,
        fun hfree => absurd (taken.tag_self.symm.trans hfree) ht⟩
    · have hother : addressOf i ≠ addressOf n := fun heq => hin (addressOf_inj heq)
      rw [(taken.same _ (isBlock_addressOf.2 hlt) hother).tag,
        ← taken.first.mem_iff i hlt, List.mem_cons]
      exact ⟨.inr, fun hmem => hmem.resolve_left hin⟩
  · have hcount := taken.first.count
    rw [List.length_cons] at hcount
    rw [taken.count, hcount, Nat.add_sub_cancel]

theorem intact (taken : Taken h k n t size rest) (hi : h.Intact) (ht : t ≠ .free) :
    k.Intact where
  size := by
    rw [taken.arena, taken.nodeCount]
    exact hi.size
  count := taken.nodeCount ▸ hi.count
  mark := by
    intro b hb
    rw [taken.isBlock] at hb
    by_cases hne : b = addressOf n
    · rw [hne, taken.header]
      rfl
    · rw [(taken.same b hb hne).header]
      exact hi.mark b hb
  bottom_mod := taken.bottom ▸ hi.bottom_mod
  bottom_le := by
    rw [taken.bottom, taken.arena]
    exact hi.bottom_le
  permanent := by
    intro b hb hlow
    rw [taken.isBlock] at hb
    rw [taken.bottom] at hlow
    have hin : h.InUse b := ⟨hb, hi.permanent b hb hlow⟩
    rw [(taken.same b hb (taken.ne_of_inUse hin)).tag]
    exact hin.tag_ne
  constants_le := taken.bottom ▸ hi.constants_le
  constant := by
    intro i u hu
    have hin := hi.constant_inUse hu
    rw [(taken.same _ hin.toIsBlock (taken.ne_of_inUse hin)).tag]
    exact hi.constant i u hu
  free := ⟨rest, taken.freeList ht⟩

/-- The other nodes are sound, and none of them has the node as a child. -/
theorem nodeSound (taken : Taken h k n t size rest) (hs : h.Sound) {b : Nat} (hb : k.InUse b)
    (hne : b ≠ addressOf n) : k.NodeSound b ∧
      ∀ i, (k.header b).childRange.1 ≤ i → i < (k.header b).childRange.2 →
        k.word b i ≠ addressOf n := by
  have same := taken.same b (taken.isBlock.1 hb.toIsBlock) hne
  have hsound := hs.typed b (taken.inUse_of_inUse hb hne)
  refine ⟨hsound.congr same taken.arena fun i _ _ hchild => ?_, fun i hlo hhi hword => ?_⟩
  · exact (taken.same _ hchild.toIsBlock (taken.ne_of_inUse hchild)).tag
  · rw [same.header] at hlo hhi
    have hfirst := Header.one_le_childRange_fst (Nat.lt_of_le_of_lt hlo hhi)
    rw [same.word i (Nat.le_trans hfirst hlo) (Nat.lt_of_lt_of_le hhi hsound.range)] at hword
    rcases hsound.child i hlo hhi with ⟨-, hvacant⟩ | ⟨hchild, -⟩
    · exact hs.ne_vacant (isBlock_addressOf.2 taken.lt) (hword.symm.trans hvacant)
    · exact taken.not_inUse (hword ▸ hchild)

/-- The other nodes have their texts. -/
theorem internedBut (taken : Taken h k n t size rest) (hs : h.Sound) :
    k.InternedBut (addressOf n) := by
  have hfree : h.tag (addressOf n) = .free :=
    (taken.first.mem_iff n taken.lt).1 (List.mem_cons_self ..)
  exact (hs.toInterned.but (by rw [hfree]; decide)).others taken.strings taken.texts taken.nextText
    taken.arena taken.same

/-- All nodes that were in use are kept. -/
theorem keeps (taken : Taken h k n t size rest) : Keeps h k h.InUse where
  size := taken.arena
  bottom := taken.bottom
  node := fun b hb => taken.same b hb.toIsBlock (taken.ne_of_inUse hb)
  text := by
    intro b hb
    have same := taken.same b hb.toIsBlock (taken.ne_of_inUse hb)
    rw [text?, text?, same.tag, same.word 1 (by decide) (by decide), taken.texts]

end Taken

/-! ## Allocations -/

/-- The heap right after an allocation: `a` is a node that was not live, and its words are
unassigned. -/
structure Fresh (h k : Heap) (roots : List Address) (a : Nat) (t : Tag) (n : Nat) :
    Prop extends Keeps h k (h.Live roots) where
  /-- The nodes being built are the same. -/
  building : k.building = h.building
  /-- The arena and its free list are in order. -/
  intact : k.Intact
  /-- The node is a node of the arena. -/
  isBlock : k.IsBlock a
  /-- What was live is in use. -/
  live : ∀ b, h.Live roots b → k.InUse b
  /-- It was not live. -/
  not_live : ¬ h.Live roots a
  /-- Its header. -/
  header : k.header a = .fresh t n
  /-- Its words. -/
  filled : ∀ i, 1 ≤ i → i < n → k.word a i = unassigned
  /-- The other nodes are sound, and none of them has it as a child. -/
  others : ∀ b, k.InUse b → b ≠ a → k.NodeSound b ∧
    ∀ i, (k.header b).childRange.1 ≤ i → i < (k.header b).childRange.2 → k.word b i ≠ a
  /-- The other nodes were in use, with the same text. -/
  old : ∀ b, k.InUse b → b ≠ a → h.InUse b ∧ k.text? b = h.text? b
  /-- The other nodes have their texts. -/
  texts : k.InternedBut a
  /-- The nodes being built are in use, and it is none of them. -/
  held : ∀ b ∈ k.building, k.InUse b ∧ b ≠ a

/-- An allocation gives a fresh node, or fails because the node would not fit or because all nodes
are live. -/
theorem Sound.allocate_ensures {h : Heap} (hs : h.Sound) {roots : Roots}
    (hroots : ∀ a ∈ roots.get, h.InUse a) {t : Tag} (ht : t ≠ .free) (n : Nat) :
    Ensures (allocate t n roots) h
      (fun a k => 1 ≤ n ∧ n ≤ nodeSize ∧ Fresh h k roots.get a t n)
      (fun e k => (e = .nodeTooLarge n ∧ (n = 0 ∨ nodeSize < n) ∧ k = h) ∨
        (e = .heapExhausted ∧ 1 ≤ n ∧ n ≤ nodeSize ∧ Refilled h k roots.get ∧
          ∀ a, h.IsBlock a → h.Live roots.get a)) := by
  unfold Ensures allocate
  by_cases hn : n = 0 ∨ nodeSize < n
  · rw [if_pos hn]
    exact .inl ⟨rfl, hn, rfl⟩
  · rw [if_neg hn]
    have hpos : 1 ≤ n := by omega
    have hle : n ≤ nodeSize := by omega
    have r := hs.refilled hroots
    by_cases hfree : (h.refill roots).free = noNode
    · simp only [if_pos hfree]
      exact .inr ⟨trivial, hpos, hle, r, r.full hfree⟩
    · simp only [if_neg hfree]
      obtain ⟨rest, taken⟩ := r.sound.taken hfree t hpos hle
      have hlive : ∀ b, h.Live roots.get b → (h.refill roots).InUse b := fun b hb =>
        r.toKeeps.inUse hb (hs.inUse_of_live hroots hb)
      refine ⟨hpos, hle, r.toKeeps.trans (taken.keeps.mono hlive),
        taken.building.trans r.building, taken.intact r.sound.toIntact ht,
        taken.isBlock.2 (isBlock_addressOf.2 taken.lt),
        fun b hb => taken.keeps.inUse (hlive b hb) (hlive b hb), fun hl => taken.not_inUse (hlive _ hl), taken.header, taken.filled,
        fun b hb hne => taken.nodeSound r.sound hb hne, fun b hb hne => ?_,
        taken.internedBut r.sound, ?_⟩
      · have hin := taken.inUse_of_inUse hb hne
        obtain ⟨hold, htext⟩ := r.old b hin
        exact ⟨hold, (taken.keeps.text b hin).trans htext⟩
      · intro b hb
        have hin := r.sound.building b (taken.building ▸ hb)
        exact ⟨taken.keeps.inUse hin hin, taken.ne_of_inUse hin⟩

/-! ## All nodes but one -/

/-- All nodes but one are what their kinds require, and have their texts. -/
structure SoundBut (h : Heap) (a : Nat) : Prop extends Intact h, InternedBut h a where
  /-- The node is in use. -/
  inUse : h.InUse a
  /-- The other nodes in use are what their kinds require. -/
  typed : ∀ b, h.InUse b → b ≠ a → h.NodeSound b
  /-- The nodes being built are in use. -/
  building : ∀ b ∈ h.building, h.InUse b

theorem Sound.but {h : Heap} (hs : h.Sound) {a : Address} (ha : h.InUse a)
    (htag : h.tag a ≠ .string) : h.SoundBut a where
  toIntact := hs.toIntact
  toInternedBut := hs.toInterned.but htag
  inUse := ha
  typed := fun b hb _ => hs.typed b hb
  building := hs.building

/-- A write into a node in use keeps the free list, if it leaves the kind of the node as it was. -/
theorem FreeList.writes {h k : Heap} {l : List Nat} (hl : FreeList h l) {a : Address}
    (ha : h.InUse a) (w : Writes h k a) (htag : k.tag a = h.tag a) : FreeList k l where
  chain := by
    rw [w.free]
    refine hl.chain.congr w.nodeCount fun i hmem => ?_
    have hlt := hl.chain.lt i hmem
    refine (w.same (isBlock_addressOf.2 hlt) ?_).payload
    rintro rfl
    exact ha.tag_ne ((hl.mem_iff i hlt).1 hmem)
  sorted := hl.sorted
  mem_iff := by
    intro i hlt
    rw [w.nodeCount] at hlt
    rw [hl.mem_iff i hlt]
    by_cases hne : addressOf i = a
    · rw [hne, htag]
    · rw [(w.same (isBlock_addressOf.2 hlt) hne).tag]
  count := w.freeCount.trans hl.count

/-- A write into a node keeps the arena in order, if it leaves the kind of the node as it was and
sets no mark. -/
theorem Intact.writes {h k : Heap} (hi : h.Intact) {a : Address} (ha : h.InUse a)
    (w : Writes h k a) (htag : k.tag a = h.tag a) (hmark : (k.header a).mark = 0) :
    k.Intact := by
  have htags : ∀ b, h.IsBlock b → k.tag b = h.tag b := by
    intro b hb
    by_cases hne : b = a
    · rw [hne, htag]
    · exact (w.same hb hne).tag
  refine ⟨?_, ?_, ?_, ?_, ?_, ?_, ?_, ?_, ?_⟩
  · rw [w.size, w.nodeCount]
    exact hi.size
  · rw [w.nodeCount]
    exact hi.count
  · intro b hb
    rw [w.isBlock] at hb
    by_cases hne : b = a
    · rw [hne, hmark]
    · rw [(w.same hb hne).header]
      exact hi.mark b hb
  · rw [w.bottom]
    exact hi.bottom_mod
  · rw [w.bottom, w.size]
    exact hi.bottom_le
  · intro b hb hlow
    rw [w.isBlock] at hb
    rw [htags b hb]
    exact hi.permanent b hb (w.bottom ▸ hlow)
  · rw [w.bottom]
    exact hi.constants_le
  · intro i t ht
    rw [htags _ (hi.constant_inUse ht).toIsBlock]
    exact hi.constant i t ht
  · exact hi.free.imp fun _ hl => hl.writes ha w htag

/-- A node that is another one than the written one is as sound as before. -/
theorem NodeSound.writes {h k : Heap} {a b : Address} (hb : h.NodeSound b) (hblock : h.IsBlock b)
    (w : Writes h k a) (htag : k.tag a = h.tag a) (hne : b ≠ a) : k.NodeSound b := by
  refine hb.congr (w.same hblock hne) w.size fun i _ _ hchild => ?_
  by_cases heq : h.word b i = a
  · rw [heq, htag]
  · exact (w.same hchild.toIsBlock heq).tag

/-- Once the words of the node are what its kind requires, all nodes are. -/
theorem SoundBut.writes {h k : Heap} {a : Address} (hs : h.SoundBut a) (w : Writes h k a)
    (htag : k.tag a = h.tag a) (hmark : (k.header a).mark = 0) (hstring : k.tag a ≠ .string)
    (hnode : k.NodeSound a) : k.Sound where
  toIntact := hs.toIntact.writes hs.inUse w htag hmark
  toInterned := hs.toInternedBut.interned w.strings w.texts w.nextText w.size
    (fun _ hb hne => w.same hb hne) hstring
  typed := by
    intro b hb
    by_cases hne : b = a
    · exact hne ▸ hnode
    · have hb' : h.InUse b := (InUse.congr w.size (w.same (w.isBlock.1 hb.toIsBlock) hne).tag).1 hb
      exact (hs.typed b hb' hne).writes hb'.toIsBlock w htag hne
  building := by
    intro b hb
    have hin := hs.building b (w.building ▸ hb)
    by_cases hne : b = a
    · exact hne ▸ ⟨w.isBlock.2 hs.inUse.toIsBlock, htag ▸ hs.inUse.tag_ne⟩
    · exact (InUse.congr w.size (w.same hin.toIsBlock hne).tag).2 hin

/-! ## Sound steps -/

/-- A sound heap with all that was live. -/
structure Grows (h k : Heap) (roots : List Address) : Prop extends Keeps h k (h.Live roots) where
  /-- The nodes being built are the same. -/
  building : k.building = h.building
  /-- The heap is sound. -/
  sound : k.Sound

theorem Refilled.grows {h k : Heap} {roots : List Address} (r : Refilled h k roots) :
    Grows h k roots :=
  ⟨r.toKeeps, r.building, r.sound⟩

namespace Grows

variable {h k l : Heap} {roots : List Address}

theorem refl (hs : h.Sound) (roots : List Address) : Grows h h roots := ⟨.refl h _, rfl, hs⟩

theorem inUse (g : Grows h k roots) (hs : h.Sound) (hroots : ∀ a ∈ roots, h.InUse a) {a : Address}
    (ha : h.Live roots a) : k.InUse a :=
  g.toKeeps.inUse ha (hs.inUse_of_live hroots ha)

theorem inUse_root (g : Grows h k roots) (hroots : ∀ a ∈ roots, h.InUse a) {a : Address}
    (ha : a ∈ roots) : k.InUse a :=
  g.toKeeps.inUse (.root ha) (hroots a ha)

theorem live (g : Grows h k roots) (hs : h.Sound) (hroots : ∀ a ∈ roots, h.InUse a) {a : Address}
    (ha : h.Live roots a) : k.Live roots a :=
  ha.of_keeps hs g.sound.toIntact hroots g.toKeeps fun _ hb => g.building ▸ hb

theorem trans (first : Grows h k roots) (hs : h.Sound) (hroots : ∀ a ∈ roots, h.InUse a)
    (second : Grows k l roots) : Grows h l roots :=
  ⟨first.toKeeps.trans (second.toKeeps.mono fun _ ha => first.live hs hroots ha),
    second.building.trans first.building, second.sound⟩

end Grows

namespace Fresh

variable {h k l : Heap} {roots : List Address} {a n : Nat} {t : Tag}

theorem tag_self (f : Fresh h k roots a t n) : k.tag a = t := congrArg Header.tag f.header

theorem soundBut (f : Fresh h k roots a t n) (ht : t ≠ .free) : k.SoundBut a where
  toIntact := f.intact
  toInternedBut := f.texts
  inUse := ⟨f.isBlock, f.tag_self.symm ▸ ht⟩
  typed := fun b hb hne => (f.others b hb hne).1
  building := fun b hb => (f.held b hb).1

/-- A write into the fresh node that makes it what its kind requires leaves a sound heap. -/
theorem fill (f : Fresh h k roots a t n) (ht : t ≠ .free) (hstring : t ≠ .string)
    (w : Writes k l a) (htag : l.tag a = t) (hmark : (l.header a).mark = 0)
    (hnode : l.NodeSound a) : Grows h l roots where
  toKeeps := by
    have hne : ∀ b, h.Live roots b → b ≠ a := by
      rintro b hb rfl
      exact f.not_live hb
    refine ⟨w.size.trans f.toKeeps.size, w.bottom.trans f.bottom, ?_, ?_⟩
    · intro b hb
      exact (f.node b hb).trans (w.same (f.live b hb).toIsBlock (hne b hb))
    · intro b hb
      have same := w.same (f.live b hb).toIsBlock (hne b hb)
      rw [← f.text b hb, text?, text?, same.tag, same.word 1 (by decide) (by decide), w.texts]
  building := w.building.trans f.building
  sound := (f.soundBut ht).writes w (htag.trans f.tag_self.symm) hmark (htag ▸ hstring) hnode

end Fresh

end ChannelMachine.Heap

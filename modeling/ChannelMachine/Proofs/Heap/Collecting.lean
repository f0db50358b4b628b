import ChannelMachine.Proofs.Heap.Sweeping

/-!
# Collections

`Keeps h k nodes` says that the heap `k` has the same arena as `h`, and in it the same nodes and
texts at the addresses in `nodes`.  A collection keeps what is live, frees all other nodes, and
leaves a sound heap (`collected`).
-/

namespace ChannelMachine.Heap

/-! ## What is kept -/

/-- A heap with the same arena, and in it the same nodes at the given addresses. -/
structure Keeps (h k : Heap) (nodes : Address → Prop) : Prop where
  /-- The arena has its size. -/
  size : k.words.size = h.words.size
  /-- The permanent region is the same. -/
  bottom : k.bottom = h.bottom
  /-- The nodes are the same. -/
  node : ∀ a, nodes a → SameNode h k a
  /-- Their texts are the same. -/
  text : ∀ a, nodes a → k.text? a = h.text? a

namespace Keeps

variable {h k l : Heap} {nodes : Address → Prop}

theorem refl (h : Heap) (nodes : Address → Prop) : Keeps h h nodes :=
  ⟨rfl, rfl, fun a _ => .refl h a, fun _ _ => rfl⟩

theorem trans (first : Keeps h k nodes) (second : Keeps k l nodes) : Keeps h l nodes :=
  ⟨second.size.trans first.size, second.bottom.trans first.bottom,
    fun a ha => (first.node a ha).trans (second.node a ha),
    fun a ha => (second.text a ha).trans (first.text a ha)⟩

theorem mono {fewer : Address → Prop} (keeps : Keeps h k nodes)
    (hfewer : ∀ a, fewer a → nodes a) : Keeps h k fewer :=
  ⟨keeps.size, keeps.bottom, fun a ha => keeps.node a (hfewer a ha),
    fun a ha => keeps.text a (hfewer a ha)⟩

theorem isBlock (keeps : Keeps h k nodes) {a : Address} : k.IsBlock a ↔ h.IsBlock a :=
  IsBlock.congr keeps.size

theorem nodeCount (keeps : Keeps h k nodes) : k.nodeCount = h.nodeCount := by
  rw [Heap.nodeCount, Heap.nodeCount, keeps.size]

theorem tag (keeps : Keeps h k nodes) {a : Address} (ha : nodes a) : k.tag a = h.tag a :=
  (keeps.node a ha).tag

theorem inUse (keeps : Keeps h k nodes) {a : Address} (ha : nodes a) (hin : h.InUse a) :
    k.InUse a :=
  (InUse.congr keeps.size (keeps.tag ha)).2 hin

/-- A node that is kept keeps its children. -/
theorem mem_children (keeps : Keeps h k nodes) {a c : Nat} (ha : nodes a)
    (hrange : (h.header a).childRange.2 ≤ nodeSize) :
    c ∈ children k.words a ↔ c ∈ children h.words a := by
  have same := keeps.node a ha
  have hheader : Header.unpack (k.words.getD a 0) = Header.unpack (h.words.getD a 0) := same.header
  rw [Heap.mem_children, Heap.mem_children, hheader, keeps.size]
  refine and_congr_right fun _ => exists_congr fun i => ?_
  constructor
  · rintro ⟨hle, hlt, hsize, hc⟩
    have hpos := Header.one_le_childRange_fst (Nat.lt_of_le_of_lt hle hlt)
    refine ⟨hle, hlt, hsize, ?_⟩
    rw [← hc]
    exact (same.word i (Nat.le_trans hpos hle) (Nat.lt_of_lt_of_le hlt hrange)).symm
  · rintro ⟨hle, hlt, hsize, hc⟩
    have hpos := Header.one_le_childRange_fst (Nat.lt_of_le_of_lt hle hlt)
    refine ⟨hle, hlt, hsize, ?_⟩
    rw [← hc]
    exact same.word i (Nat.le_trans hpos hle) (Nat.lt_of_lt_of_le hlt hrange)

end Keeps

/-- What is live stays live in a heap that keeps it. -/
theorem Live.of_keeps {h k : Heap} (hs : h.Sound) (hi : k.Intact) {roots : List Address}
    (hroots : ∀ a ∈ roots, h.InUse a) (keeps : Keeps h k (h.Live roots))
    (hbuilding : ∀ a ∈ h.building, a ∈ k.building) {a : Nat} (ha : h.Live roots a) :
    k.Live roots a := by
  refine ha.elim hs.toIntact (fun _ hr => .root hr) (fun _ hb => .building (hbuilding _ hb)) ?_ ?_
  · intro b hmod hlt
    exact .permanent hi hmod (keeps.bottom ▸ hlt)
  · intro b c hb hc ih
    have hrange := (hs.typed b (hs.inUse_of_live hroots hb)).range
    exact .child ih ((keeps.mem_children hb hrange).2 hc)

/-- Heaps that are alike have the same nodes. -/
theorem Alike.keeps {h k : Heap} (alike : Alike h k) (nodes : Address → Prop) : Keeps h k nodes :=
  ⟨congrArg Array.size alike.words, alike.bottom, fun a _ => alike.same a,
    fun a _ => alike.text? a⟩

/-! ## Collections -/

theorem isMarked_word (h : Heap) (a : Address) :
    Header.isMarked (h.words.getD a 0) = ((h.header a).mark != 0) := rfl

/-- The nodes in use are what marking expects. -/
theorem Sound.unmarked {h : Heap} (hs : h.Sound) : Unmarked h.words h.InUse where
  aligned := fun _ ha => ha.aligned
  inside := fun _ ha => ha.inside
  range := fun a ha => (hs.typed a ha).range
  mark := by
    intro a ha
    rw [isMarked_word, hs.mark a ha.toIsBlock]
    rfl
  child := fun _ _ ha hc => hs.typed.inUse_child ha hc

/-- What a collection makes of a heap. -/
structure Collected (h k : Heap) (roots : List Address) : Prop extends
    Keeps h k (h.Live roots) where
  /-- The nodes being built are the same. -/
  building : k.building = h.building
  /-- The number of the next text is the same. -/
  nextText : k.nextText = h.nextText
  /-- The nodes that are not live are free. -/
  freed : ∀ a, h.IsBlock a → ¬ h.Live roots a → k.tag a = .free
  /-- The heap is sound. -/
  sound : k.Sound

/-- What is in use after a collection was live. -/
theorem Collected.live_of_inUse {h k : Heap} {roots : List Address} (c : Collected h k roots)
    {a : Nat} (ha : k.InUse a) : h.Live roots a :=
  Classical.byContradiction fun hnot =>
    ha.tag_ne (c.freed a (c.toKeeps.isBlock.1 ha.toIsBlock) hnot)

theorem Collected.alike {h k l : Heap} {roots : List Address} (c : Collected h k roots)
    (alike : Alike k l) (hbuilding : l.building = k.building) : Collected h l roots where
  toKeeps := c.toKeeps.trans (alike.keeps _)
  building := hbuilding.trans c.building
  nextText := alike.nextText.trans c.nextText
  freed := fun a ha hnot => (alike.tag a).trans (c.freed a ha hnot)
  sound := c.sound.alike alike fun a ha => c.sound.building a (hbuilding ▸ ha)

/-- The heap between marking and sweeping. -/
def marked (h : Heap) (roots : List Address) : Heap :=
  { h with
    words := mark h.words (h.permanentRoots.reverse ++ h.building ++ roots.reverse)
    free := noNode, freeCount := 0, lastFreed := 0 }

theorem nodeCount_marked (h : Heap) (roots : List Address) :
    (h.marked roots).nodeCount = h.nodeCount := by
  rw [nodeCount, nodeCount, marked, size_mark]

/-- The heap in which one collection more is counted and reported. -/
def counted (h : Heap) : Heap :=
  let h := { h with collections := h.collections + 1 }
  if h.tracing then { h with reports := h.reports ++ [h.stats] } else h

theorem counted_eq (h : Heap) :
    ∃ reports, h.counted = { h with collections := h.collections + 1, reports } := by
  unfold counted
  dsimp only
  split
  · exact ⟨_, rfl⟩
  · exact ⟨_, rfl⟩

theorem collect_eq (h : Heap) (roots : List Address) :
    h.collect roots = ((h.marked roots).sweep (h.marked roots).nodeCount).counted := rfl

/-- The state of the sweep when it starts, after marking. -/
theorem swept_start {h : Heap} {nodes : Address → Prop} (u : Unmarked h.words nodes)
    (hi : h.Interned) {roots : List Address} (hlive : ∀ a, h.Live roots a → nodes a) :
    Swept h (h.Live roots) (h.marked roots) h.nodeCount [] := by
  unfold Heap.marked
  have marked : Marked h.words
      (mark h.words (h.permanentRoots.reverse ++ h.building ++ roots.reverse)) (h.Live roots) :=
    mark_spec u fun a ha => hlive a (.pending ha)
  generalize mark h.words (h.permanentRoots.reverse ++ h.building ++ roots.reverse) = now at marked
  have hheader : ∀ a, h.Live roots a →
      Header.unpack (now.getD a 0) = { h.header a with mark := 1 } := by
    intro a ha
    rw [marked.mark a ha, Header.unpack_marked]
    rfl
  have hother : ∀ a, ¬ h.Live roots a → Header.unpack (now.getD a 0) = h.header a := by
    intro a ha
    rw [marked.other a ha]
    rfl
  have hword : ∀ a : Nat, h.IsBlock a → ∀ i, 1 ≤ i → i < nodeSize →
      now.getD (a + i) 0 = h.word a i := by
    intro a ha i hpos hlt
    refine marked.other _ fun hin => ?_
    have h1 := ha.mod
    have h2 : (a + i) % 10 = 0 := u.aligned _ (hlive _ hin)
    simp only [nodeSize] at hlt
    omega
  refine ⟨rfl, marked.size, hword, ?_, ?_, ?_, ?_, .nil, .nil, ?_, rfl, rfl, ?_, ?_, ?_⟩
  · intro i hlt hkept
    rw [if_pos hlt]
    exact hheader _ hkept
  · intro i _ hnot _
    exact hother _ hnot
  · intro i hlt _ _ hle
    exact absurd hlt (Nat.not_lt.2 hle)
  · intro i hlt hle
    exact absurd hlt (Nat.not_lt.2 hle)
  · intro i
    constructor
    · intro hmem
      cases hmem
    · rintro ⟨hle, hlt, _⟩
      exact absurd hlt (Nat.not_lt.2 hle)
  · refine hi.congr rfl rfl rfl marked.size ?_ ?_
    · intro a _
      by_cases hin : h.Live roots a
      · exact (congrArg Header.tag (hheader a hin) :)
      · exact congrArg Header.tag (hother a hin)
    · intro a ha _
      exact hword a ha 1 (by decide) (by decide)
  · exact fun t a => ⟨fun ht => ⟨ht, fun _ hi => absurd hi List.not_mem_nil⟩, And.left⟩
  · exact fun m t => ⟨fun ht => ⟨ht, fun _ hi => absurd hi List.not_mem_nil⟩, And.left⟩

/-- A collection sweeps the heap down to its start. -/
theorem exists_swept {h : Heap} {nodes : Address → Prop} (u : Unmarked h.words nodes)
    (hw : h.Whole) (hi : h.Interned) {roots : List Address} (hlive : ∀ a, h.Live roots a → nodes a) :
    ∃ k l reports, Swept h (h.Live roots) k 0 l ∧
      h.collect roots = { k with collections := k.collections + 1, reports } := by
  obtain ⟨l, s⟩ := swept_sweep hw h.nodeCount (Nat.le_refl _) (swept_start u hi hlive)
  obtain ⟨reports, heq⟩ := counted_eq ((h.marked roots).sweep h.nodeCount)
  exact ⟨_, l, reports, s, by rw [collect_eq, nodeCount_marked, heq]⟩

/-! ## The heap after a collection -/

section Swept

variable {h k : Heap} {roots : List Address} {l : List Nat} {a : Address} (hs : h.Sound)
  (hroots : ∀ a ∈ roots, h.InUse a) (s : Swept h (h.Live roots) k 0 l)
include hs s

/-- What is not live is behind the permanent region, and free. -/
theorem Sound.free_of_swept (ha : h.IsBlock a) (hnot : ¬ h.Live roots a) : k.tag a = .free :=
  (s.tag_mark ha hnot (Nat.not_lt.1 fun hlt => hnot (.permanent hs.toIntact ha.aligned hlt))).1

/-- What is in use was live. -/
theorem Sound.live_of_swept (ha : k.InUse a) : h.Live roots a :=
  Classical.byContradiction fun hnot =>
    ha.tag_ne (hs.free_of_swept s ((IsBlock.congr s.size).1 ha.toIsBlock) hnot)

include hroots

theorem Sound.same_of_swept (ha : h.Live roots a) : SameNode h k a :=
  s.same hs.toIntact.whole (hs.inUse_of_live hroots ha).toIsBlock (.inl ha)

theorem Sound.inUse_of_swept (ha : h.Live roots a) : k.InUse a :=
  (InUse.congr s.size (hs.same_of_swept hroots s ha).tag).2 (hs.inUse_of_live hroots ha)

/-- The free nodes are those that were not live. -/
theorem Sound.freeList_of_swept : FreeList k l where
  chain := s.chain
  sorted := s.sorted
  count := s.count
  mem_iff := by
    intro i hlt
    rw [s.nodeCount] at hlt
    have hb := isBlock_addressOf.2 hlt
    rw [s.mem_iff i]
    constructor
    · rintro ⟨_, _, _, hnot⟩
      exact hs.free_of_swept s hb hnot
    · intro htag
      have hnot : ¬ h.Live roots (addressOf i) := fun hin => (hs.inUse_of_swept hroots s hin).tag_ne htag
      exact ⟨Nat.zero_le i, hlt,
        Nat.not_lt.1 fun hlow => hnot (.permanent hs.toIntact hb.aligned hlow), hnot⟩

theorem Sound.intact_of_swept : k.Intact := by
  have hpermanent : ∀ a : Nat, h.IsBlock a → a < h.bottom → k.tag a = h.tag a := fun a ha hlt =>
    (hs.same_of_swept hroots s (.permanent hs.toIntact ha.aligned hlt)).tag
  obtain ⟨hsize, hcount, hmark⟩ := s.whole hs.toIntact.whole
  refine ⟨hsize, hcount, hmark, ?_, ?_, fun a ha hlt => ?_, ?_, fun i t ht => ?_, l,
    hs.freeList_of_swept hroots s⟩
  · rw [s.bottom]
    exact hs.bottom_mod
  · rw [s.bottom, s.size]
    exact hs.bottom_le
  · have hb := (IsBlock.congr s.size).1 ha
    rw [s.bottom] at hlt
    rw [hpermanent a hb hlt]
    exact hs.permanent a hb hlt
  · rw [s.bottom]
    exact hs.constants_le
  · have hlt : addressOf i < addressOf constants.length :=
      Nat.mul_lt_mul_of_pos_left (List.getElem?_eq_some_iff.1 ht).1 (by decide)
    rw [hpermanent _ (hs.constant_inUse ht).toIsBlock (Nat.lt_of_lt_of_le hlt hs.constants_le)]
    exact hs.constant i t ht

theorem Sound.typed_of_swept : k.Typed := by
  intro a ha
  have hla := hs.live_of_swept s ha
  have hin := hs.inUse_of_live hroots hla
  refine (hs.typed a hin).congr (hs.same_of_swept hroots s hla) s.size fun i hle hlt hchild => ?_
  exact (hs.same_of_swept hroots s (.child hla
    (mem_children_of_inUse hs.toIntact (hs.typed a hin) hin.toIsBlock hle hlt hchild))).tag

/-- What is live has the same text. -/
theorem Sound.text?_of_swept (ha : h.Live roots a) : k.text? a = h.text? a := by
  have same := hs.same_of_swept hroots s ha
  rw [text?, text?, same.tag, same.word 1 (by decide) (by decide)]
  split
  next htag =>
    obtain ⟨t, ht, -⟩ := s.interned.text a (hs.inUse_of_swept hroots s ha).toIsBlock (same.tag.trans htag)
    rw [same.word 1 (by decide) (by decide)] at ht
    rw [ht, ((s.texts _ _).1 ht).1]
  next => rfl

/-- The state of the sweep at its end is that of a sound heap in which the free nodes are those
that were not live. -/
theorem Sound.collected_of_swept : Collected h k roots where
  size := s.size
  bottom := s.bottom
  node := fun _ => hs.same_of_swept hroots s
  text := fun _ => hs.text?_of_swept hroots s
  building := s.building
  nextText := s.nextText
  freed := fun _ => hs.free_of_swept s
  sound := ⟨hs.intact_of_swept hroots s, s.interned, hs.typed_of_swept hroots s, fun _ ha =>
    hs.inUse_of_swept hroots s (.building (s.building ▸ ha))⟩

end Swept

/-- A collection keeps what is live and frees all other nodes. -/
theorem Sound.collected {h : Heap} (hs : h.Sound) {roots : List Address}
    (hroots : ∀ a ∈ roots, h.InUse a) : Collected h (h.collect roots) roots := by
  obtain ⟨k, l, reports, s, heq⟩ :=
    exists_swept hs.unmarked hs.toIntact.whole hs.toInterned fun a => hs.inUse_of_live hroots
  rw [heq]
  exact (hs.collected_of_swept hroots s).alike ⟨⟨rfl, rfl, rfl, rfl⟩, rfl, rfl, rfl⟩ rfl

end ChannelMachine.Heap

import ChannelMachine.Proofs.Heap.Initial

/-!
# Heaps that consist of nodes

A machine keeps its heap sound, but the collector does not ask for that much.  In a `Formed` heap the
children of all nodes are addresses of nodes, whatever those are and whether they are still in use.
Nodes may hold addresses of nodes that were freed long ago, and nodes may be free without being on the
list of free nodes.

`Shaped h but` is what is asked of the words of a heap.  The nodes in `but` are those that were just
taken into use and are not formed yet.
-/

namespace ChannelMachine.Heap

variable {h k : Heap} {a : Address} {but : Address → Prop} {l : List Nat}

/-! ## Nodes -/

/-- What is asked of a node. -/
structure NodeFormed (h : Heap) (a : Address) : Prop where
  /-- Its children are inside of its block. -/
  range : (h.header a).childRange.2 ≤ nodeSize
  /-- They are nodes.  Channels also have vacant slots. -/
  child : ∀ i, (h.header a).childRange.1 ≤ i → i < (h.header a).childRange.2 →
    (h.tag a = .channel ∧ h.word a i = vacant) ∨ h.IsBlock (h.word a i)
  /-- The indices of a channel are those of slots. -/
  ring : h.tag a = .channel → h.size a = ringStart + h.channelSlots a ∧
    h.writeSlot a < h.channelSlots a ∧ h.readSlot a < h.channelSlots a
  /-- The counter of a wait-group is a number, if there is one. -/
  counter : h.tag a = .waitGroup →
    h.tag (h.word a 1) = .number ∨ h.tag (h.word a 1) = .unassigned

/-- A node without children is formed. -/
theorem NodeFormed.of_leaf (hrange : (h.header a).childRange = (0, 0)) (hchannel : h.tag a ≠ .channel)
    (hgroup : h.tag a ≠ .waitGroup) : h.NodeFormed a where
  range := by simp [hrange]
  child := fun i _ hlt => by simp [hrange] at hlt
  ring := fun htag => absurd htag hchannel
  counter := fun htag => absurd htag hgroup

theorem NodeFormed.of_free (hfree : h.tag a = .free) : h.NodeFormed a := by
  refine .of_leaf ?_ ?_ ?_
  · rw [childRange_of_tag hfree]
    rfl
  all_goals
    rw [hfree]
    decide

/-- Sound nodes are formed. -/
theorem NodeSound.formed (hn : h.NodeSound a) : h.NodeFormed a where
  range := hn.range
  child := fun i hle hlt => (hn.child i hle hlt).imp_right fun hin => hin.1.toIsBlock
  ring := hn.ring
  counter := by
    intro htag
    have hrange : (h.header a).childRange = (1, 2) := childRange_of_tag htag
    rcases hn.child 1 (Nat.le_of_eq (congrArg Prod.fst hrange)) (by rw [hrange]; decide) with ⟨heq, -⟩ | ⟨-, hadmits⟩
    · exact absurd (htag.symm.trans heq) (by decide)
    · rw [htag] at hadmits
      exact .inl hadmits

/-- The counter of a wait-group is a node. -/
theorem NodeFormed.isBlock_counter (hn : h.NodeFormed a) (htag : h.tag a = .waitGroup) :
    h.IsBlock (h.word a 1) := by
  have hrange : (h.header a).childRange = (1, 2) := childRange_of_tag htag
  have hchild := hn.child 1 (Nat.le_of_eq (congrArg Prod.fst hrange)) (by rw [hrange]; decide)
  exact hchild.resolve_left fun h => absurd (htag.symm.trans h.1) (by decide)

/-- The same node is formed, if its counter is of the same kind. -/
theorem NodeFormed.congr (hn : h.NodeFormed a) (same : SameNode h k a)
    (hsize : k.words.size = h.words.size)
    (hcounter : h.tag a = .waitGroup → k.tag (h.word a 1) = h.tag (h.word a 1)) :
    k.NodeFormed a where
  range := same.header ▸ hn.range
  child := by
    intro i hle hlt
    rw [same.header] at hle hlt
    have hpos := Header.one_le_childRange_fst (Nat.lt_of_le_of_lt hle hlt)
    rw [same.tag, same.word i (Nat.le_trans hpos hle) (Nat.lt_of_lt_of_le hlt hn.range),
      IsBlock.congr hsize]
    exact hn.child i hle hlt
  ring := by
    intro htag
    rw [same.size, channelSlots, writeSlot, readSlot, same.word 1 (by decide) (by decide),
      same.word 2 (by decide) (by decide), same.word 3 (by decide) (by decide)]
    exact hn.ring (same.tag ▸ htag)
  counter := by
    intro htag
    rw [same.tag] at htag
    rw [same.word 1 (by decide) (by decide), hcounter htag]
    exact hn.counter htag

/-! ## The list of free nodes -/

/-- The list of free nodes, in ascending order.  There may be other nodes that are free. -/
structure FreeNodes (h : Heap) (l : List Nat) : Prop where
  /-- They are linked. -/
  chain : Chain h h.free l
  /-- They are in ascending order. -/
  sorted : l.Pairwise (· < ·)
  /-- They are not permanent. -/
  behind : ∀ i ∈ l, h.bottom ≤ addressOf i
  /-- They are free. -/
  tag : ∀ i ∈ l, h.tag (addressOf i) = .free
  /-- They are counted. -/
  count : h.freeCount = l.length

namespace FreeNodes

/-- Only the headers of its nodes count. -/
theorem congr (hl : FreeNodes h l) (hfree : k.free = h.free) (hcount : k.freeCount = h.freeCount)
    (hbottom : k.bottom = h.bottom) (hnodes : k.nodeCount = h.nodeCount)
    (hheader : ∀ i ∈ l, k.header (addressOf i) = h.header (addressOf i)) : FreeNodes k l where
  chain := by
    rw [hfree]
    exact hl.chain.congr hnodes fun i hi => congrArg Header.payload (hheader i hi)
  sorted := hl.sorted
  behind := hbottom ▸ hl.behind
  tag := fun i hi => (congrArg Header.tag (hheader i hi)).trans (hl.tag i hi)
  count := hcount.trans hl.count

/-- The first free node is the first of the list. -/
theorem exists_rest (hl : FreeNodes h l) (hfree : h.free ≠ noNode) :
    ∃ rest, l = h.free.toNat :: rest ∧ Chain h (h.payload (addressOf h.free.toNat)) rest := by
  have hchain := hl.chain
  generalize h.free = first at hchain hfree
  cases hchain with
  | nil => exact absurd rfl hfree
  | cons _ hrest => exact ⟨_, rfl, hrest⟩

/-- Without the first free node the list is what is behind it. -/
theorem unlink (hl : FreeNodes h l) (hfree : h.free ≠ noNode) :
    ∃ rest, l = h.free.toNat :: rest ∧ FreeNodes (h.unlink (addressOf h.free.toNat)) rest ∧
      ∀ i ∈ rest, h.free.toNat < i := by
  obtain ⟨rest, rfl, hchain⟩ := hl.exists_rest hfree
  have hsorted := List.pairwise_cons.1 hl.sorted
  have hcount : h.freeCount - 1 = rest.length := by
    rw [hl.count, List.length_cons, Nat.add_sub_cancel]
  have hlinked : Chain (h.unlink (addressOf h.free.toNat)) (h.payload (addressOf h.free.toNat)) rest :=
    Chain.congr (h := h) (k := h.unlink (addressOf h.free.toNat)) rfl hchain fun _ _ => rfl
  exact ⟨rest, rfl, ⟨hlinked, hsorted.2, fun i hi => hl.behind i (List.mem_cons_of_mem _ hi),
    fun i hi => hl.tag i (List.mem_cons_of_mem _ hi), hcount⟩, hsorted.1⟩

/-- A node in front of all of them becomes the first. -/
theorem release (hl : FreeNodes h l) (hcount : h.nodeCount ≤ noNode.toNat) {i : Nat}
    (hi : i < h.nodeCount) (hbehind : h.bottom ≤ addressOf i) (hfirst : ∀ j ∈ l, i < j) :
    FreeNodes (h.release (addressOf i)) (i :: l) := by
  have hb := isBlock_addressOf.2 hi
  have w := writes_release hb
  have hnot : i ∉ l := fun hmem => Nat.lt_irrefl i (hfirst i hmem)
  have hother : ∀ j ∈ l, (h.release (addressOf i)).header (addressOf j) = h.header (addressOf j) := by
    intro j hj
    rw [header_release hb (isBlock_addressOf.2 (hl.chain.lt j hj)), if_neg]
    rintro heq
    exact hnot (addressOf_inj heq ▸ hj)
  refine ⟨hl.chain.release hcount hi hnot, List.pairwise_cons.2 ⟨hfirst, hl.sorted⟩, ?_, ?_, ?_⟩
  · rw [w.bottom]
    exact List.forall_mem_cons.2 ⟨hbehind, hl.behind⟩
  · refine List.forall_mem_cons.2 ⟨?_, fun j hj => (congrArg Header.tag (hother j hj)).trans (hl.tag j hj)⟩
    rw [Heap.tag, header_release hb hb, if_pos rfl]
  · rw [w.freeCount, List.length_cons, ← hl.count]
    rfl

/-- The permanent region ends at the first free node after a seal, and otherwise at the end of the arena. -/
theorem sealAll_cases (hl : FreeNodes h l) (hcount : h.nodeCount ≤ noNode.toNat) :
    (l = [] ∧ h.sealAll.bottom = h.words.size) ∨
      ∃ i rest, l = i :: rest ∧ i < h.nodeCount ∧ h.sealAll.bottom = addressOf i := by
  unfold Heap.sealAll
  by_cases hfree : h.free = noNode
  · exact .inl ⟨(hfree ▸ hl.chain).eq_nil hcount, if_pos hfree⟩
  · obtain ⟨rest, rfl, -⟩ := hl.exists_rest hfree
    exact .inr ⟨_, rest, rfl, hl.chain.lt _ (List.mem_cons_self ..), if_neg hfree⟩

/-- A seal leaves the list of free nodes. -/
theorem sealAll (hl : FreeNodes h l) (hcount : h.nodeCount ≤ noNode.toNat) : FreeNodes h.sealAll l where
  chain := Chain.congr (h := h) (k := h.sealAll) rfl hl.chain fun _ _ => rfl
  sorted := hl.sorted
  behind := by
    intro i hi
    rcases hl.sealAll_cases hcount with ⟨rfl, -⟩ | ⟨j, rest, rfl, -, hbottom⟩
    · cases hi
    rw [hbottom]
    refine Nat.mul_le_mul_left _ ?_
    rcases List.mem_cons.1 hi with rfl | hi
    · exact Nat.le_refl _
    · exact Nat.le_of_lt ((List.pairwise_cons.1 hl.sorted).1 i hi)
  tag := hl.tag
  count := hl.count

/-- The permanent region never becomes smaller. -/
theorem bottom_le_sealAll (hl : FreeNodes h l) (hcount : h.nodeCount ≤ noNode.toNat)
    (hle : h.bottom ≤ h.words.size) : h.bottom ≤ h.sealAll.bottom := by
  rcases hl.sealAll_cases hcount with ⟨-, hbottom⟩ | ⟨i, rest, rfl, -, hbottom⟩
  · rw [hbottom]
    exact hle
  · rw [hbottom]
    exact hl.behind i (List.mem_cons_self ..)

end FreeNodes

/-! ## Shaped heaps -/

/-- What is asked of the words of a heap, but for some nodes. -/
structure Shaped (h : Heap) (but : Address → Prop) : Prop extends Whole h where
  /-- The header of a node is one that was written. -/
  packed : ∀ a, h.IsBlock a → h.word a 0 = (h.header a).pack
  /-- The permanent region consists of whole nodes. -/
  bottom_mod : h.bottom % nodeSize = 0
  /-- It is inside of the arena. -/
  bottom_le : h.bottom ≤ h.words.size
  /-- The constants are permanent. -/
  constants_le : addressOf constants.length ≤ h.bottom
  /-- What variables hold that are not assigned. -/
  unassigned : h.tag unassigned = .unassigned
  /-- What is being built are nodes. -/
  building : ∀ a ∈ h.building, h.IsBlock a
  /-- The free nodes are linked. -/
  free : ∃ l, FreeNodes h l ∧ ∀ i ∈ l, ¬ but (addressOf i)
  /-- The nodes are formed. -/
  formed : ∀ a, h.IsBlock a → ¬ but a → h.NodeFormed a

/-- What every heap satisfies, whatever it is used for. -/
structure Formed (h : Heap) : Prop extends Shaped h (fun _ => False), Interned h

/-- All nodes but one are formed. -/
structure FormedBut (h : Heap) (a : Address) : Prop extends Shaped h (· = a), InternedBut h a where
  /-- It is a node, too. -/
  isBlock : h.IsBlock a

namespace Shaped

theorem nodeFormed (hs : h.Shaped fun _ => False) (ha : h.IsBlock a) : h.NodeFormed a :=
  hs.formed a ha id

theorem isBlock_unassigned (hs : h.Shaped but) : h.IsBlock Heap.unassigned := by
  have hle := Nat.le_trans hs.constants_le hs.bottom_le
  refine hs.isBlock_of_lt (addressOf_mod 3) (Nat.lt_of_lt_of_le ?_ hle)
  decide

/-- The permanent roots are the permanent nodes that are in use. -/
theorem mem_permanentRoots (hs : h.Shaped but) {a : Nat} :
    a ∈ h.permanentRoots ↔ h.IsBlock a ∧ a < h.bottom ∧ h.tag a ≠ .free := by
  have hmod := hs.bottom_mod
  simp only [permanentRoots, List.mem_filter, List.mem_map, List.mem_range, decide_eq_true_eq]
  constructor
  · rintro ⟨⟨i, hlt, rfl⟩, hfree⟩
    have hlt : addressOf i < h.bottom := by
      simp only [Address, addressOf, nodeSize] at hlt hmod ⊢
      omega
    exact ⟨hs.isBlock_of_lt (addressOf_mod i) (Nat.lt_of_lt_of_le hlt hs.bottom_le), hlt, hfree⟩
  · rintro ⟨hb, hlt, hfree⟩
    refine ⟨⟨a / nodeSize, ?_, addressOf_div hb.aligned⟩, hfree⟩
    have ha := hb.aligned
    simp only [Address, nodeSize] at ha hmod ⊢
    omega

/-- Only the arena and the nodes being built count. -/
theorem congr (hs : h.Shaped but) (arena : SameArena h k) (hbuilding : ∀ b ∈ k.building, h.IsBlock b) :
    k.Shaped but where
  size := by
    rw [arena.nodeCount, arena.words]
    exact hs.size
  count := arena.nodeCount ▸ hs.count
  mark := by
    intro b hb
    rw [arena.header]
    exact hs.mark b (arena.isBlock.1 hb)
  packed := by
    intro b hb
    rw [arena.word, arena.header]
    exact hs.packed b (arena.isBlock.1 hb)
  bottom_mod := arena.bottom ▸ hs.bottom_mod
  bottom_le := by
    rw [arena.bottom, arena.words]
    exact hs.bottom_le
  constants_le := arena.bottom ▸ hs.constants_le
  unassigned := (arena.tag _).trans hs.unassigned
  building := fun b hb => arena.isBlock.2 (hbuilding b hb)
  free := hs.free.imp fun _ hl => ⟨hl.1.congr arena.free arena.freeCount arena.bottom
    arena.nodeCount fun i _ => arena.header _, hl.2⟩
  formed := fun b hb hbut => (hs.formed b (arena.isBlock.1 hb) hbut).congr (arena.same b) arena.size
    fun _ => arena.tag _

/-- A node that is written to and not free is not on the list. -/
theorem off_list (hs : h.Shaped but) (hfree : h.tag a ≠ .free) :
    ∃ l, FreeNodes h l ∧ ∀ i ∈ l, addressOf i ≠ a := by
  obtain ⟨l, hl, -⟩ := hs.free
  refine ⟨l, hl, ?_⟩
  rintro i hi rfl
  exact hfree (hl.tag i hi)

/-- A write into a node that is not on the list of free nodes leaves a shaped heap, if it leaves the
kind of the node, unless the node was free. -/
theorem writes {but' : Address → Prop} (hs : h.Shaped but) (hbut : ∀ b, but b → b = a)
    (hbut' : ∀ b, but' b → b = a) (ha : h.IsBlock a)
    (hoff : ∃ l, FreeNodes h l ∧ ∀ i ∈ l, addressOf i ≠ a) (w : Writes h k a)
    (htag : h.tag a = .free ∨ k.tag a = h.tag a) (hmark : (k.header a).mark = 0)
    (hpacked : k.word a 0 = (k.header a).pack) (hnode : ¬ but' a → k.NodeFormed a) :
    k.Shaped but' := by
  have htags : ∀ b, h.IsBlock b → h.tag b ≠ .free → k.tag b = h.tag b := by
    intro b hb hfree
    by_cases hne : b = a
    · subst hne
      exact htag.resolve_left hfree
    · exact (w.same hb hne).tag
  refine ⟨⟨?_, ?_, ?_⟩, ?_, ?_, ?_, ?_, ?_, ?_, ?_, ?_⟩
  · rw [w.size, w.nodeCount]
    exact hs.size
  · rw [w.nodeCount]
    exact hs.count
  · intro b hb
    by_cases hne : b = a
    · rw [hne, hmark]
    · rw [(w.same (w.isBlock.1 hb) hne).header]
      exact hs.mark b (w.isBlock.1 hb)
  · intro b hb
    by_cases hne : b = a
    · rw [hne, hpacked]
    · rw [w.other b (w.isBlock.1 hb) hne 0 (by decide), (w.same (w.isBlock.1 hb) hne).header]
      exact hs.packed b (w.isBlock.1 hb)
  · rw [w.bottom]
    exact hs.bottom_mod
  · rw [w.bottom, w.size]
    exact hs.bottom_le
  · rw [w.bottom]
    exact hs.constants_le
  · refine (htags _ hs.isBlock_unassigned ?_).trans hs.unassigned
    rw [hs.unassigned]
    decide
  · exact fun b hb => w.isBlock.2 (hs.building b (w.building ▸ hb))
  · obtain ⟨l, hl, hne⟩ := hoff
    refine ⟨l, hl.congr w.free w.freeCount w.bottom w.nodeCount fun i hi => ?_,
      fun i hi h => hne i hi (hbut' _ h)⟩
    exact (w.same (isBlock_addressOf.2 (hl.chain.lt i hi)) (hne i hi)).header
  · intro b hb hnot
    by_cases hne : b = a
    · subst hne
      exact hnode hnot
    · have hb' := w.isBlock.1 hb
      have hn := hs.formed b hb' fun h => hne (hbut b h)
      refine hn.congr (w.same hb' hne) w.size fun hgroup => ?_
      refine htags _ (hn.isBlock_counter hgroup) ?_
      rcases hn.counter hgroup with heq | heq
      all_goals
        rw [heq]
        decide

end Shaped

theorem Formed.alike (hf : h.Formed) (alike : Alike h k)
    (hbuilding : ∀ b ∈ k.building, h.IsBlock b) : k.Formed where
  toShaped := hf.toShaped.congr alike.toSameArena hbuilding
  toInterned := hf.toInterned.alike alike

/-- A write into a node that is not free leaves a formed heap, if it leaves the kind and the text of
the node and makes it formed. -/
theorem Formed.writes (hf : h.Formed) (ha : h.IsBlock a) (hfree : h.tag a ≠ .free)
    (w : Writes h k a) (htag : k.tag a = h.tag a) (hmark : (k.header a).mark = 0)
    (hpacked : k.word a 0 = (k.header a).pack)
    (hword : h.tag a = .string → k.word a 1 = h.word a 1) (hnode : k.NodeFormed a) : k.Formed where
  toShaped := hf.toShaped.writes (fun _ h => h.elim) (fun _ h => h.elim) ha (hf.off_list hfree) w
    (.inr htag) hmark hpacked fun _ => hnode
  toInterned := by
    refine hf.toInterned.congr w.strings w.texts w.nextText w.size (fun b hb => ?_) fun b hb hs => ?_
    all_goals by_cases hne : b = a
    · rw [hne, htag]
    · exact (w.same hb hne).tag
    · exact hne ▸ hword (htag.symm.trans (hne ▸ hs))
    · exact (w.same hb hne).word 1 (by decide) (by decide)

/-- A node stays formed if the word that is written behind its header is one that it admits. -/
theorem NodeFormed.setWord {i w : Nat} (hn : h.NodeFormed a) (ha : h.IsBlock a) (hpos : 1 ≤ i)
    (hlt : i < nodeSize)
    (hchild : (h.header a).childRange.1 ≤ i → i < (h.header a).childRange.2 →
      (h.tag a = .channel ∧ w = vacant) ∨ h.IsBlock w)
    (hring : h.tag a = .channel → i ≠ 1 ∧ (i = 2 ∨ i = 3 → w < h.channelSlots a))
    (hgroup : h.tag a = .waitGroup → h.tag w = .number ∨ h.tag w = .unassigned) :
    (h.setWord a i w).NodeFormed a := by
  have hw := writes_setWord ha hlt w
  have hheader : ∀ {b}, h.IsBlock b → (h.setWord a i w).header b = h.header b := fun hb =>
    header_setWord ha hb hpos hlt w
  have htag : ∀ {b}, h.IsBlock b → (h.setWord a i w).tag b = h.tag b := fun hb =>
    congrArg Header.tag (hheader hb)
  have hword : ∀ j, j < nodeSize →
      (h.setWord a i w).word a j = if j = i then w else h.word a j := by
    intro j hj
    rw [word_setWord_block ha ha hlt hj]
    simp
  refine ⟨?_, ?_, ?_, ?_⟩
  · rw [hheader ha]
    exact hn.range
  · intro j hle hlt'
    rw [hheader ha] at hle hlt'
    rw [htag ha, hword j (Nat.lt_of_lt_of_le hlt' hn.range), hw.isBlock]
    by_cases hji : j = i
    · rw [if_pos hji]
      exact hchild (hji ▸ hle) (hji ▸ hlt')
    · rw [if_neg hji]
      exact hn.child j hle hlt'
  · intro hchannel
    rw [htag ha] at hchannel
    obtain ⟨hone, hindex⟩ := hring hchannel
    obtain ⟨hsize, hwrite, hread⟩ := hn.ring hchannel
    have hslots : (h.setWord a i w).channelSlots a = h.channelSlots a := by
      rw [channelSlots, hword 1 (by decide), if_neg fun heq => hone heq.symm]
      rfl
    rw [hslots]
    refine ⟨?_, ?_, ?_⟩
    · rw [Heap.size, hheader ha]
      exact hsize
    · rw [writeSlot, hword 2 (by decide)]
      split
      next heq => exact hindex (.inl heq.symm)
      next => exact hwrite
    · rw [readSlot, hword 3 (by decide)]
      split
      next heq => exact hindex (.inr heq.symm)
      next => exact hread
  · intro htag'
    rw [htag ha] at htag'
    have hrange : (h.header a).childRange = (1, 2) := childRange_of_tag htag'
    rw [hword 1 (by decide)]
    split
    next heq =>
      have hb := (hchild (heq ▸ Nat.le_of_eq (congrArg Prod.fst hrange))
        (by rw [hrange, ← heq]; decide)).resolve_left fun h => absurd (htag'.symm.trans h.1) (by decide)
      rw [htag hb]
      exact hgroup htag'
    next =>
      rw [htag (hn.isBlock_counter htag')]
      exact hn.counter htag'

/-- Behind its header a node that is neither free nor a string takes any word that it admits. -/
theorem Formed.setWord {i w : Nat} (hf : h.Formed) (ha : h.IsBlock a) (hfree : h.tag a ≠ .free)
    (hstring : h.tag a ≠ .string) (hpos : 1 ≤ i) (hlt : i < nodeSize)
    (hchild : (h.header a).childRange.1 ≤ i → i < (h.header a).childRange.2 →
      (h.tag a = .channel ∧ w = vacant) ∨ h.IsBlock w)
    (hring : h.tag a = .channel → i ≠ 1 ∧ (i = 2 ∨ i = 3 → w < h.channelSlots a))
    (hgroup : h.tag a = .waitGroup → h.tag w = .number ∨ h.tag w = .unassigned) :
    (h.setWord a i w).Formed := by
  have hheader := header_setWord ha ha hpos hlt w
  refine hf.writes ha hfree (writes_setWord ha hlt w) (congrArg Header.tag hheader) ?_ ?_
    (fun h => absurd h hstring) ((hf.nodeFormed ha).setWord ha hpos hlt hchild hring hgroup)
  · rw [hheader]
    exact hf.mark a ha
  · rw [hheader, word_setWord_block ha ha hlt (by decide), if_neg (by omega)]
    exact hf.packed a ha

/-- A node that is not free takes any payload. -/
theorem Formed.setPayload (hf : h.Formed) (ha : h.IsBlock a) (hfree : h.tag a ≠ .free)
    (payload : UInt32) : (h.setPayload a payload).Formed := by
  have hheader := header_setPayload ha payload
  have hw := writes_setPayload ha payload
  have hword : ∀ i, 1 ≤ i → i < nodeSize → (h.setPayload a payload).word a i = h.word a i :=
    fun i hpos hlt => word_setHeader ha ha hpos hlt _
  have htag : (h.setPayload a payload).tag a = h.tag a := (congrArg Header.tag hheader :)
  have hn := hf.nodeFormed ha
  refine hf.writes ha hfree hw htag ?_ (packed_setHeader ha ha _ fun hne => absurd rfl hne)
    (fun _ => hword 1 (by decide) (by decide)) ⟨?_, ?_, ?_, ?_⟩
  · rw [hheader]
    exact hf.mark a ha
  · rw [hheader]
    exact hn.range
  · intro i hle hlt
    rw [hheader] at hle hlt
    have hpos := Header.one_le_childRange_fst (Nat.lt_of_le_of_lt hle hlt)
    rw [htag, hword i (Nat.le_trans hpos hle) (Nat.lt_of_lt_of_le hlt hn.range), hw.isBlock]
    exact hn.child i hle hlt
  · intro hchannel
    rw [Heap.size, hheader, channelSlots, writeSlot, readSlot, hword 1 (by decide) (by decide),
      hword 2 (by decide) (by decide), hword 3 (by decide) (by decide)]
    exact hn.ring (htag ▸ hchannel)
  · intro hgroup
    rw [htag] at hgroup
    have hcounter := hn.isBlock_counter hgroup
    rw [hword 1 (by decide) (by decide), Heap.tag, Heap.setPayload, header_setHeader ha hcounter]
    split
    next heq => exact heq ▸ hn.counter hgroup
    next => exact hn.counter hgroup

/-- A fresh node that is written to leaves a formed heap, if it is formed then. -/
theorem FormedBut.fill (hf : h.FormedBut a) (w : Writes h k a) (htag : k.tag a = h.tag a)
    (hmark : (k.header a).mark = 0) (hpacked : k.word a 0 = (k.header a).pack)
    (hstring : h.tag a ≠ .string) (hnode : k.NodeFormed a) : k.Formed where
  toShaped := hf.toShaped.writes (fun _ => id) (fun _ h => h.elim) hf.isBlock hf.free w (.inr htag)
    hmark hpacked fun _ => hnode
  toInterned := hf.toInternedBut.interned w.strings w.texts w.nextText w.size
    (fun _ hb hne => w.same hb hne) (htag ▸ hstring)

/-! ## Sound heaps are formed -/

theorem Sound.formed (hs : h.Sound) (hpacked : ∀ a, h.IsBlock a → h.word a 0 = (h.header a).pack) :
    h.Formed where
  toWhole := hs.toIntact.whole
  packed := hpacked
  bottom_mod := hs.bottom_mod
  bottom_le := hs.bottom_le
  constants_le := hs.constants_le
  unassigned := hs.tag_unassigned
  building := fun a ha => (hs.building a ha).toIsBlock
  free := by
    obtain ⟨l, hl⟩ := hs.free
    have hfree : ∀ i ∈ l, h.tag (addressOf i) = .free := fun i hi =>
      (hl.mem_iff i (hl.chain.lt i hi)).1 hi
    refine ⟨l, ⟨hl.chain, hl.sorted, fun i hi => ?_, hfree, hl.count⟩, fun _ _ => id⟩
    refine Nat.not_lt.1 fun hlt => ?_
    exact hs.permanent _ (isBlock_addressOf.2 (hl.chain.lt i hi)) hlt (hfree i hi)
  formed := by
    intro a ha _
    by_cases hfree : h.tag a = .free
    · exact .of_free hfree
    · exact (hs.typed a ⟨ha, hfree⟩).formed
  toInterned := hs.toInterned

/-- A new heap is formed. -/
theorem formed_of_create {words : Nat} (hcreate : create words = .ok h) : h.Formed := by
  have hh := initial_of_create hcreate
  refine hh.sound.formed fun a ha => ?_
  obtain ⟨i, hi, rfl⟩ := hh.isBlock_iff.1 ha
  have hlt : addressOf i < nodeSize * min (words / nodeSize) noNode.toNat :=
    Nat.mul_lt_mul_of_pos_left hi (by decide)
  rw [header_initial hh.words hi, word, hh.words, Nat.add_zero, getD_initialWords hlt,
    if_pos (addressOf_mod i), div_addressOf]

/-! ## Fresh nodes -/

/-- The first free node off the list is a free node like any other. -/
theorem Formed.unlink (hf : h.Formed) (hfree : h.free ≠ noNode) :
    (h.unlink (addressOf h.free.toNat)).Formed ∧ h.IsBlock (addressOf h.free.toNat) ∧
      h.tag (addressOf h.free.toNat) = .free ∧
      ∃ l, FreeNodes (h.unlink (addressOf h.free.toNat)) l ∧
        ∀ i ∈ l, addressOf i ≠ addressOf h.free.toNat := by
  obtain ⟨l, hl, -⟩ := hf.free
  obtain ⟨rest, rfl, hrest, hbehind⟩ := hl.unlink hfree
  have hlt := hl.chain.lt _ (List.mem_cons_self ..)
  have hblock : ∀ {b : Nat}, (h.unlink (addressOf h.free.toNat)).IsBlock b ↔ h.IsBlock b :=
    IsBlock.congr (k := h.unlink _) (h := h) rfl
  have hshaped : (h.unlink (addressOf h.free.toNat)).Shaped fun _ => False :=
    ⟨⟨hf.size, hf.count, fun b hb => hf.mark b (hblock.1 hb)⟩,
      fun b hb => hf.packed b (hblock.1 hb), hf.bottom_mod, hf.bottom_le, hf.constants_le,
      hf.unassigned, fun b hb => hblock.2 (hf.building b hb), ⟨rest, hrest, fun _ _ => id⟩,
      fun b hb _ => (hf.nodeFormed (hblock.1 hb)).congr ⟨rfl, fun _ _ _ => rfl⟩ rfl fun _ => rfl⟩
  refine ⟨⟨hshaped, hf.toInterned.congr rfl rfl rfl rfl (fun _ _ => rfl) fun _ _ _ => rfl⟩,
    isBlock_addressOf.2 hlt, hl.tag _ (List.mem_cons_self ..), rest, hrest, fun i hi heq => ?_⟩
  exact Nat.lt_irrefl _ (addressOf_inj heq ▸ hbehind i hi)

/-- The heap after a free node was taken into use.  All else is as it was. -/
structure Renewed (h k : Heap) (a : Address) (t : Tag) (n : Nat) : Prop extends FormedBut k a where
  /-- The node was free. -/
  wasFree : h.tag a = .free
  /-- Its header. -/
  header : k.header a = .fresh t n
  /-- Its words. -/
  filled : ∀ i, 1 ≤ i → i < n → k.word a i = Heap.unassigned
  /-- The other nodes are as they were. -/
  same : ∀ b, h.IsBlock b → b ≠ a → SameNode h k b
  /-- The arena has its size. -/
  arena : k.words.size = h.words.size
  /-- The nodes being built are the same. -/
  keeps : k.building = h.building
  /-- The texts are the same. -/
  strings : k.strings = h.strings

theorem Formed.renewed (hf : h.Formed) (hfree : h.free ≠ noNode) (t : Tag) {n : Nat} (hpos : 1 ≤ n)
    (hle : n ≤ nodeSize) :
    Renewed h ((h.unlink (addressOf h.free.toNat)).renew (addressOf h.free.toNat) t n)
      (addressOf h.free.toNat) t n := by
  obtain ⟨hunlink, hb, htag, hoff⟩ := hf.unlink hfree
  generalize addressOf h.free.toNat = a at *
  have hbase : (h.unlink a).IsBlock a := ⟨hb.aligned, hb.inside⟩
  have w := writes_renew hbase t hpos hle
  have hheader := header_renew hbase t hpos hle
  have hpacked : ((h.unlink a).renew a t n).word a 0 = (((h.unlink a).renew a t n).header a).pack := by
    have first := writes_setHeader hbase (.fresh t n)
    have hlen : 1 + (List.replicate (n - 1) Heap.unassigned).length ≤ nodeSize := by
      rw [List.length_replicate]
      omega
    rw [hheader, renew, word_setWords_block _ (first.isBlock.2 hbase) (first.isBlock.2 hbase) hlen
      (by decide), if_neg (by omega), setHeader,
      word_setWord_block hbase hbase (by decide) (by decide), if_pos ⟨rfl, rfl⟩]
  have hsame : ∀ b, h.IsBlock b → b ≠ a → SameNode h ((h.unlink a).renew a t n) b :=
    fun b hbb hne => .of_word (w.other b ⟨hbb.aligned, hbb.inside⟩ hne)
  exact {
    toShaped := hunlink.toShaped.writes (fun _ h => h.elim) (fun _ => id) hbase hoff w (.inl htag)
      (by rw [hheader]; rfl) hpacked fun h => absurd rfl h
    toInternedBut := (hunlink.toInterned.but (show h.tag a ≠ .string by rw [htag]; decide)).others
      w.strings w.texts w.nextText w.size fun b hbb hne => w.same hbb hne
    isBlock := w.isBlock.2 hbase
    wasFree := htag
    header := hheader
    filled := fun i hi hlt => word_renew hbase t hi hlt hle
    same := hsame
    arena := w.size
    keeps := w.building
    strings := w.strings }

end ChannelMachine.Heap

import ChannelMachine.Proofs.Heap.Operating
import Mathlib.Logic.Relation

/-!
# What a seal makes permanent

A seal moves the end of the permanent region to the first free node.  So the nodes in front of that node
are permanent from then on, through all that happens to the heap later (`seals_front`).  As long as there
was no collection these are all nodes in use.  A collection may free a node in front of one that stays in
use, and a seal does not make that one permanent (`not_permanent_gapped`).

Nothing is asked of the words of the nodes here, or of the roots: they may be any numbers.  `Tiled h l` is
what holds of the free nodes all the same, and `Endures h k` is what becomes of the permanent nodes.
-/

namespace ChannelMachine.Heap

variable {h k m : Heap} {a : Address} {l : List Nat} {roots : Roots}

/-! ## The nodes of any heap -/

/-- The list of the free nodes of a heap, whatever is in the others. -/
structure Tiled (h : Heap) (l : List Nat) : Prop extends FreeNodes h l where
  /-- Every index of a node is different from the end of the list. -/
  limit : h.nodeCount ≤ noNode.toNat
  /-- The permanent region is inside of the arena. -/
  bottom_le : h.bottom ≤ h.words.size
  /-- The other nodes come first, until there is a collection. -/
  first : h.collections = 0 → ∀ i < h.nodeCount, i ∉ l → ∀ j ∈ l, i < j

/-- Both heaps have the same free nodes, and outside of a block the same headers. -/
structure Alters (h k : Heap) (a : Address) : Prop where
  /-- The arena has its size. -/
  size : k.words.size = h.words.size
  /-- The first free node. -/
  free : k.free = h.free
  /-- How many nodes are free. -/
  freeCount : k.freeCount = h.freeCount
  /-- The permanent region. -/
  bottom : k.bottom = h.bottom
  /-- The collections. -/
  collections : k.collections = h.collections
  /-- The headers. -/
  header : ∀ b, h.IsBlock b → b ≠ a → k.header b = h.header b

namespace Alters

theorem trans (first : Alters h k a) (second : Alters k m a) : Alters h m a where
  size := second.size.trans first.size
  free := second.free.trans first.free
  freeCount := second.freeCount.trans first.freeCount
  bottom := second.bottom.trans first.bottom
  collections := second.collections.trans first.collections
  header := fun b hb hne =>
    (second.header b ((IsBlock.congr first.size).2 hb) hne).trans (first.header b hb hne)

theorem of_writes (w : Writes h k a) : Alters h k a :=
  ⟨w.size, w.free, w.freeCount, w.bottom, by rw [w.eq], fun _ hb hne => (w.same hb hne).header⟩

theorem of_sameArena (arena : SameArena h k) (hcollections : k.collections = h.collections) :
    Alters h k a :=
  ⟨arena.size, arena.free, arena.freeCount, arena.bottom, hcollections, fun b _ _ => arena.header b⟩

theorem nodeCount (alters : Alters h k a) : k.nodeCount = h.nodeCount :=
  congrArg (· / nodeSize) alters.size

end Alters

/-- A node that is not on the list may be written. -/
theorem Tiled.alters (tiled : Tiled h l) (alters : Alters h k a) (hoff : ∀ i ∈ l, addressOf i ≠ a) :
    Tiled k l where
  toFreeNodes := tiled.toFreeNodes.congr alters.free alters.freeCount alters.bottom alters.nodeCount
    fun i hi => alters.header _ (isBlock_addressOf.2 (tiled.chain.lt i hi)) (hoff i hi)
  limit := alters.nodeCount ▸ tiled.limit
  bottom_le := by
    rw [alters.bottom, alters.size]
    exact tiled.bottom_le
  first := by
    rw [alters.collections, alters.nodeCount]
    exact tiled.first

/-- A permanent node is permanent later, and of the same kind and size. -/
structure Retains (h k : Heap) : Prop where
  /-- The arena has its size. -/
  size : k.words.size = h.words.size
  /-- The permanent region never becomes smaller. -/
  bottom : h.bottom ≤ k.bottom
  /-- A permanent node is of the same kind. -/
  tag : ∀ a, h.IsBlock a → a < h.bottom → k.tag a = h.tag a
  /-- It has as many words in use. -/
  extent : ∀ a, h.IsBlock a → a < h.bottom → k.size a = h.size a

namespace Retains

theorem refl (h : Heap) : Retains h h := ⟨rfl, Nat.le_refl _, fun _ _ _ => rfl, fun _ _ _ => rfl⟩

theorem trans (first : Retains h k) (second : Retains k m) : Retains h m where
  size := second.size.trans first.size
  bottom := Nat.le_trans first.bottom second.bottom
  tag := fun a ha hlt => (second.tag a ((IsBlock.congr first.size).2 ha)
    (Nat.lt_of_lt_of_le hlt first.bottom)).trans (first.tag a ha hlt)
  extent := fun a ha hlt => (second.extent a ((IsBlock.congr first.size).2 ha)
    (Nat.lt_of_lt_of_le hlt first.bottom)).trans (first.extent a ha hlt)

/-- The headers of permanent nodes are as they were, but for their marks and payloads. -/
theorem of_header (hsize : k.words.size = h.words.size) (hbottom : h.bottom ≤ k.bottom)
    (hheader : ∀ a, h.IsBlock a → a < h.bottom →
      (k.header a).tag = (h.header a).tag ∧ (k.header a).size = (h.header a).size) : Retains h k :=
  ⟨hsize, hbottom, fun a ha hlt => (hheader a ha hlt).1,
    fun a ha hlt => congrArg UInt16.toNat (hheader a ha hlt).2⟩

/-- What is written is not permanent. -/
theorem of_alters (alters : Alters h k a) (hbehind : h.bottom ≤ a) : Retains h k := by
  refine of_header alters.size (Nat.le_of_eq alters.bottom.symm) fun b hb hlt => ?_
  rw [alters.header b hb (Nat.ne_of_lt (Nat.lt_of_lt_of_le hlt hbehind))]
  exact ⟨rfl, rfl⟩

end Retains

/-- The heap `k` comes later than `h`. -/
structure Endures (h k : Heap) : Prop extends Retains h k where
  /-- Its free nodes are linked. -/
  tiled : ∃ l, Tiled k l

theorem Endures.trans (first : Endures h k) (second : Endures k m) : Endures h m :=
  ⟨first.toRetains.trans second.toRetains, second.tiled⟩

/-- The heap `k` comes later than `h`, and a node has just been taken into use. -/
structure Reserved (h k : Heap) (a : Address) : Prop extends Retains h k where
  /-- It is a node. -/
  isBlock : k.IsBlock a
  /-- It is not permanent. -/
  behind : k.bottom ≤ a
  /-- It is not on the list of free nodes. -/
  off : ∃ l, Tiled k l ∧ ∀ i ∈ l, addressOf i ≠ a

namespace Reserved

theorem endures (reserved : Reserved h k a) : Endures h k :=
  ⟨reserved.toRetains, reserved.off.imp fun _ => And.left⟩

/-- The node may be written. -/
theorem alters (reserved : Reserved h k a) (alters : Alters k m a) : Reserved h m a where
  toRetains := reserved.toRetains.trans (.of_alters alters reserved.behind)
  isBlock := (IsBlock.congr alters.size).2 reserved.isBlock
  behind := alters.bottom ▸ reserved.behind
  off := reserved.off.imp fun _ hoff => ⟨hoff.1.alters alters hoff.2, hoff.2⟩

end Reserved

/-! ## Collections -/

/-- Marking changes the mark of a header and nothing else of it. -/
theorem unpack_mark (words : Array Nat) (pending : List Address) (i : Nat) :
    ∃ mark, Header.unpack ((Heap.mark words pending).getD i 0) =
      { Header.unpack (words.getD i 0) with mark } := by
  fun_induction Heap.mark words pending with
  | case1 => exact ⟨_, rfl⟩
  | case2 words a rest ha unmarked pending ih =>
    obtain ⟨mark, hmark⟩ := ih
    refine ⟨mark, hmark.trans ?_⟩
    rw [Array.getD_eq_getD_getElem?, Array.getElem?_set]
    split
    next heq =>
      subst heq
      rw [Option.getD_some, Header.unpack_marked, Array.getD_eq_getD_getElem?,
        Array.getElem?_eq_getElem ha, Option.getD_some]
    next => rw [Array.getD_eq_getD_getElem?]
  | case3 words a rest ha marked ih => exact ih
  | case4 words a rest ha ih => exact ih

/-- A sweep of the heap `h` that has come down to the node with index `n` has put the nodes in `l` on the
list of free nodes. -/
structure Sweeps (h now : Heap) (n : Nat) (l : List Nat) : Prop extends FreeNodes now l where
  /-- The arena has its size. -/
  size : now.words.size = h.words.size
  /-- The permanent region is the same. -/
  bottom : now.bottom = h.bottom
  /-- The list begins behind what is to be swept. -/
  swept : ∀ i ∈ l, n ≤ i
  /-- Permanent nodes may have lost or got a mark. -/
  header : ∀ a, h.IsBlock a → a < h.bottom → ∃ mark, now.header a = { h.header a with mark }

namespace Sweeps

variable {now : Heap} {n : Nat}

/-- The mark of a node is cleared. -/
theorem keep (s : Sweeps h now (n + 1) l) (hn : n < h.nodeCount) :
    Sweeps h (now.setHeader (addressOf n) { now.header (addressOf n) with mark := 0 }) n l := by
  have hb : now.IsBlock (addressOf n) := (IsBlock.congr s.size).2 (isBlock_addressOf.2 hn)
  have w := writes_setHeader hb { now.header (addressOf n) with mark := 0 }
  refine ⟨s.toFreeNodes.congr w.free w.freeCount w.bottom w.nodeCount fun i hi => ?_, w.size.trans s.size,
    w.bottom.trans s.bottom, fun i hi => Nat.le_of_succ_le (s.swept i hi), fun a ha hlt => ?_⟩
  · refine (w.same (isBlock_addressOf.2 (s.chain.lt i hi)) fun heq => ?_).header
    exact Nat.not_succ_le_self n (addressOf_inj heq ▸ s.swept i hi)
  · obtain ⟨mark, hmark⟩ := s.header a ha hlt
    rw [header_setHeader hb ((IsBlock.congr s.size).2 ha)]
    split
    next heq => exact ⟨0, by rw [← heq, hmark]⟩
    next => exact ⟨mark, hmark⟩

/-- A node that is not permanent becomes the first free node. -/
theorem release (s : Sweeps h now (n + 1) l) (hn : n < h.nodeCount) (hlimit : h.nodeCount ≤ noNode.toNat)
    (hbehind : h.bottom ≤ addressOf n) (arena : SameArena now k) :
    Sweeps h (k.release (addressOf n)) n (n :: l) := by
  have hsize : k.words.size = h.words.size := arena.size.trans s.size
  have hnodes : k.nodeCount = h.nodeCount := congrArg (· / nodeSize) hsize
  have hbottom : k.bottom = h.bottom := arena.bottom.trans s.bottom
  have hb : k.IsBlock (addressOf n) := (IsBlock.congr hsize).2 (isBlock_addressOf.2 hn)
  have w := writes_release hb
  have hl : FreeNodes k l := s.toFreeNodes.congr arena.free arena.freeCount arena.bottom arena.nodeCount
    fun i _ => arena.header _
  refine ⟨hl.release (hnodes ▸ hlimit) (hnodes ▸ hn) (hbottom ▸ hbehind) s.swept, w.size.trans hsize,
    w.bottom.trans hbottom, ?_, ?_⟩
  · exact List.forall_mem_cons.2 ⟨Nat.le_refl n, fun i hi => Nat.le_of_succ_le (s.swept i hi)⟩
  · intro a ha hlt
    rw [header_release hb ((IsBlock.congr hsize).2 ha),
      if_neg (Nat.ne_of_lt (Nat.lt_of_lt_of_le hlt hbehind)), arena.header]
    exact s.header a ha hlt

/-- A node that is not permanent is freed. -/
theorem reclaim (s : Sweeps h now (n + 1) l) (hn : n < h.nodeCount) (hlimit : h.nodeCount ≤ noNode.toNat)
    (hbehind : h.bottom ≤ addressOf n) : Sweeps h (now.reclaim (addressOf n)) n (n :: l) := by
  unfold Heap.reclaim
  split
  · exact s.release hn hlimit hbehind ⟨rfl, rfl, rfl, rfl⟩
  · refine s.release hn hlimit hbehind ?_
    rw [evict_eq]
    exact ⟨rfl, rfl, rfl, rfl⟩
  · exact s.release hn hlimit hbehind ⟨rfl, rfl, rfl, rfl⟩

theorem node (s : Sweeps h now (n + 1) l) (hn : n < h.nodeCount) (hlimit : h.nodeCount ≤ noNode.toNat) :
    ∃ l', Sweeps h (now.sweepNode (addressOf n)) n l' := by
  unfold Heap.sweepNode
  dsimp only
  split
  next => exact ⟨l, s.keep hn⟩
  next hkept =>
    have hpermanent : ¬ addressOf n < now.bottom := fun hlt =>
      hkept (by rw [isPermanent, decide_eq_true hlt, Bool.true_or])
    exact ⟨n :: l, s.reclaim hn hlimit (s.bottom ▸ Nat.not_lt.1 hpermanent)⟩

/-- The sweep comes down to the start of the arena. -/
theorem sweep (s : Sweeps h now n l) (hlimit : h.nodeCount ≤ noNode.toNat) (hle : n ≤ h.nodeCount) :
    ∃ l', Sweeps h (now.sweep n) 0 l' := by
  induction n generalizing now l with
  | zero => exact ⟨_, s⟩
  | succ n ih =>
    obtain ⟨l', s'⟩ := s.node hle hlimit
    exact ih s' (Nat.le_of_succ_le hle)

/-- Before it starts nothing is free. -/
theorem start (h : Heap) (roots : List Address) : Sweeps h (h.marked roots) h.nodeCount [] where
  chain := .nil
  sorted := .nil
  behind := fun _ hi => absurd hi List.not_mem_nil
  tag := fun _ hi => absurd hi List.not_mem_nil
  count := rfl
  size := size_mark ..
  bottom := rfl
  swept := fun _ hi => absurd hi List.not_mem_nil
  header := fun _ _ _ => unpack_mark ..

end Sweeps

namespace Tiled

/-- A collection with any roots makes a new list, and the permanent nodes are not on it. -/
theorem collect (tiled : Tiled h l) (roots : List Address) : Endures h (h.collect roots) := by
  obtain ⟨l', s⟩ := (Sweeps.start h roots).sweep tiled.limit (Nat.le_refl _)
  rw [collect_eq, nodeCount_marked]
  generalize (h.marked roots).sweep h.nodeCount = swept at s
  obtain ⟨reports, heq⟩ := counted_eq swept
  have arena : SameArena swept swept.counted := by
    rw [heq]
    exact ⟨rfl, rfl, rfl, rfl⟩
  have hnodes : swept.counted.nodeCount = h.nodeCount :=
    arena.nodeCount.trans (congrArg (· / nodeSize) s.size)
  refine ⟨.of_header (arena.size.trans s.size) (Nat.le_of_eq (arena.bottom.trans s.bottom).symm)
    fun a ha hlt => ?_, l', ?_⟩
  · obtain ⟨mark, hmark⟩ := s.header a ha hlt
    rw [arena.header, hmark]
    exact ⟨rfl, rfl⟩
  · refine ⟨s.toFreeNodes.congr arena.free arena.freeCount arena.bottom arena.nodeCount
      fun i _ => arena.header _, hnodes ▸ tiled.limit, ?_, fun hnone => ?_⟩
    · rw [arena.bottom, s.bottom, arena.size, s.size]
      exact tiled.bottom_le
    · rw [heq] at hnone
      exact absurd hnone (Nat.succ_ne_zero _)

theorem refill (tiled : Tiled h l) (roots : Roots) : Endures h (h.refill roots) := by
  unfold Heap.refill
  split
  · exact tiled.collect _
  · exact ⟨.refl h, l, tiled⟩

/-! ## Allocations -/

/-- Without the first free node all others are still linked. -/
theorem unlink (tiled : Tiled h l) (hfree : h.free ≠ noNode) :
    ∃ rest, Tiled (h.unlink (addressOf h.free.toNat)) rest ∧ h.IsBlock (addressOf h.free.toNat) ∧
      h.bottom ≤ addressOf h.free.toNat ∧ ∀ i ∈ rest, addressOf i ≠ addressOf h.free.toNat := by
  obtain ⟨rest, rfl, hrest, hbehind⟩ := tiled.toFreeNodes.unlink hfree
  refine ⟨rest, ⟨hrest, tiled.limit, tiled.bottom_le, fun hnone i hi hnot j hj => ?_⟩,
    isBlock_addressOf.2 (tiled.chain.lt _ (List.mem_cons_self ..)),
    tiled.behind _ (List.mem_cons_self ..), fun i hi heq => ?_⟩
  · by_cases hfirst : i = h.free.toNat
    · exact hfirst ▸ hbehind j hj
    · exact tiled.first hnone i hi (List.not_mem_cons_of_ne_of_not_mem hfirst hnot) j
        (List.mem_cons_of_mem _ hj)
  · exact Nat.lt_irrefl _ (addressOf_inj heq ▸ hbehind i hi)

theorem ensures_allocate (tiled : Tiled h l) (t : Tag) (n : Nat) (roots : Roots) :
    Ensures (allocate t n roots) h (fun a k => Reserved h k a ∧ n ≤ nodeSize) fun _ k => Endures h k := by
  have refilled := tiled.refill roots
  unfold Ensures allocate
  by_cases hn : n = 0 ∨ nodeSize < n
  · rw [if_pos hn]
    exact ⟨.refl h, l, tiled⟩
  rw [if_neg hn]
  by_cases hfree : (h.refill roots).free = noNode
  · simp only [if_pos hfree]
    exact refilled
  simp only [if_neg hfree]
  obtain ⟨l', tiled'⟩ := refilled.tiled
  obtain ⟨rest, unlinked, hb, hbehind, hoff⟩ := tiled'.unlink hfree
  generalize addressOf (h.refill roots).free.toNat = a at *
  have hbase : ((h.refill roots).unlink a).IsBlock a := ⟨hb.aligned, hb.inside⟩
  have reserved : Reserved h ((h.refill roots).unlink a) a :=
    ⟨refilled.toRetains.trans (.of_header rfl (Nat.le_refl _) fun _ _ _ => ⟨rfl, rfl⟩), hbase, hbehind,
      rest, unlinked, hoff⟩
  exact ⟨reserved.alters (.of_writes (writes_renew hbase t (by omega) (by omega))), by omega⟩

/-- A node is allocated and filled. -/
theorem ensures_make (tiled : Tiled h l) (t : Tag) (n : Nat) {fill : Address → Heap → Heap}
    (hfill : ∀ a k, k.IsBlock a → n ≤ nodeSize → Alters k (fill a k) a) (roots : Roots) :
    Ensures (make t n fill roots) h (fun a k => Reserved h k a) fun _ k => Endures h k := by
  refine .bind ((tiled.ensures_allocate t n roots).mono ?_ fun _ _ => id)
  rintro a k ⟨reserved, hle⟩
  exact .bind (.modifyGet (.pure (reserved.alters (hfill a k reserved.isBlock hle))))

theorem ensures_newNumber (tiled : Tiled h l) (x : Number) (roots : Roots) :
    Ensures (newNumber x roots) h (fun a k => Reserved h k a) fun _ k => Endures h k :=
  tiled.ensures_make .number 2 (fun _ _ ha _ => .of_writes (writes_setWord ha (by decide) _)) roots

theorem alters_intern (ha : h.IsBlock a) (text : String) : Alters h (h.intern a text) a :=
  (Alters.of_writes (writes_setWord ha (by decide) _)).trans
    (.of_sameArena (sameArena_intern h a text) rfl)

theorem ensures_newString (tiled : Tiled h l) (text : String) (roots : Roots) :
    Ensures (newString text roots) h (fun _ k => Endures h k) fun _ k => Endures h k := by
  refine .bind (.get ?_)
  split
  · exact .pure ⟨.refl h, l, tiled⟩
  · exact (tiled.ensures_make .string 2 (fun _ _ ha _ => alters_intern ha text) roots).mono
      (fun _ _ => Reserved.endures) fun _ _ => id

theorem ensures_box (tiled : Tiled h l) (value : Value) (roots : Roots) :
    Ensures (box value roots) h (fun _ k => Endures h k) fun _ k => Endures h k := by
  cases value with
  | number x => exact (tiled.ensures_newNumber x roots).mono (fun _ _ => Reserved.endures) fun _ _ => id
  | text s => exact tiled.ensures_newString s roots
  | bool | null | undefined | unassigned => exact .pure ⟨.refl h, l, tiled⟩
  | _ => exact .throw ⟨.refl h, l, tiled⟩

theorem ensures_extend (tiled : Tiled h l) (environment frame : Address) (roots : Roots) :
    Ensures (extend environment frame roots) h (fun a k => Reserved h k a) fun _ k => Endures h k :=
  .bind (.get (tiled.ensures_make .environment (h.frameCount environment + 2)
    (fun _ _ ha hle => .of_writes (writes_extended ha hle frame)) roots))

theorem ensures_newChannel (tiled : Tiled h l) (capacity : Nat) (roots : Roots) :
    Ensures (newChannel capacity roots) h (fun _ k => Endures h k) fun _ k => Endures h k := by
  rw [newChannel_eq]
  split
  · exact .throw ⟨.refl h, l, tiled⟩
  · exact (tiled.ensures_make .channel _
      (fun _ _ ha hle => .of_writes (writes_emptyRing ha hle _)) roots).mono
      (fun _ _ => Reserved.endures) fun _ _ => id

/-- Only the arena and the collections count. -/
theorem sameArena (tiled : Tiled h l) (arena : SameArena h k) (hcollections : k.collections = h.collections) :
    Endures h k := by
  refine ⟨.of_header arena.size (Nat.le_of_eq arena.bottom.symm) fun b _ _ => ?_, l,
    tiled.toFreeNodes.congr arena.free arena.freeCount arena.bottom arena.nodeCount fun i _ => arena.header _,
    arena.nodeCount ▸ tiled.limit, ?_, ?_⟩
  · rw [arena.header]
    exact ⟨rfl, rfl⟩
  · rw [arena.bottom, arena.size]
    exact tiled.bottom_le
  · rw [hcollections, arena.nodeCount]
    exact tiled.first

/-- It makes no difference which nodes are being built. -/
theorem withBuilding (tiled : Tiled h l) (building : List Address) :
    Endures h (h.withBuilding building) :=
  tiled.sameArena (alike_withBuilding h building).toSameArena rfl

theorem ensures_newWaitGroup (tiled : Tiled h l) (roots : Roots) :
    Ensures (newWaitGroup roots) h (fun _ k => Endures h k) fun _ k => Endures h k := by
  rw [newWaitGroup_eq]
  refine .bind ((tiled.ensures_newNumber .zero roots).mono (fun c k reserved => ?_) fun _ _ => id)
  obtain ⟨l', tiled'⟩ := reserved.endures.tiled
  have held : Endures h (k.held c) := reserved.endures.trans (tiled'.withBuilding _)
  obtain ⟨l'', tiled''⟩ := held.tiled
  have hend {m : Heap} (last : Endures (k.held c) m) : Endures h (m.withBuilding k.building) :=
    have ⟨_, hm⟩ := last.tiled
    (held.trans last).trans (hm.withBuilding _)
  refine holding_ensures ((tiled''.ensures_make .waitGroup 2
    (fun g m hg _ => .of_writes (writes_setWord hg (by decide) c)) roots).mono ?_ ?_)
  · exact fun g m made => hend made.endures
  · exact fun e m failed => hend failed

end Tiled

/-! ## Histories -/

/-- What may happen to a heap.  Nodes are allocated and filled, and there are collections and seals.  No
address has to be that of a node, but a header is only written where the node is not free. -/
inductive Proceeds (h : Heap) : Heap → Prop where
  /-- A node of any kind and size is allocated. -/
  | allocate (t : Tag) (n : Nat) (roots : Roots) : Proceeds h (leaves (allocate t n roots) h)
  /-- A number. -/
  | newNumber (x : Number) (roots : Roots) : Proceeds h (leaves (newNumber x roots) h)
  /-- A text. -/
  | newString (text : String) (roots : Roots) : Proceeds h (leaves (newString text roots) h)
  /-- Any value. -/
  | box (value : Value) (roots : Roots) : Proceeds h (leaves (box value roots) h)
  /-- A frame. -/
  | newFrame (slots : Nat) (roots : Roots) : Proceeds h (leaves (newFrame slots roots) h)
  /-- An environment without frames. -/
  | emptyEnvironment (roots : Roots) : Proceeds h (leaves (emptyEnvironment roots) h)
  /-- An environment with one frame more. -/
  | extend (environment frame : Address) (roots : Roots) :
      Proceeds h (leaves (extend environment frame roots) h)
  /-- A channel. -/
  | newChannel (capacity : Nat) (roots : Roots) : Proceeds h (leaves (newChannel capacity roots) h)
  /-- A wait-group. -/
  | newWaitGroup (roots : Roots) : Proceeds h (leaves (newWaitGroup roots) h)
  /-- A word is written that is no header. -/
  | setWord (a : Address) (i w : Nat) (hbehind : (a + i) % nodeSize ≠ 0) : Proceeds h (h.setWord a i w)
  /-- The payload of a node is written. -/
  | setPayload (a : Address) (payload : UInt32) (ha : h.IsBlock a) (hfree : h.tag a ≠ .free) :
      Proceeds h (h.setPayload a payload)
  /-- Nodes are being built, or no longer. -/
  | withBuilding (building : List Address) : Proceeds h (h.withBuilding building)
  /-- Collections are reported from now on, or no longer. -/
  | trace (tracing : Bool) : Proceeds h { h with tracing }
  /-- A collection. -/
  | collect (roots : List Address) : Proceeds h (h.collect roots)
  /-- A seal. -/
  | sealAll : Proceeds h h.sealAll

namespace Tiled

/-- A word that is written is part of no header. -/
theorem setWord (tiled : Tiled h l) {i : Nat} (hbehind : (a + i) % nodeSize ≠ 0) (w : Nat) :
    Endures h (h.setWord a i w) := by
  have hne {b : Nat} (hb : b % nodeSize = 0) : a + i ≠ b + 0 := by
    rintro heq
    exact hbehind (heq ▸ hb)
  have hheader : ∀ b, h.IsBlock b → (h.setWord a i w).header b = h.header b := by
    intro b hb
    rw [header, header, word_setWord_of_ne h (hne hb.aligned)]
  have hsize := size_words_setWord h a i w
  have alters : Alters h (h.setWord a i w) (a + i) :=
    ⟨hsize, rfl, rfl, rfl, rfl, fun b hb _ => hheader b hb⟩
  refine ⟨.of_header hsize (Nat.le_refl _) fun b hb _ => ?_, l,
    tiled.alters alters fun j _ => (hne (addressOf_mod j)).symm⟩
  rw [hheader b hb]
  exact ⟨rfl, rfl⟩

theorem setPayload (tiled : Tiled h l) (ha : h.IsBlock a) (hfree : h.tag a ≠ .free) (payload : UInt32) :
    Endures h (h.setPayload a payload) := by
  have w := writes_setPayload ha payload
  refine ⟨.of_header w.size (Nat.le_of_eq w.bottom.symm) fun b hb _ => ?_, l,
    tiled.alters (.of_writes w) fun i hi heq => hfree (heq ▸ tiled.tag i hi)⟩
  by_cases hne : b = a
  · rw [hne, header_setPayload ha]
    exact ⟨rfl, rfl⟩
  · rw [(w.same hb hne).header]
    exact ⟨rfl, rfl⟩

/-- A seal keeps the list, and what was permanent stays so. -/
theorem sealAll (tiled : Tiled h l) : Tiled h.sealAll l where
  toFreeNodes := tiled.toFreeNodes.sealAll tiled.limit
  limit := tiled.limit
  bottom_le := by
    rcases tiled.sealAll_cases tiled.limit with ⟨-, hbottom⟩ | ⟨i, rest, -, hlt, hbottom⟩
    · exact Nat.le_of_eq hbottom
    · rw [hbottom]
      exact Nat.le_trans (Nat.le_add_right ..) (isBlock_addressOf.2 hlt).inside
  first := tiled.first

theorem endures_sealAll (tiled : Tiled h l) : Endures h h.sealAll :=
  ⟨.of_header rfl (tiled.bottom_le_sealAll tiled.limit tiled.bottom_le) fun _ _ _ => ⟨rfl, rfl⟩, l,
    tiled.sealAll⟩

end Tiled

/-- Whatever happens, permanent nodes are permanent and the free nodes are linked. -/
theorem Proceeds.endures (proceeds : Proceeds h k) (tiled : Tiled h l) : Endures h k := by
  have hmade {x : Action Address}
      (hx : Ensures x h (fun a k => Reserved h k a) fun _ k => Endures h k) : Endures h (leaves x h) :=
    leaves_of_ensures (hx.mono (fun _ _ => Reserved.endures) fun _ _ => id)
  have hnode (t : Tag) (n : Nat) (roots : Roots) : Endures h (leaves (Heap.allocate t n roots) h) :=
    hmade ((tiled.ensures_allocate t n roots).mono (fun _ _ => And.left) fun _ _ => id)
  cases proceeds with
  | allocate t n roots => exact hnode t n roots
  | newNumber x roots => exact hmade (tiled.ensures_newNumber x roots)
  | newString text roots => exact leaves_of_ensures (tiled.ensures_newString text roots)
  | box value roots => exact leaves_of_ensures (tiled.ensures_box value roots)
  | newFrame slots roots => exact hnode .frame (slots + 1) roots
  | emptyEnvironment roots => exact hnode .environment 1 roots
  | extend environment frame roots => exact hmade (tiled.ensures_extend environment frame roots)
  | newChannel capacity roots => exact leaves_of_ensures (tiled.ensures_newChannel capacity roots)
  | newWaitGroup roots => exact leaves_of_ensures (tiled.ensures_newWaitGroup roots)
  | setWord a i w hbehind => exact tiled.setWord hbehind w
  | setPayload a payload ha hfree => exact tiled.setPayload ha hfree payload
  | withBuilding building => exact tiled.withBuilding building
  | trace => exact tiled.sameArena ⟨rfl, rfl, rfl, rfl⟩ rfl
  | collect roots => exact tiled.collect roots
  | sealAll => exact tiled.endures_sealAll

/-- What follows upon a heap. -/
abbrev Follows : Heap → Heap → Prop := Relation.ReflTransGen Proceeds

theorem Follows.endures (follows : Follows h k) (tiled : Tiled h l) : Endures h k := by
  induction follows with
  | refl => exact ⟨.refl h, l, tiled⟩
  | tail _ proceeds ih =>
    obtain ⟨_, tiled'⟩ := ih.tiled
    exact ih.trans (proceeds.endures tiled')

/-- A word of a node behind its header is no header. -/
theorem Proceeds.word {a i : Nat} (ha : h.IsBlock a) (hpos : 1 ≤ i) (hlt : i < nodeSize) (w : Nat) :
    Proceeds h (h.setWord a i w) := by
  refine .setWord a i w fun hzero => ?_
  have hmod := ha.mod
  have hzero : (a + i) % 10 = 0 := hzero
  have hlt : i < 10 := hlt
  omega

/-- The operations that are given nodes are among these. -/
theorem Operates.follows (operates : Operates h k) (hf : h.Formed) : Follows h k := by
  have hring {a i : Nat} (ha : h.IsBlock a) (htag : h.tag a = .channel) (hi : i < h.channelSlots a)
      (w : Nat) {j : Nat} (hj : j = 2 ∨ j = 3) (n : Nat) :
      Follows h ((h.setWord a (ringStart + i) w).setWord a j n) := by
    have hstart : ringStart = 4 := rfl
    have hnode : nodeSize = 10 := rfl
    have hlt := hf.slot_lt ha htag hi
    have hb := (writes_setWord ha hlt w).isBlock.2 ha
    exact .tail (.single (.word ha (by omega) hlt w)) (.word hb (by omega) (by omega) n)
  cases operates with
  | allocate t n roots => exact .single (.allocate t n roots)
  | newNumber x roots => exact .single (.newNumber x roots)
  | newString text roots => exact .single (.newString text roots)
  | box value roots => exact .single (.box value roots)
  | newFrame slots roots => exact .single (.newFrame slots roots)
  | emptyEnvironment roots => exact .single (.emptyEnvironment roots)
  | extend environment frame roots => exact .single (.extend environment frame roots)
  | newChannel capacity roots => exact .single (.newChannel capacity roots)
  | newWaitGroup roots => exact .single (.newWaitGroup roots)
  | assign environment p value henvironment htag =>
    unfold leaves Heap.assign
    cases hslot : h.slotOf? environment p with
    | none => exact .refl
    | some slot =>
      obtain ⟨hb, -, hpos, hlt⟩ := hf.of_slotOf? henvironment htag hslot
      exact .single (.word hb hpos hlt value)
  | channelPush a value ha htag => exact hring ha htag ((hf.nodeFormed ha).ring htag).2.1 _ (.inl rfl) _
  | channelPop a ha htag => exact hring ha htag ((hf.nodeFormed ha).ring htag).2.2 _ (.inr rfl) _
  | setNumber a x ha => exact .single (.word ha (Nat.le_refl 1) (by decide) _)
  | setGroupCount a count ha htag =>
    exact .single (.word ((hf.nodeFormed ha).isBlock_counter htag) (Nat.le_refl 1) (by decide) _)
  | setPayload a payload ha hfree => exact .single (.setPayload a payload ha hfree)
  | setWord a i w ha _ _ _ _ hpos hlt => exact .single (.word ha hpos hlt w)
  | withBuilding building => exact .single (.withBuilding building)
  | sealAll => exact .single .sealAll
  | trace tracing => exact .single (.trace tracing)
  | collect roots => exact .single (.collect roots)

/-- In a new heap the constants come first. -/
theorem tiled_of_create {words : Nat} (hcreate : create words = .ok h) : ∃ l, Tiled h l := by
  have hh := initial_of_create hcreate
  obtain ⟨l, hl, -⟩ := (formed_of_create hcreate).free
  refine ⟨l, hl, hh.intact.count, hh.intact.bottom_le, fun _ i hi hnot j hj => ?_⟩
  obtain rfl := hl.chain.unique hh.intact hh.filled.free.chain
  have hj := List.mem_range'_1.1 hj
  have hi' : ¬ (constants.length ≤ i ∧ i < constants.length + (h.nodeCount - constants.length)) :=
    fun hin => hnot (List.mem_range'_1.2 hin)
  omega

/-! ## The law -/

/-- A node of the heap `h` that is permanent is there in the later heap `k`. -/
structure Lasts (h k : Heap) (a : Address) : Prop where
  /-- It is permanent. -/
  permanent : k.isPermanent a = true
  /-- It is of the same kind. -/
  tag : k.tag a = h.tag a
  /-- It has as many words in use. -/
  size : k.size a = h.size a
  /-- It has not been reclaimed. -/
  kept : ∀ l, FreeNodes k l → ∀ i ∈ l, addressOf i ≠ a
  /-- No allocation gives it away. -/
  taken : ∀ (t : Tag) (n : Nat) (roots : Roots) (b : Address) (m : Heap),
    allocate t n roots k = .ok b m → b ≠ a

/-- What a seal does to a heap whose free nodes are `l`. -/
structure Seals (h : Heap) (l : List Nat) : Prop where
  /-- The nodes in front of all free ones are permanent then, and no others. -/
  permanent_iff : ∀ a, h.IsBlock a → (h.sealAll.isPermanent a = true ↔ ∀ i ∈ l, a < addressOf i)
  /-- The free nodes are the same, and none is permanent. -/
  free : FreeNodes h.sealAll l ∧ ∀ i ∈ l, h.sealAll.isPermanent (addressOf i) = false
  /-- If there was no collection, all other nodes are permanent. -/
  uncollected : h.collections = 0 → ∀ a, h.IsBlock a → (∀ i ∈ l, addressOf i ≠ a) →
    h.sealAll.isPermanent a = true
  /-- What is permanent then is there for good. -/
  lasts : ∀ k, Follows h.sealAll k → ∀ a, h.IsBlock a → h.sealAll.isPermanent a = true → Lasts h k a

namespace Tiled

/-- A node is permanent after a seal if it lies in front of the free ones. -/
theorem permanent_iff (tiled : Tiled h l) (ha : h.IsBlock a) :
    h.sealAll.isPermanent a = true ↔ ∀ i ∈ l, a < addressOf i := by
  rw [isPermanent, decide_eq_true_iff]
  rcases tiled.sealAll_cases tiled.limit with ⟨rfl, hbottom⟩ | ⟨i, rest, rfl, -, hbottom⟩
  · rw [hbottom]
    refine ⟨fun _ _ hi => absurd hi List.not_mem_nil, fun _ => ?_⟩
    exact Nat.lt_of_lt_of_le (Nat.lt_add_of_pos_right (by decide)) ha.inside
  · rw [hbottom]
    refine ⟨fun hlt => List.forall_mem_cons.2 ⟨hlt, fun j hj => Nat.lt_trans hlt ?_⟩,
      fun hall => hall i (List.mem_cons_self ..)⟩
    exact Nat.mul_lt_mul_of_pos_left ((List.pairwise_cons.1 tiled.sorted).1 j hj) (by decide)

/-- A node that is permanent after a seal is there in every later heap. -/
theorem lasts (tiled : Tiled h l) (follows : Follows h.sealAll k) (ha : h.IsBlock a)
    (hpermanent : h.sealAll.isPermanent a = true) : Lasts h k a := by
  have endures := follows.endures tiled.sealAll
  have hblock : h.sealAll.IsBlock a := ⟨ha.aligned, ha.inside⟩
  have hlt : a < h.sealAll.bottom := of_decide_eq_true hpermanent
  have hlater : a < k.bottom := Nat.lt_of_lt_of_le hlt endures.bottom
  obtain ⟨_, tiled'⟩ := endures.tiled
  refine ⟨decide_eq_true hlater, endures.tag a hblock hlt, endures.extent a hblock hlt,
    fun _ hl i hi heq => ?_, fun t n roots b m hok heq => ?_⟩
  · exact Nat.not_lt.2 (hl.behind i hi) (heq ▸ hlater)
  · obtain ⟨reserved, -⟩ := (tiled'.ensures_allocate t n roots).of_ok hok
    exact Nat.not_lt.2 (Nat.le_trans reserved.bottom reserved.behind) (heq ▸ hlater)

end Tiled

/-- A seal makes permanent what lies in front of the free nodes, and that is never reclaimed. -/
theorem seals_front {words : Nat} {new h : Heap} (hcreate : create words = .ok new)
    (follows : Follows new h) : ∃ l, FreeNodes h l ∧ Seals h l := by
  obtain ⟨_, tiled⟩ := tiled_of_create hcreate
  obtain ⟨l, tiled⟩ := (follows.endures tiled).tiled
  refine ⟨l, tiled.toFreeNodes, fun a ha => tiled.permanent_iff ha, ⟨tiled.sealAll.toFreeNodes, fun i hi => ?_⟩,
    fun hnone a ha hoff => ?_, fun k follows a ha => tiled.lasts follows ha⟩
  · exact decide_eq_false (Nat.not_lt.2 (tiled.sealAll.behind i hi))
  · refine (tiled.permanent_iff ha).2 fun i hi => ?_
    obtain ⟨j, hj, rfl⟩ := ha.exists_index
    exact Nat.mul_lt_mul_of_pos_left (tiled.first hnone j hj (fun hin => hoff j hin rfl) i hi) (by decide)

/-- A heap with a number, which was behind another one until that was freed. -/
def gapped : Heap :=
  let first := leaves (newNumber ⟨0x3ff0000000000000⟩ noRoots) ten
  let second := leaves (newNumber ⟨0x4000000000000000⟩ noRoots) first
  second.collect [60]

theorem follows_gapped : Follows ten gapped :=
  .tail (.tail (.tail .refl (.newNumber ⟨0x3ff0000000000000⟩ noRoots))
    (.newNumber ⟨0x4000000000000000⟩ noRoots)) (.collect [60])

/-- A heap of ten nodes is sealed after a number was freed in front of another one. -/
theorem seals_front_gapped : create 100 = .ok ten ∧ Follows ten gapped ∧
    ∃ l, FreeNodes gapped l ∧ Seals gapped l :=
  have hten : create 100 = .ok ten := create_eq (by decide +kernel)
  ⟨hten, follows_gapped, seals_front hten follows_gapped⟩

/-- The number that is left was allocated and not reclaimed, and a seal does not make it permanent. -/
theorem not_permanent_gapped : create 100 = .ok ten ∧ Follows ten gapped ∧ gapped.tag 60 = .number ∧
    gapped.number? 60 = some ⟨0x4000000000000000⟩ ∧ gapped.sealAll.isPermanent 60 = false := by
  refine ⟨create_eq (by decide +kernel), follows_gapped, ?_⟩
  decide +kernel

end ChannelMachine.Heap

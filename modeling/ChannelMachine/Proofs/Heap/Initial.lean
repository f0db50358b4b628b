import ChannelMachine.Proofs.Heap.Fresh

/-!
# The initial heap

A new heap is sound.  Its free nodes are those behind the constants, all the way to the end of the
arena.  While nothing is freed the nodes in use stay the first ones (`Filled`), so each allocation
takes the next index.
-/

namespace ChannelMachine.Heap

/-- The nodes in use are the first `n` of the arena. -/
structure Filled (h : Heap) (n : Nat) : Prop where
  /-- There are as many. -/
  le : n ≤ h.nodeCount
  /-- The others are free. -/
  free : FreeList h (List.range' n (h.nodeCount - n))

/-! ## The words of a new heap -/

section Create

variable {h : Heap} {count : Nat}

theorem getD_initialWords {i : Nat} (hi : i < nodeSize * count) :
    (initialWords count).getD i 0 =
      if i % nodeSize = 0 then (initialHeader count (i / nodeSize)).pack else 0 := by
  rw [Array.getD_eq_getD_getElem?, Array.getElem?_eq_getElem (by rw [initialWords, Array.size_ofFn]; exact hi),
    Option.getD_some]
  simp only [initialWords, Array.getElem_ofFn]

theorem header_initial (hwords : h.words = initialWords count) {i : Nat} (hi : i < count) :
    h.header (addressOf i) = initialHeader count i := by
  have hlt : addressOf i < nodeSize * count := Nat.mul_lt_mul_of_pos_left hi (by decide)
  rw [header, word, hwords, Nat.add_zero, getD_initialWords hlt, if_pos (addressOf_mod i),
    div_addressOf, Header.unpack_pack]

theorem size_initialWords : (initialWords count).size = nodeSize * count := by
  rw [initialWords, Array.size_ofFn]

theorem nodeCount_initial (hwords : h.words = initialWords count) : h.nodeCount = count := by
  rw [nodeCount, hwords, size_initialWords, Nat.mul_div_cancel_left count (by decide)]

/-- A node behind the constants is free. -/
theorem initialHeader_of_le {i : Nat} (hi : constants.length ≤ i) :
    initialHeader count i =
      ⟨.free, 0, 0, if i + 1 < count then .ofNat (i + 1) else noNode⟩ := by
  rw [initialHeader, List.getElem?_eq_none hi]

theorem initialHeader_of_some {i : Nat} {t : Tag} (ht : constants[i]? = some t) :
    initialHeader count i = .fresh t 1 := by
  rw [initialHeader, ht]

theorem mark_initialHeader (i : Nat) : (initialHeader count i).mark = 0 := by
  unfold initialHeader
  split <;> rfl

/-- The nodes in use are the constants, which have no children. -/
theorem initialHeader_cases (count i : Nat) : (initialHeader count i).tag = .free ∨
    ∃ t, constants[i]? = some t ∧ initialHeader count i = .fresh t 1 := by
  cases ht : constants[i]? with
  | none =>
    rw [initialHeader, ht]
    exact .inl rfl
  | some t => exact .inr ⟨t, rfl, initialHeader_of_some ht⟩

/-- The free nodes from an index on are linked. -/
theorem chain_initial (hwords : h.words = initialWords count) (hcount : count ≤ noNode.toNat)
    (n : Nat) : ∀ i, constants.length ≤ i → i + n = count →
      Chain h (if i < count then .ofNat i else noNode) (List.range' i n) := by
  induction n with
  | zero =>
    intro i _ hsum
    rw [if_neg (by omega)]
    exact .nil
  | succ n ih =>
    intro i hi hsum
    have hlt : i < count := by omega
    rw [if_pos hlt, List.range'_succ]
    have hnat := toNat_ofNat_of_lt hcount hlt
    have hnext : h.payload (addressOf i) = if i + 1 < count then .ofNat (i + 1) else noNode := by
      rw [payload, header_initial hwords hlt, initialHeader_of_le hi]
    have hchain : Chain h (.ofNat i) ((UInt32.ofNat i).toNat :: List.range' (i + 1) n) := by
      refine .cons ?_ ?_
      · rw [hnat, nodeCount_initial hwords]
        exact hlt
      · rw [hnat, hnext]
        exact ih (i + 1) (by omega) (by omega)
    rw [hnat] at hchain
    exact hchain

/-- What a new heap looks like. -/
structure Initial (h : Heap) (count : Nat) : Prop where
  /-- The words. -/
  words : h.words = initialWords count
  /-- There is room for the constants. -/
  room : constants.length ≤ count
  /-- Every index of a node is different from the end of the free list. -/
  limit : count ≤ noNode.toNat
  /-- The first free node. -/
  free : h.free = if constants.length < count then .ofNat constants.length else noNode
  /-- How many nodes are free. -/
  freeCount : h.freeCount = count - constants.length
  /-- The constants are permanent. -/
  bottom : h.bottom = addressOf constants.length
  /-- There are no texts. -/
  strings : h.strings = ∅
  /-- There are no texts. -/
  texts : h.texts = ∅
  /-- Nothing is being built. -/
  building : h.building = []

namespace Initial

theorem nodeCount (hh : Initial h count) : h.nodeCount = count := nodeCount_initial hh.words

theorem filled (hh : Initial h count) : Filled h constants.length where
  le := hh.nodeCount.symm ▸ hh.room
  free := by
    have hroom := hh.room
    rw [hh.nodeCount]
    refine ⟨?_, List.pairwise_lt_range', ?_, ?_⟩
    · rw [hh.free]
      exact chain_initial hh.words hh.limit _ _ (Nat.le_refl _) (by omega)
    · intro i hi
      rw [hh.nodeCount] at hi
      rw [List.mem_range'_1, tag, header_initial hh.words hi]
      constructor
      · rintro ⟨hle, -⟩
        rw [initialHeader_of_le hle]
      · intro hfree
        rcases Nat.lt_or_ge i constants.length with hlt | hle
        · have hsome := List.getElem?_eq_getElem hlt
          rw [initialHeader_of_some hsome] at hfree
          have hall : ∀ t ∈ constants, t ≠ .free := by decide
          exact absurd hfree (hall _ (List.getElem_mem hlt))
        · exact ⟨hle, by omega⟩
    · rw [List.length_range', hh.freeCount]

theorem isBlock_iff (hh : Initial h count) {a : Nat} :
    h.IsBlock a ↔ ∃ i, i < count ∧ addressOf i = a := by
  have hsize : h.words.size = nodeSize * count := by rw [hh.words, size_initialWords]
  constructor
  · intro hb
    refine ⟨a / nodeSize, ?_, addressOf_div hb.aligned⟩
    have h1 := hb.mod
    have h2 := hb.le
    simp only [nodeSize] at hsize ⊢
    omega
  · rintro ⟨i, hi, rfl⟩
    refine ⟨addressOf_mod i, ?_⟩
    simp only [addressOf, nodeSize] at hsize ⊢
    omega

theorem intact (hh : Initial h count) : h.Intact where
  size := by
    rw [hh.words, size_initialWords, hh.nodeCount]
  count := hh.nodeCount.symm ▸ hh.limit
  mark := by
    intro a ha
    obtain ⟨i, hi, rfl⟩ := hh.isBlock_iff.1 ha
    rw [header_initial hh.words hi, mark_initialHeader]
  bottom_mod := by
    rw [hh.bottom]
    exact addressOf_mod _
  bottom_le := by
    rw [hh.bottom, hh.words, size_initialWords]
    exact Nat.mul_le_mul_left _ hh.room
  permanent := by
    intro a ha hlow
    obtain ⟨i, hi, rfl⟩ := hh.isBlock_iff.1 ha
    rw [hh.bottom] at hlow
    have hlt : i < constants.length := Nat.lt_of_mul_lt_mul_left hlow
    rw [tag, header_initial hh.words hi, initialHeader_of_some (List.getElem?_eq_getElem hlt)]
    have hall : ∀ t ∈ constants, t ≠ .free := by decide
    exact hall _ (List.getElem_mem hlt)
  constants_le := Nat.le_of_eq hh.bottom.symm
  constant := by
    intro i t ht
    have hi := Nat.lt_of_lt_of_le (List.getElem?_eq_some_iff.1 ht).1 hh.room
    rw [tag, header_initial hh.words hi, initialHeader_of_some ht]
    rfl
  free := ⟨_, hh.filled.free⟩

/-- The only nodes in use are constants. -/
theorem constant_of_inUse (hh : Initial h count) {a : Nat} (ha : h.InUse a) :
    ∃ t ∈ constants, h.header a = .fresh t 1 := by
  obtain ⟨i, hi, rfl⟩ := hh.isBlock_iff.1 ha.toIsBlock
  have hheader := header_initial hh.words hi
  rcases initialHeader_cases count i with hfree | ⟨t, ht, hfresh⟩
  · exact absurd ((congrArg Header.tag hheader).trans hfree) ha.tag_ne
  · exact ⟨t, List.mem_of_getElem? ht, hheader.trans hfresh⟩

theorem sound (hh : Initial h count) : h.Sound where
  toIntact := hh.intact
  toInterned := by
    refine ⟨fun a ha htag => ?_, fun s a hs => ?_, fun n s hs => ?_⟩
    · obtain ⟨t, ht, hheader⟩ := hh.constant_of_inUse (.of_tag ha htag (by decide))
      have hall : ∀ t ∈ constants, t ≠ .string := by decide
      refine absurd ?_ (hall t ht)
      rw [← htag, tag, hheader]
      rfl
    · rw [hh.strings] at hs
      simp at hs
    · rw [hh.texts] at hs
      simp at hs
  typed := by
    intro a ha
    obtain ⟨t, ht, hheader⟩ := hh.constant_of_inUse ha
    have hall : ∀ t ∈ constants, (Header.fresh t 1).childRange = (0, 0) ∧ t ≠ .channel := by decide
    have hsize : h.size a = 1 := by
      rw [size, hheader]
      rfl
    refine ⟨hsize ▸ Nat.le_refl 1, hsize ▸ by decide, fun i _ hlt => ?_, fun hchannel => ?_⟩
    · rw [hheader, (hall t ht).1] at hlt
      exact absurd hlt (Nat.not_lt_zero i)
    · rw [tag, hheader] at hchannel
      exact absurd hchannel (hall t ht).2
  building := by
    rw [hh.building]
    exact fun _ h => absurd h List.not_mem_nil

end Initial

end Create

theorem initial_of_create {words : Nat} {h : Heap} (hcreate : create words = .ok h) :
    Initial h (min (words / nodeSize) noNode.toNat) := by
  unfold create at hcreate
  dsimp only at hcreate
  split at hcreate
  next => cases hcreate
  next hlt =>
    have hfirst := Nat.not_lt.1 hlt
    obtain rfl := Except.ok.inj hcreate
    refine ⟨rfl, hfirst, Nat.min_le_right .., ?_, rfl, rfl, rfl, rfl, rfl⟩
    dsimp only
    split
    next heq => rw [if_neg (by omega)]
    next hne => rw [if_pos (Nat.lt_of_le_of_ne hfirst fun h => hne h.symm)]

/-! ## Allocating in order -/

namespace Filled

variable {h k : Heap} {n : Nat}

/-- The next node is the first free one. -/
theorem first (hf : Filled h n) (hi : h.Intact) (hn : n < h.nodeCount) :
    h.free.toNat = n ∧ h.free ≠ noNode := by
  obtain ⟨m, hm⟩ : ∃ m, h.nodeCount - n = m + 1 := ⟨h.nodeCount - n - 1, by omega⟩
  have hchain := hf.free.chain
  have hcount := hi.count
  rw [hm, List.range'_succ] at hchain
  generalize h.free = i at hchain
  cases hchain with
  | cons hlt _ =>
    refine ⟨rfl, ?_⟩
    rintro rfl
    exact absurd hlt (Nat.not_lt.2 hcount)

/-- If all nodes are in use, none is free. -/
theorem full (hf : Filled h n) (hn : h.nodeCount ≤ n) : h.free = noNode := by
  have hchain := hf.free.chain
  rw [Nat.sub_eq_zero_of_le hn] at hchain
  generalize h.free = i at hchain
  cases hchain with
  | nil => rfl

theorem writes (hf : Filled h n) {a : Address} (ha : h.InUse a)
    (w : Writes h k a) (htag : k.tag a = h.tag a) : Filled k n where
  le := w.nodeCount.symm ▸ hf.le
  free := by
    rw [w.nodeCount]
    exact hf.free.writes ha w htag

theorem congr (hf : Filled h n) (arena : SameArena h k) : Filled k n where
  le := arena.nodeCount.symm ▸ hf.le
  free := by
    rw [arena.nodeCount]
    exact arena.freeList hf.free

end Filled

/-- An allocation takes the next node, while there is one. -/
theorem Sound.allocate_filled {h : Heap} (hs : h.Sound) {n : Nat} (hf : Filled h n)
    (hn : n < h.nodeCount) {roots : Roots} (hroots : ∀ a ∈ roots.get, h.InUse a) {t : Tag}
    (ht : t ≠ .free) {size : Nat} (hpos : 1 ≤ size) (hle : size ≤ nodeSize) :
    ∃ k, allocate t size roots h = .ok (addressOf n) k ∧
      Fresh h k roots.get (addressOf n) t size ∧ Filled k (n + 1) ∧ Keeps h k h.InUse := by
  obtain ⟨hfirst, hfree⟩ := hf.first hs.toIntact hn
  have hspec := hs.allocate_ensures hroots ht size
  obtain ⟨rest, taken⟩ := hs.taken hfree t hpos hle
  have heq : allocate t size roots h = .ok (addressOf n)
      ((h.unlink (addressOf h.free.toNat)).renew (addressOf h.free.toNat) t size) := by
    unfold allocate refill
    rw [if_neg (by omega), if_neg hfree]
    dsimp only
    rw [if_neg hfree, hfirst]
  rw [Ensures, heq] at hspec
  rw [hfirst] at taken hspec heq
  refine ⟨_, heq, hspec.2.2, ⟨?_, ?_⟩, taken.keeps⟩
  · rw [taken.nodeCount]
    exact hn
  · have hlist := taken.first.chain.unique hs.toIntact hf.free.chain
    obtain ⟨m, hm⟩ : ∃ m, h.nodeCount - n = m + 1 := ⟨h.nodeCount - n - 1, by omega⟩
    have hm' : h.nodeCount - (n + 1) = m := by omega
    rw [hm, List.range'_succ, List.cons.injEq] at hlist
    rw [taken.nodeCount, hm', ← hlist.2]
    exact taken.freeList ht

/-- While all nodes in use are live, an allocation takes the next node, or there is none. -/
theorem Sound.allocate_next {h : Heap} (hs : h.Sound) {n : Nat} (hf : Filled h n) {roots : Roots}
    (hroots : ∀ a ∈ roots.get, h.InUse a) (hall : ∀ a, h.InUse a → h.Live roots.get a) {t : Tag}
    (ht : t ≠ .free) {size : Nat} (hpos : 1 ≤ size) (hle : size ≤ nodeSize) :
    Ensures (allocate t size roots) h
      (fun a k => n < h.nodeCount ∧ a = addressOf n ∧ Fresh h k roots.get (addressOf n) t size ∧
        Filled k (n + 1) ∧ Keeps h k h.InUse)
      (fun e _ => e = .heapExhausted ∧ h.nodeCount ≤ n) := by
  rcases Nat.lt_or_ge n h.nodeCount with hn | hn
  · obtain ⟨k, heq, hfresh, hfilled, hkeeps⟩ := hs.allocate_filled hf hn hroots ht hpos hle
    rw [Ensures, heq]
    exact ⟨hn, rfl, hfresh, hfilled, hkeeps⟩
  · refine (hs.allocate_ensures hroots ht size).mono ?_ ?_
    · rintro a k ⟨-, -, f⟩
      have hb := f.toKeeps.isBlock.1 f.isBlock
      exact absurd (hall a ⟨hb, hs.tag_ne_free (hf.full hn) hb⟩) f.not_live
    · rintro e k (⟨-, hsize, -⟩ | ⟨rfl, -⟩)
      · omega
      · exact ⟨rfl, hn⟩

end ChannelMachine.Heap

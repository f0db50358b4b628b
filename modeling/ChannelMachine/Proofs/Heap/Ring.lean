import ChannelMachine.Proofs.Heap.Updating

/-!
# The ring of a channel

A channel stores its values in a ring of slots and marks an empty slot by `vacant`.  `buffered` reads
the values off: they are what stands in the slots from the read index on.  `Ring h a values` says that
the slots of the channel at `a` hold exactly these values, one behind the other, with the write index
behind the last one.  A push then adds a value at the end and a pop takes the first one away, wherever
the ring wraps around.
-/

namespace ChannelMachine.Heap

/-- The slot that is `i` behind the one that is read next. -/
def ringSlot (h : Heap) (a : Address) (i : Nat) : Nat := (h.readSlot a + i) % h.channelSlots a

/-- The values that a channel buffers, the oldest first. -/
def buffered (h : Heap) (a : Address) : List Address :=
  ((List.range (h.channelSlots a)).map fun i => h.channelSlot a (h.ringSlot a i)).filter
    (· ≠ vacant)

/-- The slots of a channel hold these values. -/
structure Ring (h : Heap) (a : Address) (values : List Address) : Prop where
  /-- The next value is read from a slot. -/
  read : h.readSlot a < h.channelSlots a
  /-- There are as many slots as values. -/
  fits : values.length ≤ h.channelSlots a
  /-- The next value is written behind the last one. -/
  write : h.writeSlot a = h.ringSlot a values.length
  /-- The values stand one behind the other, and the other slots are vacant. -/
  slot : ∀ i, i < h.channelSlots a → h.channelSlot a (h.ringSlot a i) = values[i]?.getD vacant
  /-- No value is taken for a vacant slot. -/
  taken : ∀ v ∈ values, v ≠ vacant

/-- What follows from the write index and the read index being those of slots. -/
theorem Sound.channel_bounds {h : Heap} (hs : h.Sound) {a : Address} (ha : h.InUse a)
    (htag : h.tag a = .channel) :
    ringStart + h.channelSlots a ≤ nodeSize ∧ h.writeSlot a < h.channelSlots a ∧
      h.readSlot a < h.channelSlots a := by
  obtain ⟨hsize, hwrite, hread⟩ := (hs.typed a ha).ring htag
  have hle := (hs.typed a ha).le
  exact ⟨hsize ▸ hle, hwrite, hread⟩

/-! ## Slots

A step from a slot reaches the end of the ring at most once. -/

section Slots

variable {h : Heap} {a : Address} {i j : Nat}

theorem ringSlot_lt (hread : h.readSlot a < h.channelSlots a) (i : Nat) :
    h.ringSlot a i < h.channelSlots a :=
  Nat.mod_lt _ (Nat.lt_of_le_of_lt (Nat.zero_le _) hread)

theorem ringSlot_zero (hread : h.readSlot a < h.channelSlots a) :
    h.ringSlot a 0 = h.readSlot a :=
  Nat.mod_eq_of_lt hread

theorem ringSlot_slots (hread : h.readSlot a < h.channelSlots a) :
    h.ringSlot a (h.channelSlots a) = h.readSlot a := by
  rw [ringSlot, Nat.add_mod_right, Nat.mod_eq_of_lt hread]

theorem ringSlot_eq (hread : h.readSlot a < h.channelSlots a) (hi : i < h.channelSlots a) :
    h.ringSlot a i = if h.readSlot a + i < h.channelSlots a then h.readSlot a + i
      else h.readSlot a + i - h.channelSlots a := by
  unfold ringSlot
  split
  next hlt => exact Nat.mod_eq_of_lt hlt
  next hge =>
    rw [Nat.mod_eq_sub_mod (Nat.not_lt.1 hge)]
    exact Nat.mod_eq_of_lt (by omega)

theorem ringSlot_inj (hread : h.readSlot a < h.channelSlots a) (hi : i < h.channelSlots a)
    (hj : j < h.channelSlots a) : h.ringSlot a i = h.ringSlot a j ↔ i = j := by
  constructor
  · intro heq
    rw [ringSlot_eq hread hi, ringSlot_eq hread hj] at heq
    split at heq <;> split at heq <;> omega
  · exact congrArg _

end Slots

/-! ## What a ring says -/

namespace Ring

variable {h k : Heap} {a : Address} {values : List Address}

theorem map_slots (ring : Ring h a values) :
    (List.range (h.channelSlots a)).map (fun i => h.channelSlot a (h.ringSlot a i)) =
      values ++ .replicate (h.channelSlots a - values.length) vacant := by
  have hfits := ring.fits
  apply List.ext_getElem
  · simp only [List.length_map, List.length_range, List.length_append, List.length_replicate]
    omega
  · intro i hi _
    simp only [List.length_map, List.length_range] at hi
    rw [List.getElem_map, List.getElem_range, ring.slot i hi, List.getElem_append]
    split
    next hlt => simp [hlt]
    next hge => simp [Nat.not_lt.1 hge]

theorem buffered_eq (ring : Ring h a values) : h.buffered a = values := by
  have hkept : values.filter (· ≠ vacant) = values :=
    List.filter_eq_self.2 fun v hv => decide_eq_true (ring.taken v hv)
  have hdropped : (List.replicate (h.channelSlots a - values.length) vacant).filter (· ≠ vacant) =
      [] := by
    simp
  rw [buffered, ring.map_slots, List.filter_append, hkept, hdropped, List.append_nil]

theorem getD_eq_vacant_iff (ring : Ring h a values) {i : Nat} :
    values[i]?.getD vacant = vacant ↔ values.length ≤ i := by
  cases hv : values[i]? with
  | none => simpa using hv
  | some v =>
    obtain ⟨hlt, -⟩ := List.getElem?_eq_some_iff.1 hv
    have hne := ring.taken v (List.mem_of_getElem? hv)
    simp only [Option.getD_some]
    constructor
    · exact fun heq => absurd heq hne
    · exact fun hle => absurd hlt (Nat.not_lt.2 hle)

theorem isEmpty_iff (ring : Ring h a values) : h.isEmpty a = true ↔ values = [] := by
  have hfirst := ring.slot 0 (Nat.lt_of_le_of_lt (Nat.zero_le _) ring.read)
  rw [ringSlot_zero ring.read] at hfirst
  rw [Heap.isEmpty, hfirst, beq_iff_eq, ring.getD_eq_vacant_iff, Nat.le_zero,
    List.length_eq_zero_iff]

theorem isFull_iff (ring : Ring h a values) :
    h.isFull a = true ↔ values.length = h.channelSlots a := by
  have hfits := ring.fits
  have hread := ring.read
  rw [Heap.isFull, bne_iff_ne, ne_eq, ring.write]
  rcases Nat.lt_or_eq_of_le hfits with hlt | heq
  · rw [ring.slot _ hlt, ring.getD_eq_vacant_iff]
    omega
  · -- Behind the last slot the write index is back at the read index.
    rw [heq, ringSlot_slots hread, ← ringSlot_zero hread, ring.slot 0 (by omega),
      ring.getD_eq_vacant_iff]
    omega

theorem front (ring : Ring h a values) {v : Address} (hv : values.head? = some v) :
    h.channelFront a = v := by
  have hfirst := ring.slot 0 (Nat.lt_of_le_of_lt (Nat.zero_le _) ring.read)
  rw [ringSlot_zero ring.read] at hfirst
  rw [Heap.channelFront, hfirst, ← List.head?_eq_getElem?, hv, Option.getD_some]

/-- Only the words behind the header count. -/
theorem congr_word (ring : Ring h a values) (hle : ringStart + h.channelSlots a ≤ nodeSize)
    (hword : ∀ i, 1 ≤ i → i < nodeSize → k.word a i = h.word a i) : Ring k a values := by
  have hstart : ringStart = 4 := rfl
  have hsize : nodeSize = 10 := rfl
  have hslots : k.channelSlots a = h.channelSlots a := hword 1 (by omega) (by omega)
  have hwrite : k.writeSlot a = h.writeSlot a := hword 2 (by omega) (by omega)
  have hread : k.readSlot a = h.readSlot a := hword 3 (by omega) (by omega)
  have hring : k.ringSlot a = h.ringSlot a := by
    funext i
    rw [ringSlot, ringSlot, hslots, hread]
  constructor
  · rw [hslots, hread]
    exact ring.read
  · rw [hslots]
    exact ring.fits
  · rw [hwrite, hring]
    exact ring.write
  · intro i hi
    rw [hslots] at hi
    have hlt := ringSlot_lt ring.read i
    rw [hring, channelSlot, hword _ (by omega) (by omega)]
    exact ring.slot i hi
  · exact ring.taken

theorem same (ring : Ring h a values) (hle : ringStart + h.channelSlots a ≤ nodeSize)
    (node : SameNode h k a) : Ring k a values :=
  ring.congr_word hle node.word

end Ring

/-! ## What happens to a ring -/

section Steps

variable {h k : Heap} {a : Address} {values : List Address}

/-- A new channel buffers nothing. -/
theorem ring_nil {header : Header} {slots : Nat} (hpos : 0 < slots)
    (holds : Holds h a header (emptyRing slots)) :
    h.channelSlots a = slots ∧ Ring h a [] := by
  have hslots : h.channelSlots a = slots := holds.word 0 slots rfl
  have hwrite : h.writeSlot a = 0 := holds.word 1 0 rfl
  have hread : h.readSlot a = 0 := holds.word 2 0 rfl
  refine ⟨hslots, ?_, ?_, ?_, ?_, ?_⟩
  · rw [hread, hslots]
    exact hpos
  · exact Nat.zero_le _
  · rw [hwrite, ringSlot, hread]
    exact (Nat.zero_mod _).symm
  · intro i hi
    rw [ringSlot, hread, Nat.zero_add, Nat.mod_eq_of_lt hi, channelSlot, Nat.add_comm]
    refine holds.word (i + 3) vacant ?_
    rw [hslots] at hi
    simp [emptyRing, hi]
  · exact fun v hv => absurd hv List.not_mem_nil

/-- A write to a slot and one to an index, seen from the words of a channel. -/
theorem word_slot_index {i j : Nat} (ha : h.IsBlock a) (hi : ringStart + i < nodeSize)
    (hj : j < ringStart) (v next : Nat) {n : Nat} (hn : n < nodeSize) :
    ((h.setWord a (ringStart + i) v).setWord a j next).word a n =
      if n = j then next else if n = ringStart + i then v else h.word a n := by
  have hsize : nodeSize = 10 := rfl
  have hstart : ringStart = 4 := rfl
  have hblock : (h.setWord a (ringStart + i) v).IsBlock a :=
    (IsBlock.congr (size_words_setWord ..)).2 ha
  rw [word_setWord_block hblock hblock (by omega) hn, word_setWord_block ha ha hi hn]
  simp

/-- A value is pushed behind the others. -/
theorem Ring.push (ring : Ring h a values) (ha : h.IsBlock a)
    (hle : ringStart + h.channelSlots a ≤ nodeSize) (hroom : values.length < h.channelSlots a)
    {v : Address} (hv : v ≠ vacant) :
    (h.channelPush a v).channelSlots a = h.channelSlots a ∧
      Ring (h.channelPush a v) a (values ++ [v]) := by
  have hstart : ringStart = 4 := rfl
  have hsize : nodeSize = 10 := rfl
  have hread := ring.read
  have hlt : h.writeSlot a < h.channelSlots a := ring.write ▸ ringSlot_lt hread _
  have hword : ∀ {n : Nat}, n < nodeSize → (h.channelPush a v).word a n =
      if n = 2 then (h.writeSlot a + 1) % h.channelSlots a
      else if n = ringStart + h.writeSlot a then v else h.word a n :=
    fun hn => word_slot_index ha (by omega) (by omega) v _ hn
  have hslots : (h.channelPush a v).channelSlots a = h.channelSlots a := by
    rw [channelSlots, hword (by omega), if_neg (by omega), if_neg (by omega)]
    rfl
  have hread' : (h.channelPush a v).readSlot a = h.readSlot a := by
    rw [readSlot, hword (by omega), if_neg (by omega), if_neg (by omega)]
    rfl
  have hring : (h.channelPush a v).ringSlot a = h.ringSlot a := by
    funext i
    rw [ringSlot, ringSlot, hslots, hread']
  have hslot : ∀ i, i < h.channelSlots a → (h.channelPush a v).channelSlot a i =
      if i = h.writeSlot a then v else h.channelSlot a i := by
    intro i hi
    rw [channelSlot, hword (by omega), if_neg (by omega)]
    by_cases heq : i = h.writeSlot a
    · rw [if_pos heq, if_pos (by rw [heq])]
    · rw [if_neg heq, if_neg (by omega)]
      rfl
  refine ⟨hslots, ?_, ?_, ?_, ?_, ?_⟩
  · rw [hslots, hread']
    exact hread
  · rw [hslots, List.length_append]
    exact hroom
  · rw [hring, writeSlot, hword (by omega), if_pos rfl, ring.write, ringSlot, ringSlot,
      List.length_append, Nat.mod_add_mod]
    rfl
  · intro i hi
    rw [hslots] at hi
    rw [hring, hslot _ (ringSlot_lt hread i), ring.write]
    by_cases heq : i = values.length
    · rw [if_pos (by rw [heq]), heq]
      simp
    · rw [if_neg fun h => heq ((ringSlot_inj hread hi hroom).1 h), ring.slot i hi]
      by_cases hlen : i < values.length
      · rw [List.getElem?_append_left hlen]
      · rw [List.getElem?_eq_none (by omega), List.getElem?_eq_none (by
          rw [List.length_append, List.length_singleton]
          omega)]
  · intro w hw
    rcases List.mem_append.1 hw with hw | hw
    · exact ring.taken w hw
    · exact List.mem_singleton.1 hw ▸ hv

/-- The first value is popped. -/
theorem Ring.pop {v : Address} (ring : Ring h a (v :: values)) (ha : h.IsBlock a)
    (hle : ringStart + h.channelSlots a ≤ nodeSize) :
    (h.channelPop a).channelSlots a = h.channelSlots a ∧ Ring (h.channelPop a) a values := by
  have hstart : ringStart = 4 := rfl
  have hsize : nodeSize = 10 := rfl
  have hread := ring.read
  have hfits := ring.fits
  rw [List.length_cons] at hfits
  have hword : ∀ {n : Nat}, n < nodeSize → (h.channelPop a).word a n =
      if n = 3 then (h.readSlot a + 1) % h.channelSlots a
      else if n = ringStart + h.readSlot a then vacant else h.word a n :=
    fun hn => word_slot_index ha (by omega) (by omega) vacant _ hn
  have hslots : (h.channelPop a).channelSlots a = h.channelSlots a := by
    rw [channelSlots, hword (by omega), if_neg (by omega), if_neg (by omega)]
    rfl
  have hwrite : (h.channelPop a).writeSlot a = h.writeSlot a := by
    rw [writeSlot, hword (by omega), if_neg (by omega), if_neg (by omega)]
    rfl
  have hread' : (h.channelPop a).readSlot a = (h.readSlot a + 1) % h.channelSlots a := by
    rw [readSlot, hword (by omega), if_pos rfl]
  have hring : ∀ i, (h.channelPop a).ringSlot a i = h.ringSlot a (i + 1) := by
    intro i
    rw [ringSlot, ringSlot, hslots, hread', Nat.mod_add_mod, Nat.add_assoc, Nat.add_comm 1]
  have hslot : ∀ i, i < h.channelSlots a → (h.channelPop a).channelSlot a i =
      if i = h.readSlot a then vacant else h.channelSlot a i := by
    intro i hi
    rw [channelSlot, hword (by omega), if_neg (by omega)]
    by_cases heq : i = h.readSlot a
    · rw [if_pos heq, if_pos (by rw [heq])]
    · rw [if_neg heq, if_neg (by omega)]
      rfl
  refine ⟨hslots, ?_, ?_, ?_, ?_, ?_⟩
  · rw [hslots, hread']
    exact Nat.mod_lt _ (by omega)
  · rw [hslots]
    omega
  · rw [hring, hwrite, ring.write, List.length_cons]
  · intro i hi
    rw [hslots] at hi
    rw [hring, hslot _ (ringSlot_lt hread _)]
    by_cases hlast : i + 1 = h.channelSlots a
    · rw [hlast, if_pos (ringSlot_slots hread), List.getElem?_eq_none (by omega), Option.getD_none]
    · have hne : h.ringSlot a (i + 1) ≠ h.readSlot a := by
        rw [← ringSlot_zero hread, ne_eq, ringSlot_inj hread (by omega) (by omega)]
        omega
      rw [if_neg hne, ring.slot (i + 1) (by omega), List.getElem?_cons_succ]
  · exact fun w hw => ring.taken w (List.mem_cons_of_mem _ hw)

end Steps

/-! ## The payload -/

section Payload

variable {h k : Heap} {a : Address}

theorem toNat_channelPayload (unbuffered : Bool) {kind : Nat} (hkind : kind < 256) :
    (channelPayload unbuffered kind).toNat = 256 * kind + if unbuffered then 1 else 0 := by
  rw [channelPayload, UInt32.toNat_ofNat_of_lt']
  change _ < 4294967296
  split <;> omega

theorem isUnbuffered_eq {unbuffered : Bool} {kind : Nat} (hkind : kind < 256)
    (hpayload : h.payload a = channelPayload unbuffered kind) : h.isUnbuffered a = unbuffered := by
  rw [isUnbuffered, hpayload, toNat_channelPayload _ hkind]
  cases unbuffered <;> simp <;> omega

theorem payload_setElementKind (ha : h.IsBlock a) (kind : Tag) :
    (h.setElementKind a kind).payload a = channelPayload (h.isUnbuffered a) kind.code :=
  congrArg Header.payload (header_setPayload ha _)

/-- A channel stays buffered or unbuffered when the kind of its elements is recorded. -/
theorem isUnbuffered_setElementKind (ha : h.IsBlock a) (kind : Tag) :
    (h.setElementKind a kind).isUnbuffered a = h.isUnbuffered a :=
  isUnbuffered_eq kind.code_lt (payload_setElementKind ha kind)

/-- The kind that is recorded is the one that is read. -/
theorem elementKind?_setElementKind (ha : h.IsBlock a) (kind : Tag) :
    (h.setElementKind a kind).elementKind? a = some kind := by
  have hlt : kind.code < noKind := by cases kind <;> decide
  have hcode : ((h.setElementKind a kind).payload a).toNat / 256 % 256 = kind.code := by
    rw [payload_setElementKind ha, toNat_channelPayload _ kind.code_lt]
    have := kind.code_lt
    split <;> omega
  rw [elementKind?]
  simp only [hcode]
  rw [if_neg (Nat.ne_of_lt hlt), Tag.ofCode?_code]

/-- Recording the kind of the elements keeps the words behind the header. -/
theorem word_setElementKind (ha : h.IsBlock a) (kind : Tag) {i : Nat} (hpos : 1 ≤ i)
    (hi : i < nodeSize) : (h.setElementKind a kind).word a i = h.word a i :=
  word_setHeader ha ha hpos hi _

theorem isFull_setElementKind (ha : h.IsBlock a) (hi : ringStart + h.writeSlot a < nodeSize)
    (kind : Tag) : (h.setElementKind a kind).isFull a = h.isFull a := by
  have hwrite : (h.setElementKind a kind).writeSlot a = h.writeSlot a :=
    word_setElementKind ha kind (by decide) (by decide)
  rw [isFull, isFull, hwrite, channelSlot,
    word_setElementKind ha kind (Nat.le_trans (by decide) (Nat.le_add_right ringStart _)) hi]
  rfl

/-- A write to a slot and one to an index keep the header. -/
theorem header_slot_index {i j : Nat} (ha : h.IsBlock a) (hi : ringStart + i < nodeSize)
    (hpos : 1 ≤ j) (hj : j < ringStart) (v next : Nat) :
    ((h.setWord a (ringStart + i) v).setWord a j next).header a = h.header a := by
  have hblock : (h.setWord a (ringStart + i) v).IsBlock a :=
    (IsBlock.congr (size_words_setWord ..)).2 ha
  rw [header_setWord hblock hblock hpos (Nat.lt_trans hj (by decide)),
    header_setWord ha ha (Nat.le_trans (by decide) (Nat.le_add_right ringStart _)) hi]

theorem header_channelPush (ha : h.IsBlock a) (hi : ringStart + h.writeSlot a < nodeSize)
    (v : Address) : (h.channelPush a v).header a = h.header a :=
  header_slot_index ha hi (by decide) (by decide) v _

theorem header_channelPop (ha : h.IsBlock a) (hi : ringStart + h.readSlot a < nodeSize) :
    (h.channelPop a).header a = h.header a :=
  header_slot_index ha hi (by decide) (by decide) vacant _

theorem isUnbuffered_congr (hheader : k.header a = h.header a) :
    k.isUnbuffered a = h.isUnbuffered a := by
  rw [Heap.isUnbuffered, Heap.isUnbuffered, payload, hheader, payload]

theorem elementKind?_congr (hheader : k.header a = h.header a) :
    k.elementKind? a = h.elementKind? a := by
  rw [Heap.elementKind?, Heap.elementKind?, payload, hheader, payload]

/-- Recording the kind of the elements keeps the values. -/
theorem Ring.setElementKind {values : List Address} (ring : Ring h a values) (ha : h.IsBlock a)
    (hle : ringStart + h.channelSlots a ≤ nodeSize) (kind : Tag) :
    Ring (h.setElementKind a kind) a values :=
  ring.congr_word hle fun _ hpos hlt => word_setElementKind ha kind hpos hlt

end Payload

end ChannelMachine.Heap

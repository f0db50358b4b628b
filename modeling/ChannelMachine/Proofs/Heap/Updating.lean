import ChannelMachine.Heap.Channel
import ChannelMachine.Proofs.Heap.Building

/-!
# Updates

Some nodes are written while they are in use: the variables of a frame, the slots of a channel with
its indices and its element kind, and the counter of a wait-group.  `Updated h k a` says that the
sound heap `k` differs from `h` in the node at `a` only, which is still of its kind.
-/

namespace ChannelMachine.Heap

/-- A sound heap that differs in one node, which is still of its kind. -/
structure Updated (h k : Heap) (a : Nat) : Prop extends Writes h k a where
  /-- The node is still of its kind. -/
  kind : k.tag a = h.tag a
  /-- The heap is sound. -/
  sound : k.Sound

namespace Updated

variable {h k l : Heap} {a b : Nat}

/-- All nodes are still of their kinds. -/
theorem tag (u : Updated h k a) (hb : h.IsBlock b) : k.tag b = h.tag b := by
  by_cases hne : b = a
  · rw [hne, u.kind]
  · exact (u.toWrites.same hb hne).tag

theorem inUse (u : Updated h k a) (hb : h.InUse b) : k.InUse b :=
  (InUse.congr u.toWrites.size (u.tag hb.toIsBlock)).2 hb

theorem trans (first : Updated h k a) (second : Updated k l a) : Updated h l a :=
  ⟨first.toWrites.trans second.toWrites, second.kind.trans first.kind, second.sound⟩

end Updated

/-- Writing a word of a node in use leaves a sound heap, if the kind of node admits the word. -/
theorem Sound.setWord {h : Heap} (hs : h.Sound) {a i : Nat} (ha : h.InUse a)
    (hpos : 1 ≤ i) (hlt : i < nodeSize) {w : Nat} (hstring : h.tag a ≠ .string)
    (hchild : (h.header a).childRange.1 ≤ i → i < (h.header a).childRange.2 →
      h.Child (h.tag a) w)
    (hring : h.tag a = .channel → i ≠ 1 ∧ (i = 2 ∨ i = 3 → w < h.channelSlots a)) :
    Updated h (h.setWord a i w) a := by
  have hb := ha.toIsBlock
  have hw := writes_setWord hb hlt w
  have hheader : (h.setWord a i w).header a = h.header a := header_setWord hb hb hpos hlt w
  have htag : (h.setWord a i w).tag a = h.tag a := congrArg Header.tag hheader
  have hword : ∀ j, j < nodeSize →
      (h.setWord a i w).word a j = if j = i then w else h.word a j := by
    intro j hj
    rw [word_setWord_block hb hb hlt hj]
    simp
  have hsound := hs.typed a ha
  have htags : ∀ b, h.InUse b → (h.setWord a i w).tag b = h.tag b := by
    intro b hin
    by_cases hne : b = a
    · rw [hne, htag]
    · exact (hw.same hin.toIsBlock hne).tag
  have hchildren : ∀ v, h.Child (h.tag a) v → (h.setWord a i w).Child (h.tag a) v := by
    rintro v (hvacant | ⟨hin, hadmits⟩)
    · exact .inl hvacant
    · exact .inr ⟨(InUse.congr hw.size (htags v hin)).2 hin, (htags v hin).symm ▸ hadmits⟩
  have hnode : (h.setWord a i w).NodeSound a := by
    refine ⟨?_, ?_, ?_, ?_⟩
    · rw [Heap.size, hheader]
      exact hsound.pos
    · rw [Heap.size, hheader]
      exact hsound.le
    · intro j hle hlt'
      rw [hheader] at hle hlt'
      rw [htag, hword j (Nat.lt_of_lt_of_le hlt' hsound.range)]
      by_cases hji : j = i
      · rw [if_pos hji]
        exact hchildren w (hchild (hji ▸ hle) (hji ▸ hlt'))
      · rw [if_neg hji]
        exact hchildren _ (hsound.child j hle hlt')
    · intro hchannel
      rw [htag] at hchannel
      obtain ⟨hone, hindex⟩ := hring hchannel
      obtain ⟨hsize, hwrite, hread⟩ := hsound.ring hchannel
      have hslots : (h.setWord a i w).channelSlots a = h.channelSlots a := by
        rw [channelSlots, hword 1 (by decide), if_neg fun heq => hone heq.symm]
        rfl
      rw [hslots]
      refine ⟨?_, ?_, ?_⟩
      · rw [Heap.size, hheader]
        exact hsize
      · rw [writeSlot, hword 2 (by decide)]
        split
        next heq => exact hindex (.inl heq.symm)
        next => exact hwrite
      · rw [readSlot, hword 3 (by decide)]
        split
        next heq => exact hindex (.inr heq.symm)
        next => exact hread
  refine ⟨hw, htag, (hs.but ha hstring).writes hw htag ?_ (htag ▸ hstring) hnode⟩
  rw [hheader]
  exact hs.mark a hb

/-- A new payload leaves a sound heap. -/
theorem Sound.setPayload {h : Heap} (hs : h.Sound) {a : Nat} (ha : h.InUse a)
    (hstring : h.tag a ≠ .string) (payload : UInt32) :
    Updated h (h.setPayload a payload) a := by
  have hb := ha.toIsBlock
  have hw := writes_setPayload hb payload
  have hheader := header_setPayload hb payload
  have htag : (h.setPayload a payload).tag a = h.tag a := (congrArg Header.tag hheader :)
  have hword : ∀ i, 1 ≤ i → i < nodeSize → (h.setPayload a payload).word a i = h.word a i :=
    fun i hpos hlt => word_setHeader hb hb hpos hlt _
  have hsound := hs.typed a ha
  have hsize : (h.setPayload a payload).size a = h.size a := by
    rw [Heap.size, Heap.size, hheader]
  have htags : ∀ b, h.InUse b → (h.setPayload a payload).tag b = h.tag b := by
    intro b hin
    by_cases hne : b = a
    · rw [hne, htag]
    · exact (hw.same hin.toIsBlock hne).tag
  have hnode : (h.setPayload a payload).NodeSound a := by
    refine ⟨hsize ▸ hsound.pos, hsize ▸ hsound.le, ?_, ?_⟩
    · intro i hle hlt
      rw [hheader] at hle hlt
      have hpos := Header.one_le_childRange_fst (Nat.lt_of_le_of_lt hle hlt)
      have hend := Nat.lt_of_lt_of_le hlt hsound.range
      rw [htag, hword i (Nat.le_trans hpos hle) hend]
      rcases hsound.child i hle hlt with hvacant | ⟨hin, hadmits⟩
      · exact .inl hvacant
      · exact .inr ⟨(InUse.congr hw.size (htags _ hin)).2 hin, (htags _ hin).symm ▸ hadmits⟩
    · intro hchannel
      rw [hsize, channelSlots, writeSlot, readSlot, hword 1 (by decide) (by decide),
        hword 2 (by decide) (by decide), hword 3 (by decide) (by decide)]
      exact hsound.ring (htag ▸ hchannel)
  refine ⟨hw, htag, (hs.but ha hstring).writes hw htag ?_ (htag ▸ hstring) hnode⟩
  rw [hheader]
  exact hs.mark a hb

/-! ## Variables -/

theorem childRange_frame {h : Heap} {a : Address} (htag : h.tag a = .frame) :
    (h.header a).childRange = (1, h.size a) :=
  childRange_of_tag htag

/-- The frames of an environment are frames in use. -/
theorem Sound.word_environment {h : Heap} (hs : h.Sound) {environment : Nat}
    (henv : h.InUse environment) (htag : h.tag environment = .environment) {n : Nat}
    (hn : n < h.frameCount environment) :
    h.InUse (h.word environment (n + 1)) ∧ h.tag (h.word environment (n + 1)) = .frame := by
  have hlt : n < h.size environment - 1 := hn
  have hrange := childRange_environment htag
  have hchild := (hs.typed environment henv).child (n + 1)
    (by rw [hrange]; exact Nat.le_add_left ..) (by rw [hrange]; exact Nat.add_lt_of_lt_sub hlt)
  rw [htag] at hchild
  rcases hchild with ⟨hchannel, -⟩ | ⟨hin, hadmits⟩
  · cases hchannel
  · exact ⟨hin, hadmits⟩

/-- The variables of a frame are values in use. -/
theorem Sound.word_frame {h : Heap} (hs : h.Sound) {frame i : Nat} (hframe : h.InUse frame)
    (htag : h.tag frame = .frame) (hpos : 1 ≤ i) (hlt : i < h.size frame) :
    h.InUse (h.word frame i) ∧ (h.tag (h.word frame i)).isValue = true := by
  have hrange := childRange_frame htag
  have hchild := (hs.typed frame hframe).child i (by rw [hrange]; exact hpos)
    (by rw [hrange]; exact hlt)
  rw [htag] at hchild
  rcases hchild with ⟨hchannel, -⟩ | ⟨hin, hadmits⟩
  · cases hchannel
  · exact ⟨hin, hadmits⟩

/-- The slot of a variable is one of a frame. -/
theorem Sound.slotOf? {h : Heap} (hs : h.Sound) {environment : Nat} (henv : h.InUse environment)
    (htag : h.tag environment = .environment) {p : Position} {frame i : Nat}
    (hslot : h.slotOf? environment p = some (frame, i)) :
    h.InUse frame ∧ h.tag frame = .frame ∧ 1 ≤ i ∧ i < h.size frame := by
  unfold Heap.slotOf? at hslot
  split at hslot
  next hn =>
    dsimp only at hslot
    split at hslot
    next hin =>
      simp only [Option.some.injEq, Prod.mk.injEq] at hslot
      obtain ⟨rfl, rfl⟩ := hslot
      exact ⟨(hs.word_environment henv htag hn).1, hin.1, Nat.le_add_left .., hin.2⟩
    next => cases hslot
  next => cases hslot

/-- The value of a variable is a value in use. -/
theorem Sound.lookup {h : Heap} (hs : h.Sound) {environment : Nat} (henv : h.InUse environment)
    (htag : h.tag environment = .environment) {p : Position} {a : Address}
    (ha : h.lookup environment p = .ok a) : h.InUse a ∧ (h.tag a).isValue = true := by
  unfold Heap.lookup at ha
  split at ha
  next frame i hslot =>
    obtain ⟨hframe, hftag, hpos, hlt⟩ := hs.slotOf? henv htag hslot
    obtain rfl : h.word frame i = a := Except.ok.inj ha
    exact hs.word_frame hframe hftag hpos hlt
  next => cases ha

/-- A frame takes any value. -/
theorem Sound.setVariable {h : Heap} (hs : h.Sound) {frame i : Nat} (hframe : h.InUse frame)
    (htag : h.tag frame = .frame) (hpos : 1 ≤ i) (hlt : i < h.size frame) {w : Nat}
    (hw : h.InUse w) (hvalue : (h.tag w).isValue = true) :
    Updated h (h.setWord frame i w) frame := by
  have hle := (hs.typed frame hframe).le
  refine hs.setWord hframe hpos (Nat.lt_of_lt_of_le hlt hle) (by rw [htag]; decide) ?_ ?_
  · intro _ _
    rw [htag]
    exact .inr ⟨hw, hvalue⟩
  · intro hchannel
    rw [htag] at hchannel
    cases hchannel

/-! ## Channels -/

theorem childRange_channel {h : Heap} {a : Address} (htag : h.tag a = .channel) :
    (h.header a).childRange = (ringStart, h.size a) :=
  childRange_of_tag htag

/-- What a slot of a channel holds is a value in use, or the slot is vacant. -/
theorem Sound.channelSlot {h : Heap} (hs : h.Sound) {a i : Nat} (ha : h.InUse a)
    (htag : h.tag a = .channel) (hi : i < h.channelSlots a) (hne : h.channelSlot a i ≠ vacant) :
    h.InUse (h.channelSlot a i) ∧ (h.tag (h.channelSlot a i)).isValue = true := by
  have hrange := childRange_channel htag
  have hsize := ((hs.typed a ha).ring htag).1
  have hchild := (hs.typed a ha).child (ringStart + i) (by rw [hrange]; exact Nat.le_add_right ..)
    (by rw [hrange, hsize]; exact Nat.add_lt_add_left hi _)
  rw [htag] at hchild
  rcases hchild with ⟨-, hvacant⟩ | ⟨hin, hadmits⟩
  · exact absurd hvacant hne
  · exact ⟨hin, hadmits⟩

/-- A slot of a channel takes any value, and can be made vacant. -/
theorem Sound.setSlot {h : Heap} (hs : h.Sound) {a i w : Nat} (ha : h.InUse a)
    (htag : h.tag a = .channel) (hi : i < h.channelSlots a) (hw : h.Child .channel w) :
    Updated h (h.setWord a (ringStart + i) w) a := by
  have hsize := ((hs.typed a ha).ring htag).1
  have hle := (hs.typed a ha).le
  have hstart : ringStart = 4 := rfl
  refine hs.setWord ha (by omega) (by omega) (by rw [htag]; decide) ?_ ?_
  · intro _ _
    rw [htag]
    exact hw
  · intro _
    exact ⟨by omega, fun h => by omega⟩

/-- An index of a channel moves to another slot. -/
theorem Sound.setIndex {h : Heap} (hs : h.Sound) {a i w : Nat} (ha : h.InUse a)
    (htag : h.tag a = .channel) (hi : i = 2 ∨ i = 3) (hw : w < h.channelSlots a) :
    Updated h (h.setWord a i w) a := by
  have hsize : nodeSize = 10 := rfl
  have hstart : ringStart = 4 := rfl
  refine hs.setWord ha (by omega) (by omega) (by rw [htag]; decide) ?_ ?_
  · intro hle _
    rw [childRange_channel htag] at hle
    have hle' : ringStart ≤ i := hle
    omega
  · intro _
    exact ⟨by omega, fun _ => hw⟩

/-- Writing a slot or an index keeps the number of slots. -/
theorem channelSlots_setWord {h : Heap} {a i : Nat} (ha : h.IsBlock a) (hi : 2 ≤ i)
    (hlt : i < nodeSize) (w : Nat) : (h.setWord a i w).channelSlots a = h.channelSlots a := by
  rw [channelSlots, word_setWord_block ha ha hlt (by decide), if_neg (by omega)]
  rfl

theorem Sound.channelPush {h : Heap} (hs : h.Sound) {a w : Nat} (ha : h.InUse a)
    (htag : h.tag a = .channel) (hw : h.InUse w) (hvalue : (h.tag w).isValue = true) :
    Updated h (h.channelPush a w) a := by
  obtain ⟨hsize, hwrite, -⟩ := (hs.typed a ha).ring htag
  have hle := (hs.typed a ha).le
  have hstart : ringStart = 4 := rfl
  have first := hs.setSlot ha htag hwrite (.inr ⟨hw, hvalue⟩)
  refine first.trans (first.sound.setIndex (first.inUse ha) (first.kind.trans htag) (.inl rfl) ?_)
  rw [channelSlots_setWord ha.toIsBlock (by omega) (by omega)]
  exact Nat.mod_lt _ (Nat.lt_of_le_of_lt (Nat.zero_le _) hwrite)

theorem Sound.channelPop {h : Heap} (hs : h.Sound) {a : Nat} (ha : h.InUse a)
    (htag : h.tag a = .channel) : Updated h (h.channelPop a) a := by
  obtain ⟨hsize, -, hread⟩ := (hs.typed a ha).ring htag
  have hle := (hs.typed a ha).le
  have hstart : ringStart = 4 := rfl
  have first := hs.setSlot ha htag hread (.inl ⟨rfl, rfl⟩)
  refine first.trans (first.sound.setIndex (first.inUse ha) (first.kind.trans htag) (.inr rfl) ?_)
  rw [channelSlots_setWord ha.toIsBlock (by omega) (by omega)]
  exact Nat.mod_lt _ (Nat.lt_of_le_of_lt (Nat.zero_le _) hread)

theorem Sound.setElementKind {h : Heap} (hs : h.Sound) {a : Nat} (ha : h.InUse a)
    (htag : h.tag a = .channel) (kind : Tag) : Updated h (h.setElementKind a kind) a :=
  hs.setPayload ha (by rw [htag]; decide) _

/-- The slots of a channel, counted one by one. -/
theorem channelLength_eq {h : Heap} {a : Nat} (hin : a + ringStart + h.channelSlots a ≤ h.words.size) :
    h.channelLength a =
      (List.range (h.channelSlots a)).countP fun i => h.channelSlot a i != vacant := by
  have hslots : h.words.extract (a + ringStart) (a + ringStart + h.channelSlots a) =
      ((List.range (h.channelSlots a)).map (h.channelSlot a)).toArray := by
    refine Array.ext ?_ fun i hi hi' => ?_
    · simp only [Array.size_extract, List.size_toArray, List.length_map, List.length_range]
      omega
    · have hlt : i < h.channelSlots a := by simpa using hi'
      have hbound : a + (ringStart + i) < h.words.size := by omega
      simp only [Array.getElem_extract, List.getElem_toArray, List.getElem_map, List.getElem_range,
        Heap.channelSlot, word, Array.getD_eq_getD_getElem?, Array.getElem?_eq_getElem hbound,
        Option.getD_some, Nat.add_assoc]
  rw [channelLength, hslots, List.countP_toArray, List.countP_map]
  rfl

theorem Sound.channelLength_eq {h : Heap} (hs : h.Sound) {a : Nat} (ha : h.InUse a)
    (htag : h.tag a = .channel) : h.channelLength a =
      (List.range (h.channelSlots a)).countP fun i => h.channelSlot a i != vacant := by
  have hsize := ((hs.typed a ha).ring htag).1
  have hle := (hs.typed a ha).le
  have hinside := ha.inside
  exact Heap.channelLength_eq (by omega)

/-! ## Wait-groups -/

/-- The counter of a wait-group is a number in use. -/
theorem Sound.counter {h : Heap} (hs : h.Sound) {a : Nat} (ha : h.InUse a)
    (htag : h.tag a = .waitGroup) :
    h.InUse (h.word a 1) ∧ h.tag (h.word a 1) = .number := by
  have hrange : (h.header a).childRange = (1, 2) := childRange_of_tag htag
  have hchild := (hs.typed a ha).child 1 (Nat.le_of_eq (congrArg Prod.fst hrange))
    (by rw [hrange]; decide)
  rw [htag] at hchild
  rcases hchild with ⟨hchannel, -⟩ | ⟨hin, hadmits⟩
  · cases hchannel
  · exact ⟨hin, hadmits⟩

theorem Sound.setGroupCount {h : Heap} (hs : h.Sound) {a : Nat} (ha : h.InUse a)
    (htag : h.tag a = .waitGroup) (count : Number) :
    Updated h (h.setGroupCount a count) (h.word a 1) := by
  obtain ⟨hin, hnumber⟩ := hs.counter ha htag
  refine hs.setWord hin (Nat.le_refl 1) (by decide) (by rw [hnumber]; decide) ?_ ?_
  · intro _ hlt
    rw [childRange_of_tag hnumber] at hlt
    exact absurd hlt (Nat.not_lt_zero _)
  · intro hchannel
    rw [hnumber] at hchannel
    cases hchannel

end ChannelMachine.Heap

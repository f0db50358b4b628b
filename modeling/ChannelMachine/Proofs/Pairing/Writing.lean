import ChannelMachine.Proofs.Pairing.Reading

/-!
# Writing into partners

A write into a node, and the same write into its partner, keep the two heaps paired.
-/

namespace ChannelMachine.Heap

/-- Two paired heaps after nodes were written that are still of their kinds.  The call frames resume
where they did. -/
structure Rewrites (ρ : Pairing) (h h' k k' : Heap) (roots roots' : List Address) : Prop extends
    Paired ρ h' k' roots roots' where
  tag : ∀ a, h.InUse a → h'.tag a = h.tag a
  payload : ∀ a, h.InUse a → h.tag a = .callframe → h'.payload a = h.payload a
  left_count : h'.nodeCount = h.nodeCount
  right_count : k'.nodeCount = k.nodeCount

variable {ρ : Pairing} {h h' h'' k k' k'' : Heap} {roots roots' : List Address} {a b : Nat}

theorem Rewrites.trans (first : Rewrites ρ h h' k k' roots roots')
    (hin : ∀ a, h.InUse a → h'.InUse a) (second : Rewrites ρ h' h'' k' k'' roots roots') :
    Rewrites ρ h h'' k k'' roots roots' where
  toPaired := second.toPaired
  tag := fun a ha => (second.tag a (hin a ha)).trans (first.tag a ha)
  payload := fun a ha ht => (second.payload a (hin a ha) ((first.tag a ha).trans ht)).trans
    (first.payload a ha ht)
  left_count := second.left_count.trans first.left_count
  right_count := second.right_count.trans first.right_count

namespace Paired

/-- The heaps stay paired if the nodes that were written still look the same. -/
theorem updated (p : Paired ρ h k roots roots') (hab : ρ a b) (left : Updated h h' a)
    (right : Updated k k' b) (s : Similar ρ h' k' a b)
    (hpayload : h.tag a = .callframe → h'.payload a = h.payload a) :
    Rewrites ρ h h' k k' roots roots' where
  tag := fun c hc => left.tag hc.toIsBlock
  payload := by
    intro c hc ht
    by_cases hca : c = a
    · exact hca ▸ hpayload (hca ▸ ht)
    · exact (left.toWrites.same hc.toIsBlock hca).payload
  left_count := left.toWrites.nodeCount
  right_count := right.toWrites.nodeCount
  left_inUse := fun c d hcd => left.inUse (p.left_inUse c d hcd)
  right_inUse := fun c d hcd => right.inUse (p.right_inUse c d hcd)
  similar := by
    intro c d hcd
    by_cases hc : c = a
    · obtain rfl : d = b := p.right_unique a d b (hc ▸ hcd) hab
      exact hc ▸ s
    · have hd : d ≠ b := by
        rintro rfl
        exact hc (p.left_unique c a d hcd hab)
      have hcb := (p.left_inUse c d hcd).toIsBlock
      have hdb := (p.right_inUse c d hcd).toIsBlock
      exact (p.similar c d hcd).transport (left.toWrites.same hcb hc) (left.toWrites.text? hcb hc)
        (right.toWrites.same hdb hd) (right.toWrites.text? hdb hd)
        (p.left.typed c (p.left_inUse c d hcd)).range fun _ _ _ hw => hw
  right_unique := p.right_unique
  left_unique := p.left_unique
  bottom := by rw [left.toWrites.bottom, right.toWrites.bottom, p.bottom]
  permanent := by
    rw [left.toWrites.bottom]
    exact p.permanent
  left := left.sound
  right := right.sound
  left_roots := fun c hc => left.inUse (p.left_roots c hc)
  roots := p.roots
  building := by
    rw [left.toWrites.building, right.toWrites.building]
    exact p.building

theorem setWord (p : Paired ρ h k roots roots') (hab : ρ a b) {i v w : Nat} (hpos : 1 ≤ i)
    (hlt : i < nodeSize) (left : Updated h (h.setWord a i v) a)
    (right : Updated k (k.setWord b i w) b) (hstring : h.tag a ≠ .string)
    (hdata : i < (h.header a).dataEnd → w = v)
    (hchild : (h.header a).childRange.1 ≤ i → i < (h.header a).childRange.2 → ρ.Child v w) :
    Rewrites ρ h (h.setWord a i v) k (k.setWord b i w) roots roots' := by
  have s := p.similar a b hab
  have ha := (p.left_inUse a b hab).toIsBlock
  have hb := (p.right_inUse a b hab).toIsBlock
  have hheader := header_setWord ha ha hpos hlt v
  have hheader' := header_setWord hb hb hpos hlt w
  have hword : ∀ j, j < nodeSize →
      (h.setWord a i v).word a j = if j = i then v else h.word a j := by
    intro j hj
    simpa using word_setWord_block ha ha hlt hj v
  have hword' : ∀ j, j < nodeSize →
      (k.setWord b i w).word b j = if j = i then w else k.word b j := by
    intro j hj
    simpa using word_setWord_block hb hb hlt hj w
  have hkstring : k.tag b ≠ .string := s.tag.symm ▸ hstring
  refine p.updated hab left right ⟨?_, ?_, ?_, ?_, ?_⟩ fun _ => congrArg Header.payload hheader
  · rw [left.kind, right.kind, s.tag]
  · rw [text?, text?, left.kind, right.kind, if_neg hstring, if_neg hkstring]
  · rw [left.kind, hheader, hheader']
    exact s.header
  · intro j hj hend
    rw [hheader] at hend
    have hnode := Nat.lt_of_lt_of_le hend (dataEnd_le _)
    rw [hword j hnode, hword' j hnode]
    by_cases hji : j = i
    · rw [if_pos hji, if_pos hji]
      exact hdata (hji ▸ hend)
    · rw [if_neg hji, if_neg hji]
      exact s.data j hj hend
  · intro j hle hlt'
    rw [hheader] at hle hlt'
    have hrange := (p.left.typed a (p.left_inUse a b hab)).range
    have hnode := Nat.lt_of_lt_of_le hlt' hrange
    rw [hword j hnode, hword' j hnode]
    by_cases hji : j = i
    · rw [if_pos hji, if_pos hji]
      exact hchild (hji ▸ hle) (hji ▸ hlt')
    · rw [if_neg hji, if_neg hji]
      exact s.child j hle hlt'

/-! ## Variables -/

theorem setVariable (p : Paired ρ h k roots roots') (hab : ρ a b) (ht : h.tag a = .frame) {i : Nat}
    (hpos : 1 ≤ i) (hlt : i < h.size a) {v w : Nat} (hvw : ρ v w)
    (hvalue : (h.tag v).isValue = true) :
    Rewrites ρ h (h.setWord a i v) k (k.setWord b i w) roots roots' := by
  have s := p.similar a b hab
  have ha := p.left_inUse a b hab
  have hle := (p.left.typed a ha).le
  have hsize : k.size b = h.size a := s.size (by rw [ht]; decide)
  refine p.setWord hab hpos (by omega)
    (p.left.setVariable ha ht hpos hlt (p.left_inUse v w hvw) hvalue)
    (p.right.setVariable (p.right_inUse a b hab) (s.tag.trans ht) hpos (hsize ▸ hlt)
      (p.right_inUse v w hvw) ((p.similar v w hvw).tag.symm ▸ hvalue)) (by rw [ht]; decide) ?_
    fun _ _ => .inl hvw
  intro hend
  unfold Header.dataEnd at hend
  rw [show (h.header a).tag = .frame from ht] at hend
  exact absurd hend (Nat.not_lt_zero _)

/-! ## Channels -/

/-- A slot of a channel takes a value or becomes vacant, and then an index moves on. -/
theorem setSlot (p : Paired ρ h k roots roots') (hab : ρ a b) (ht : h.tag a = .channel)
    {i j v w n : Nat} (hi : i < h.channelSlots a) (hvw : ρ.Child v w)
    (hv : h.Child .channel v) (hw : k.Child .channel w) (hj : j = 2 ∨ j = 3)
    (hn : n < h.channelSlots a) :
    Rewrites ρ h ((h.setWord a (ringStart + i) v).setWord a j n) k
      ((k.setWord b (ringStart + i) w).setWord b j n) roots roots' := by
  have s := p.similar a b hab
  have ha := p.left_inUse a b hab
  have hb := p.right_inUse a b hab
  have ht' := s.tag.trans ht
  have hslots := s.channelSlots ht
  have hsize := ((p.left.typed a ha).ring ht).1
  have hle := (p.left.typed a ha).le
  have hstart : ringStart = 4 := rfl
  have hnode : nodeSize = 10 := rfl
  have first := p.left.setSlot ha ht hi hv
  have first' := p.right.setSlot hb ht' (hslots.symm ▸ hi) hw
  have q : Rewrites ρ h (h.setWord a (ringStart + i) v) k (k.setWord b (ringStart + i) w)
      roots roots' := by
    refine p.setWord hab (by omega) (by omega) first first' (by rw [ht]; decide) ?_
      fun _ _ => hvw
    intro hend
    unfold Header.dataEnd at hend
    rw [show (h.header a).tag = .channel from ht] at hend
    exact absurd hend (Nat.not_lt.2 (Nat.le_add_right ..))
  have hkept := channelSlots_setWord ha.toIsBlock (i := ringStart + i) (by omega) (by omega) v
  have hkept' := channelSlots_setWord hb.toIsBlock (i := ringStart + i) (by omega) (by omega) w
  refine q.trans (fun _ => first.inUse) (q.toPaired.setWord hab (by omega) (by omega)
    (q.left.setIndex (first.inUse ha) (first.kind.trans ht) hj (hkept.symm ▸ hn))
    (q.right.setIndex (first'.inUse hb) (first'.kind.trans ht') hj
      (hkept'.symm ▸ hslots.symm ▸ hn)) (by rw [first.kind, ht]; decide) (fun _ => rfl) ?_)
  intro hlo _
  rw [childRange_channel (first.kind.trans ht)] at hlo
  change ringStart ≤ j at hlo
  omega

theorem channelPush (p : Paired ρ h k roots roots') (hab : ρ a b) (ht : h.tag a = .channel)
    {v w : Nat} (hvw : ρ v w) (hvalue : (h.tag v).isValue = true) :
    Rewrites ρ h (h.channelPush a v) k (k.channelPush b w) roots roots' := by
  have s := p.similar a b hab
  obtain ⟨-, hwrite, -⟩ := (p.left.typed a (p.left_inUse a b hab)).ring ht
  unfold Heap.channelPush
  rw [s.writeSlot ht, s.channelSlots ht]
  refine p.setSlot hab ht hwrite (.inl hvw) (.inr ⟨p.left_inUse v w hvw, hvalue⟩)
    (.inr ⟨p.right_inUse v w hvw, ?_⟩) (.inl rfl)
    (Nat.mod_lt _ (Nat.lt_of_le_of_lt (Nat.zero_le _) hwrite))
  rw [(p.similar v w hvw).tag]
  exact hvalue

theorem channelPop (p : Paired ρ h k roots roots') (hab : ρ a b) (ht : h.tag a = .channel) :
    Rewrites ρ h (h.channelPop a) k (k.channelPop b) roots roots' := by
  have s := p.similar a b hab
  obtain ⟨-, -, hread⟩ := (p.left.typed a (p.left_inUse a b hab)).ring ht
  unfold Heap.channelPop
  rw [s.readSlot ht, s.channelSlots ht]
  exact p.setSlot hab ht hread (.inr ⟨rfl, rfl⟩) (.inl ⟨rfl, rfl⟩) (.inl ⟨rfl, rfl⟩) (.inr rfl)
    (Nat.mod_lt _ (Nat.lt_of_le_of_lt (Nat.zero_le _) hread))

theorem setPayload (p : Paired ρ h k roots roots') (hab : ρ a b) (hne : h.tag a ≠ .string)
    (hcall : h.tag a ≠ .callframe) (payload : UInt32) :
    Rewrites ρ h (h.setPayload a payload) k (k.setPayload b payload) roots roots' := by
  have s := p.similar a b hab
  have ha := p.left_inUse a b hab
  have hb := p.right_inUse a b hab
  have left := p.left.setPayload ha hne payload
  have right := p.right.setPayload hb (s.tag.symm ▸ hne) payload
  have hheader := header_setPayload ha.toIsBlock payload
  have hheader' := header_setPayload hb.toIsBlock payload
  have hword : ∀ i, 1 ≤ i → i < nodeSize → (h.setPayload a payload).word a i = h.word a i :=
    fun i hpos hlt => word_setHeader ha.toIsBlock ha.toIsBlock hpos hlt _
  have hword' : ∀ i, 1 ≤ i → i < nodeSize → (k.setPayload b payload).word b i = k.word b i :=
    fun i hpos hlt => word_setHeader hb.toIsBlock hb.toIsBlock hpos hlt _
  have hranges : ((h.setPayload a payload).header a).childRange = (h.header a).childRange ∧
      ((h.setPayload a payload).header a).dataEnd = (h.header a).dataEnd := by
    rw [hheader]
    exact ⟨rfl, rfl⟩
  refine p.updated hab left right ⟨?_, ?_, ?_, ?_, ?_⟩ fun ht => absurd ht hcall
  · rw [left.kind, right.kind, s.tag]
  · rw [text?, text?, left.kind, right.kind, if_neg hne, if_neg (s.tag.symm ▸ hne)]
  · intro _
    rw [hheader, hheader', s.header hne]
  · rw [hranges.2]
    intro i hpos hend
    have hnode := Nat.lt_of_lt_of_le hend (dataEnd_le _)
    rw [hword i hpos hnode, hword' i hpos hnode]
    exact s.data i hpos hend
  · rw [hranges.1]
    intro i hle hlt
    have hpos := Header.one_le_childRange_fst (Nat.lt_of_le_of_lt hle hlt)
    have hnode := Nat.lt_of_lt_of_le hlt (p.left.typed a ha).range
    rw [hword i (Nat.le_trans hpos hle) hnode, hword' i (Nat.le_trans hpos hle) hnode]
    exact s.child i hle hlt

theorem setElementKind (p : Paired ρ h k roots roots') (hab : ρ a b) (ht : h.tag a = .channel)
    (kind : Tag) :
    Rewrites ρ h (h.setElementKind a kind) k (k.setElementKind b kind) roots roots' := by
  unfold Heap.setElementKind
  rw [(p.similar a b hab).isUnbuffered ht]
  exact p.setPayload hab (by rw [ht]; decide) (by rw [ht]; decide) _

/-! ## Wait-groups -/

theorem setGroupCount (p : Paired ρ h k roots roots') (hab : ρ a b) (ht : h.tag a = .waitGroup)
    (count : Number) :
    Rewrites ρ h (h.setGroupCount a count) k (k.setGroupCount b count) roots roots' := by
  have ha := p.left_inUse a b hab
  have hcounter := p.counter hab ht
  obtain ⟨-, hnumber⟩ := p.left.counter ha ht
  refine p.setWord hcounter (Nat.le_refl 1) (by decide) (p.left.setGroupCount ha ht count)
    (p.right.setGroupCount (p.right_inUse a b hab) ((p.similar a b hab).tag.trans ht) count)
    (by rw [hnumber]; decide) (fun _ => rfl) ?_
  intro _ hlt
  rw [childRange_of_tag hnumber] at hlt
  exact absurd hlt (Nat.not_lt_zero _)

end Paired

end ChannelMachine.Heap

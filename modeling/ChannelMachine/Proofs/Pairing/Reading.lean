import ChannelMachine.Machine.Builtins
import ChannelMachine.Machine.Operator
import ChannelMachine.Proofs.Heap.Updating
import ChannelMachine.Proofs.Pairing.Heap

/-!
# Reading partners

Whatever the machine reads off a node, it reads off its partner too: the same number, text and
kind, and children that are partners.
-/

namespace ChannelMachine.Heap

/-! ## One node -/

namespace Similar

variable {ρ : Pairing} {h k : Heap} {a b : Nat}

theorem payload (s : Similar ρ h k a b) (ht : h.tag a ≠ .string) : k.payload b = h.payload a :=
  congrArg Header.payload (s.header ht)

theorem size (s : Similar ρ h k a b) (ht : h.tag a ≠ .string) : k.size b = h.size a :=
  congrArg (fun header : Header => header.size.toNat) (s.header ht)

theorem data_of_tag (s : Similar ρ h k a b) {t : Tag} (ht : h.tag a = t) {i : Nat} (hpos : 1 ≤ i)
    (hlt : i < Header.dataEnd ⟨t, 0, 0, 0⟩) : k.word b i = h.word a i := by
  refine s.data i hpos ?_
  unfold Header.dataEnd at hlt ⊢
  rw [show (h.header a).tag = t from ht]
  exact hlt

theorem number? (s : Similar ρ h k a b) : k.number? b = h.number? a := by
  rw [Heap.number?, Heap.number?, s.tag]
  split
  next ht => rw [s.data_of_tag ht (Nat.le_refl 1) (by decide)]
  next => rfl

theorem bool? (s : Similar ρ h k a b) : k.bool? b = h.bool? a := by
  rw [Heap.bool?, Heap.bool?, s.tag]

theorem unbox (s : Similar ρ h k a b) : k.unbox b = h.unbox a := by
  rw [Heap.unbox, Heap.unbox, s.tag, s.number?, s.text]
  cases ht : h.tag a with
  | builtin =>
    have hpayload := s.payload (by rw [ht]; decide)
    simp only [hpayload]
  | _ => rfl

theorem display (s : Similar ρ h k a b) : k.display b = h.display a := by
  rw [Heap.display, Heap.display, s.unbox]

theorem needNumber (s : Similar ρ h k a b) : k.needNumber b = h.needNumber a := by
  rw [Heap.needNumber, Heap.needNumber, s.number?, s.tag]

theorem frameCount (s : Similar ρ h k a b) (ht : h.tag a = .environment) :
    k.frameCount b = h.frameCount a := by
  rw [Heap.frameCount, Heap.frameCount, s.size (by rw [ht]; decide)]

theorem isUnbuffered (s : Similar ρ h k a b) (ht : h.tag a = .channel) :
    k.isUnbuffered b = h.isUnbuffered a := by
  rw [Heap.isUnbuffered, Heap.isUnbuffered, s.payload (by rw [ht]; decide)]

theorem elementKind? (s : Similar ρ h k a b) (ht : h.tag a = .channel) :
    k.elementKind? b = h.elementKind? a := by
  rw [Heap.elementKind?, Heap.elementKind?, s.payload (by rw [ht]; decide)]

theorem channelSlots (s : Similar ρ h k a b) (ht : h.tag a = .channel) :
    k.channelSlots b = h.channelSlots a :=
  s.data_of_tag ht (by decide) (by decide)

theorem writeSlot (s : Similar ρ h k a b) (ht : h.tag a = .channel) :
    k.writeSlot b = h.writeSlot a :=
  s.data_of_tag ht (by decide) (by decide)

theorem readSlot (s : Similar ρ h k a b) (ht : h.tag a = .channel) :
    k.readSlot b = h.readSlot a :=
  s.data_of_tag ht (by decide) (by decide)

theorem arity (s : Similar ρ h k a b) (ht : h.tag a = .closure) : k.word b 1 = h.word a 1 :=
  s.data_of_tag ht (by decide) (by decide)

end Similar

/-! ## Children -/

namespace Matched

variable {ρ : Pairing} {h k : Heap} {a b : Nat}

/-- A child that cannot be vacant has a partner. -/
theorem child (m : Matched ρ h k) (hab : ρ a b) (ha : h.NodeSound a) (ht : h.tag a ≠ .channel)
    {i : Nat} (hle : (h.header a).childRange.1 ≤ i) (hlt : i < (h.header a).childRange.2)
    (hi : h.Intact) : ρ (h.word a i) (k.word b i) := by
  rcases (m.similar a b hab).child i hle hlt with hw | ⟨hvacant, -⟩
  · exact hw
  · rcases ha.child i hle hlt with ⟨hchannel, -⟩ | ⟨hin, -⟩
    · exact absurd hchannel ht
    · exact absurd hvacant (hi.ne_vacant hin.toIsBlock)

theorem vacant_iff (m : Matched ρ h k) (hh : h.Intact) (hk : k.Intact) {v w : Nat}
    (hvw : ρ.Child v w) : v = vacant ↔ w = vacant := by
  rcases hvw with hvw | ⟨rfl, rfl⟩
  · have hv := hh.ne_vacant (m.left_inUse v w hvw).toIsBlock
    have hw := hk.ne_vacant (m.right_inUse v w hvw).toIsBlock
    exact ⟨fun h => absurd h hv, fun h => absurd h hw⟩
  · rfl

/-- Equality does not tell partners apart. -/
theorem sameValue (m : Matched ρ h k) {a' b' : Address} (hab : ρ a b) (hab' : ρ a' b') :
    k.sameValue b b' = h.sameValue a a' := by
  have heq : b = b' ↔ a = a' := by
    constructor
    · rintro rfl
      exact m.left_unique a a' b hab hab'
    · rintro rfl
      exact m.right_unique a b b' hab hab'
  rw [Heap.sameValue, Heap.sameValue, (m.similar a b hab).number?, (m.similar a' b' hab').number?]
  by_cases h : a = a'
  · rw [if_pos h, if_pos (heq.2 h)]
  · rw [if_neg h, if_neg (mt heq.1 h)]

theorem operands (m : Matched ρ h k) {a' b' : Address} (hab : ρ a b) (hab' : ρ a' b') :
    k.operands b b' = h.operands a a' := by
  have s := m.similar a b hab
  have s' := m.similar a' b' hab'
  rw [Heap.operands, Heap.operands, s.number?, s'.number?, s.text, s'.text]

theorem badOperands (m : Matched ρ h k) {a' b' : Address} (hab : ρ a b) (hab' : ρ a' b')
    (op : BinaryOp) : k.badOperands op b b' = h.badOperands op a a' := by
  rw [Heap.badOperands, Heap.badOperands, (m.similar a b hab).tag, (m.similar a' b' hab').tag]

theorem needNumbers (m : Matched ρ h k) {a' b' : Address} (hab : ρ a b) (hab' : ρ a' b') :
    k.needNumbers b b' = h.needNumbers a a' := by
  rw [Heap.needNumbers, Heap.needNumbers, (m.similar a b hab).needNumber,
    (m.similar a' b' hab').needNumber]

end Matched

namespace Paired

variable {ρ : Pairing} {h k : Heap} {roots roots' : List Address} {a b : Nat}

/-! ## Variables -/

/-- The same positions are those of variables. -/
theorem slotOf? (p : Paired ρ h k roots roots') (hab : ρ a b) (ht : h.tag a = .environment)
    (pos : Position) :
    (∃ f g i, h.slotOf? a pos = some (f, i) ∧ k.slotOf? b pos = some (g, i) ∧ ρ f g) ∨
      (h.slotOf? a pos = none ∧ k.slotOf? b pos = none) := by
  have s := p.similar a b hab
  have ha := p.left_inUse a b hab
  unfold Heap.slotOf?
  rw [s.frameCount ht]
  split
  next hlt =>
    have hsize : pos.frame < h.size a - 1 := hlt
    have hrange := childRange_environment ht
    have hf : ρ (h.word a (pos.frame + 1)) (k.word b (pos.frame + 1)) := by
      refine p.toMatched.child hab (p.left.typed a ha) (by rw [ht]; decide) ?_ ?_ p.left.toIntact
      · rw [hrange]
        exact Nat.le_add_left ..
      · rw [hrange]
        exact Nat.add_lt_of_lt_sub hsize
    have sf := p.similar _ _ hf
    have htag := (p.left.word_environment ha ht hlt).2
    dsimp only
    rw [sf.tag, sf.size (by rw [htag]; decide)]
    split
    · exact .inl ⟨_, _, _, rfl, rfl, hf⟩
    · exact .inr ⟨rfl, rfl⟩
  next => exact .inr ⟨rfl, rfl⟩

theorem lookup (p : Paired ρ h k roots roots') (hab : ρ a b) (ht : h.tag a = .environment)
    (pos : Position) :
    (∃ v w, h.lookup a pos = .ok v ∧ k.lookup b pos = .ok w ∧ ρ v w) ∨
      (∃ e, h.lookup a pos = .error e ∧ k.lookup b pos = .error e) := by
  unfold Heap.lookup
  rcases p.slotOf? hab ht pos with ⟨f, g, i, hh, hk, hfg⟩ | ⟨hh, hk⟩
  · obtain ⟨hin, hftag, hpos, hlt⟩ := p.left.slotOf? (p.left_inUse a b hab) ht hh
    rw [hh, hk]
    refine .inl ⟨_, _, rfl, rfl, ?_⟩
    have hrange := childRange_frame hftag
    refine p.toMatched.child hfg (p.left.typed f hin) (by rw [hftag]; decide) ?_ ?_
      p.left.toIntact
    · rw [hrange]
      exact hpos
    · rw [hrange]
      exact hlt
  · rw [hh, hk]
    exact .inr ⟨_, rfl, rfl⟩

/-! ## Channels -/

/-- The same slots are vacant, and the others hold partners. -/
theorem channelSlot (p : Paired ρ h k roots roots') (hab : ρ a b) (ht : h.tag a = .channel)
    {i : Nat} (hi : i < h.channelSlots a) :
    ρ.Child (h.channelSlot a i) (k.channelSlot b i) := by
  have hrange := childRange_channel ht
  have hsize := ((p.left.typed a (p.left_inUse a b hab)).ring ht).1
  refine (p.similar a b hab).child (ringStart + i) ?_ ?_
  · rw [hrange]
    exact Nat.le_add_right ..
  · rw [hrange, hsize]
    exact Nat.add_lt_add_left hi _

theorem isFull (p : Paired ρ h k roots roots') (hab : ρ a b) (ht : h.tag a = .channel) :
    k.isFull b = h.isFull a := by
  obtain ⟨-, hwrite, -⟩ := (p.left.typed a (p.left_inUse a b hab)).ring ht
  have hiff := p.toMatched.vacant_iff p.left.toIntact p.right.toIntact (p.channelSlot hab ht hwrite)
  rw [Heap.isFull, Heap.isFull, (p.similar a b hab).writeSlot ht, Bool.eq_iff_iff, bne_iff_ne,
    bne_iff_ne, ne_eq, ne_eq, hiff]

theorem isEmpty (p : Paired ρ h k roots roots') (hab : ρ a b) (ht : h.tag a = .channel) :
    k.isEmpty b = h.isEmpty a := by
  obtain ⟨-, -, hread⟩ := (p.left.typed a (p.left_inUse a b hab)).ring ht
  have hiff := p.toMatched.vacant_iff p.left.toIntact p.right.toIntact (p.channelSlot hab ht hread)
  rw [Heap.isEmpty, Heap.isEmpty, (p.similar a b hab).readSlot ht, Bool.eq_iff_iff, beq_iff_eq,
    beq_iff_eq, hiff]

theorem channelFront (p : Paired ρ h k roots roots') (hab : ρ a b) (ht : h.tag a = .channel)
    (hempty : h.isEmpty a ≠ true) : ρ (h.channelFront a) (k.channelFront b) := by
  obtain ⟨-, -, hread⟩ := (p.left.typed a (p.left_inUse a b hab)).ring ht
  rw [Heap.channelFront, Heap.channelFront, (p.similar a b hab).readSlot ht]
  rcases p.channelSlot hab ht hread with hw | ⟨hvacant, -⟩
  · exact hw
  · exact absurd (beq_iff_eq.2 hvacant) hempty

theorem channelLength (p : Paired ρ h k roots roots') (hab : ρ a b) (ht : h.tag a = .channel) :
    k.channelLength b = h.channelLength a := by
  have s := p.similar a b hab
  have ha := p.left_inUse a b hab
  have hb := p.right_inUse a b hab
  rw [p.left.channelLength_eq ha ht, p.right.channelLength_eq hb (s.tag.trans ht), s.channelSlots ht]
  refine List.countP_congr fun i hi => ?_
  have hiff := p.toMatched.vacant_iff p.left.toIntact p.right.toIntact
    (p.channelSlot hab ht (List.mem_range.1 hi))
  rw [bne_iff_ne, bne_iff_ne, ne_eq, ne_eq, hiff]

theorem lengthOf (p : Paired ρ h k roots roots') (hab : ρ a b) : k.lengthOf b = h.lengthOf a := by
  have s := p.similar a b hab
  rw [Heap.lengthOf, Heap.lengthOf, s.tag]
  cases ht : h.tag a with
  | string => simp only [s.text]
  | channel => simp only [p.channelLength hab ht]
  | _ => rfl

/-! ## Wait-groups, functions and frames to return to -/

theorem counter (p : Paired ρ h k roots roots') (hab : ρ a b) (ht : h.tag a = .waitGroup) :
    ρ (h.word a 1) (k.word b 1) := by
  have hrange : (h.header a).childRange = (1, 2) := childRange_of_tag ht
  refine p.toMatched.child hab (p.left.typed a (p.left_inUse a b hab)) (by rw [ht]; decide) ?_ ?_
    p.left.toIntact
  all_goals simp [hrange]

theorem groupCount (p : Paired ρ h k roots roots') (hab : ρ a b) (ht : h.tag a = .waitGroup) :
    k.groupCount b = h.groupCount a := by
  rw [Heap.groupCount, Heap.groupCount, (p.similar _ _ (p.counter hab ht)).number?]

theorem captured (p : Paired ρ h k roots roots') (hab : ρ a b) (ht : h.tag a = .closure) :
    ρ (h.word a 2) (k.word b 2) := by
  have hrange : (h.header a).childRange = (2, 3) := childRange_of_tag ht
  refine p.toMatched.child hab (p.left.typed a (p.left_inUse a b hab)) (by rw [ht]; decide) ?_ ?_
    p.left.toIntact
  all_goals simp [hrange]

theorem outside (p : Paired ρ h k roots roots') (hab : ρ a b)
    (ht : h.tag a = .blockframe ∨ h.tag a = .callframe) : ρ (h.word a 1) (k.word b 1) := by
  have hkind : h.tag a ≠ .channel ∧ (h.header a).childRange = (1, 2) := by
    rcases ht with ht | ht
    · exact ⟨by rw [ht]; decide, childRange_of_tag ht⟩
    · exact ⟨by rw [ht]; decide, childRange_of_tag ht⟩
  refine p.toMatched.child hab (p.left.typed a (p.left_inUse a b hab)) hkind.1 ?_ ?_
    p.left.toIntact
  all_goals simp [hkind.2]

end Paired

end ChannelMachine.Heap

import ChannelMachine.Proofs.Heap.Resembling

/-!
# Actions on heaps that resemble each other

What the program can see of a node is the same in heaps that resemble each other, for the only thing
that differs is a recorded kind.  Actions make the same nodes at the same addresses in both, run out of
nodes in both, and leave heaps that resemble each other.
-/

namespace ChannelMachine.Heap

variable {h k : Heap} {a b : Address}

/-! ## Values -/

namespace Resembles

variable (r : Resembles h k)

include r

theorem bool? (a : Address) : k.bool? a = h.bool? a := by rw [Heap.bool?, Heap.bool?, r.tag]

theorem number? (ha : h.IsBlock a) : k.number? a = h.number? a := by
  rw [Heap.number?, Heap.number?, r.tag, r.word ha (Nat.le_refl 1) (by decide)]

theorem texts : k.texts = h.texts := by cases r; rfl

theorem strings : k.strings = h.strings := by cases r; rfl

theorem text? (ha : h.IsBlock a) : k.text? a = h.text? a := by
  rw [Heap.text?, Heap.text?, r.tag, r.texts, r.word ha (Nat.le_refl 1) (by decide)]

theorem unbox (ha : h.IsBlock a) : k.unbox a = h.unbox a := by
  rw [Heap.unbox, Heap.unbox, r.tag, r.number? ha, r.text? ha]
  cases htag : h.tag a with
  | builtin => simp only [r.payload (a := a) (by rw [htag]; decide)]
  | _ => rfl

theorem display (ha : h.IsBlock a) : k.display a = h.display a :=
  congrArg Value.display (r.unbox ha)

theorem sameValue (ha : h.IsBlock a) (hb : h.IsBlock b) : k.sameValue a b = h.sameValue a b := by
  rw [Heap.sameValue, Heap.sameValue, r.number? ha, r.number? hb]

theorem operands (ha : h.IsBlock a) (hb : h.IsBlock b) : k.operands a b = h.operands a b := by
  rw [Heap.operands, Heap.operands, r.number? ha, r.number? hb, r.text? ha, r.text? hb]

theorem badOperands (op : BinaryOp) (a b : Address) :
    k.badOperands op a b = h.badOperands op a b := by
  rw [Heap.badOperands, Heap.badOperands, r.tag, r.tag]

theorem needNumber (ha : h.IsBlock a) : k.needNumber a = h.needNumber a := by
  rw [Heap.needNumber, Heap.needNumber, r.number? ha, r.tag]

theorem needNumbers (ha : h.IsBlock a) (hb : h.IsBlock b) :
    k.needNumbers a b = h.needNumbers a b := by
  rw [Heap.needNumbers, Heap.needNumbers, r.needNumber ha, r.needNumber hb]

/-! ## Variables -/

theorem frameCount (a : Address) : k.frameCount a = h.frameCount a :=
  congrArg (· - 1) (r.size a)

/-- A position stands for the same variable. -/
theorem slotOf? (hs : h.Sound) (ha : h.InUse a) (p : Position) :
    k.slotOf? a p = h.slotOf? a p := by
  have hle := (hs.typed a ha).le
  rw [Heap.slotOf?, Heap.slotOf?, r.frameCount]
  split
  next hlt =>
    have hsub : h.frameCount a = h.size a - 1 := rfl
    have hword : k.word a (p.frame + 1) = h.word a (p.frame + 1) :=
      r.word ha.toIsBlock (Nat.le_add_left ..) (by omega)
    simp only [hword, r.tag, r.size]
  next => rfl

/-- A variable has the same value. -/
theorem lookup (hs : h.Sound) (ha : h.InUse a) (htag : h.tag a = .environment) (p : Position) :
    k.lookup a p = h.lookup a p := by
  rw [Heap.lookup, Heap.lookup, r.slotOf? hs ha]
  cases hslot : h.slotOf? a p with
  | none => rfl
  | some slot =>
    obtain ⟨hframe, -, hpos, hlt⟩ := hs.slotOf? ha htag hslot
    exact congrArg Except.ok (r.word hframe.toIsBlock hpos
      (Nat.lt_of_lt_of_le hlt (hs.typed _ hframe).le))

/-! ## Channels and wait-groups -/

theorem channelSlots (ha : h.InUse a) : k.channelSlots a = h.channelSlots a :=
  r.word ha.toIsBlock (by decide) (by decide)

theorem writeSlot (ha : h.InUse a) : k.writeSlot a = h.writeSlot a :=
  r.word ha.toIsBlock (by decide) (by decide)

theorem readSlot (ha : h.InUse a) : k.readSlot a = h.readSlot a :=
  r.word ha.toIsBlock (by decide) (by decide)

section Channels

variable (hs : h.Sound) (ha : h.InUse a) (htag : h.tag a = .channel)

include hs ha htag

theorem channelSlot {i : Nat} (hi : i < h.channelSlots a) : k.channelSlot a i = h.channelSlot a i := by
  have hle := (hs.channel_bounds ha htag).1
  have hstart : ringStart = 4 := rfl
  exact r.word ha.toIsBlock (by omega) (by omega)

theorem isFull : k.isFull a = h.isFull a := by
  rw [Heap.isFull, Heap.isFull, r.writeSlot ha, r.channelSlot hs ha htag (hs.channel_bounds ha htag).2.1]

theorem channelFront : k.channelFront a = h.channelFront a := by
  rw [Heap.channelFront, Heap.channelFront, r.readSlot ha,
    r.channelSlot hs ha htag (hs.channel_bounds ha htag).2.2]

theorem isEmpty : k.isEmpty a = h.isEmpty a :=
  congrArg (· == vacant) (r.channelFront hs ha htag)

theorem channelLength (hk : k.Sound) : k.channelLength a = h.channelLength a := by
  have ha' : k.InUse a := (InUse.congr r.like.size (r.tag a)).2 ha
  rw [hs.channelLength_eq ha htag, hk.channelLength_eq ha' ((r.tag a).trans htag), r.channelSlots ha]
  exact List.countP_congr fun i hi => by rw [r.channelSlot hs ha htag (List.mem_range.1 hi)]

end Channels

theorem channelPush (ha : h.InUse a) (value : Address) : Resembles (h.channelPush a value) (k.channelPush a value) := by
  rw [Heap.channelPush, Heap.channelPush, r.writeSlot ha, r.channelSlots ha]
  exact (r.setWord a _ value).setWord a 2 _

theorem channelPop (ha : h.InUse a) : Resembles (h.channelPop a) (k.channelPop a) := by
  rw [Heap.channelPop, Heap.channelPop, r.readSlot ha, r.channelSlots ha]
  exact (r.setWord a _ vacant).setWord a 3 _

theorem lengthOf (hs : h.Sound) (hk : k.Sound) (ha : h.InUse a) : k.lengthOf a = h.lengthOf a := by
  rw [Heap.lengthOf, Heap.lengthOf, r.tag, r.text? ha.toIsBlock]
  cases htag : h.tag a with
  | channel => simp only [r.channelLength hs ha htag hk]
  | _ => rfl

theorem groupCount (hs : h.Sound) (ha : h.InUse a) (htag : h.tag a = .waitGroup) :
    k.groupCount a = h.groupCount a := by
  have hin := (hs.counter ha htag).1
  rw [Heap.groupCount, Heap.groupCount, r.word ha.toIsBlock (Nat.le_refl 1) (by decide),
    r.number? hin.toIsBlock]

theorem setGroupCount (ha : h.InUse a) (count : Number) :
    Resembles (h.setGroupCount a count) (k.setGroupCount a count) := by
  rw [Heap.setGroupCount, Heap.setGroupCount, r.word ha.toIsBlock (Nat.le_refl 1) (by decide)]
  exact r.setNumber _ count

/-- Recording a kind in the second heap makes no difference. -/
theorem record (ha : h.InUse a) (htag : h.tag a = .channel) (kind : Tag) :
    Resembles h (k.setElementKind a kind) := by
  have hheader : { k.header a with payload := channelPayload (k.isUnbuffered a) kind.code } =
      { h.header a with payload := channelPayload (h.isUnbuffered a) kind.code } := by
    rw [r.isUnbuffered]
    rcases r.header a with heq | recorded
    · rw [heq]
    · rw [recorded.eq]
  have hunbuffered : (channelPayload (h.isUnbuffered a) kind.code).toNat % 2 =
      (h.payload a).toNat % 2 := by
    rw [toNat_channelPayload _ kind.code_lt, Heap.isUnbuffered]
    have hlt := Nat.mod_lt (h.payload a).toNat (y := 2) (by decide)
    split
    next heq =>
      have := beq_iff_eq.1 heq
      omega
    next hne =>
      have := mt beq_iff_eq.2 hne
      omega
  rw [Heap.setElementKind, Heap.setPayload, hheader]
  cases r with
  | intro like =>
    refine .intro (like.put ha.aligned (.inr ⟨htag, ?_, ?_⟩))
    · rw [Header.unpack_pack]
      rfl
    · rw [Header.unpack_pack]
      exact hunbuffered

end Resembles

/-! ## Allocation -/

theorem holding_of_ok {α : Type} {x : Action α} {b : α} {s : Heap} (hx : x (h.held a) = .ok b s) :
    holding a x h = .ok b (s.withBuilding h.building) := by
  unfold held withBuilding at hx
  unfold holding
  dsimp only
  rw [hx]
  rfl

theorem holding_of_error {α : Type} {x : Action α} {e : Fault} {s : Heap}
    (hx : x (h.held a) = .error e s) : holding a x h = .error e (s.withBuilding h.building) := by
  unfold held withBuilding at hx
  unfold holding
  dsimp only
  rw [hx]
  rfl

section Makers

variable {roots : Roots} (r : Resembles h k) (hs : h.Sound) (hroots : ∀ a ∈ roots.get, h.InUse a)

include r

theorem Resembles.free : k.free = h.free := by cases r; rfl

/-- A free node is linked to the same one. -/
theorem Resembles.unlink (htag : h.tag a ≠ .channel) : Resembles (h.unlink a) (k.unlink a) := by
  have hpayload := r.payload htag
  rw [Heap.unlink, Heap.unlink, hpayload]
  cases r with
  | intro like => exact .intro like

theorem Resembles.renew (a : Address) (t : Tag) (n : Nat) :
    Resembles (h.renew a t n) (k.renew a t n) :=
  .setWords a _ (r.setWord a 0 _)

include hs hroots

theorem Resembles.refill : Resembles (h.refill roots) (k.refill roots) := by
  rw [Heap.refill, Heap.refill, r.free]
  split
  · exact r.collect hs hroots
  · exact r

/-- The same node is allocated, or none is free in either heap. -/
theorem Resembles.mirrors_allocate (t : Tag) (n : Nat) :
    Mirrors Resembles (allocate t n roots) (allocate t n roots) h k := by
  have hrefill := r.refill hs hroots
  have hsound := (hs.refilled hroots).sound
  unfold Mirrors allocate
  by_cases hn : n = 0 ∨ nodeSize < n
  · rw [if_pos hn, if_pos hn]
    exact ⟨rfl, r⟩
  rw [if_neg hn, if_neg hn]
  dsimp only
  rw [hrefill.free]
  by_cases hfree : (h.refill roots).free = noNode
  · rw [if_pos hfree, if_pos hfree]
    exact ⟨rfl, hrefill⟩
  rw [if_neg hfree, if_neg hfree]
  obtain ⟨hlt, rest, hlist, -⟩ := hsound.toIntact.first_free hfree
  have htag := (hlist.mem_iff _ hlt).1 List.mem_cons_self
  exact ⟨rfl, (hrefill.unlink (by rw [htag]; decide)).renew _ t n⟩

/-- The same node is made. -/
theorem Resembles.mirrors_make {t : Tag} {n : Nat} {fill : Address → Heap → Heap}
    (hfill : ∀ a {h k}, Resembles h k → Resembles (fill a h) (fill a k)) :
    Mirrors Resembles (make t n fill roots) (make t n fill roots) h k :=
  .bind (r.mirrors_allocate hs hroots t n) fun a _ _ r =>
    .bind (.modifyGet rfl (hfill a r)) fun _ _ _ r => .pure a r

omit hs hroots in
/-- The same is done while a node is held. -/
theorem Resembles.mirrors_holding {α : Type} {x y : Action α}
    (hx : Mirrors Resembles x y (h.held a) (k.held a)) :
    Mirrors Resembles (holding a x) (holding a y) h k := by
  rcases hx.cases with ⟨b, s, t, hxs, hyt, hr⟩ | ⟨e, s, t, hxs, hyt, hr⟩
  · have hx := holding_of_ok hxs
    have hy := holding_of_ok hyt
    unfold Mirrors
    rw [hx, hy, r.building]
    exact ⟨rfl, hr.withBuilding _⟩
  · have hx := holding_of_error hxs
    have hy := holding_of_error hyt
    unfold Mirrors
    rw [hx, hy, r.building]
    exact ⟨rfl, hr.withBuilding _⟩

theorem Resembles.mirrors_newNumber (x : Number) :
    Mirrors Resembles (newNumber x roots) (newNumber x roots) h k :=
  r.mirrors_make hs hroots fun a _ _ r => r.setNumber a x

theorem Resembles.mirrors_newString (s : String) :
    Mirrors Resembles (newString s roots) (newString s roots) h k := by
  refine .get ?_
  rw [r.strings]
  split
  next a _ => exact .pure a r
  next =>
    exact .bind (r.mirrors_allocate hs hroots .string 2) fun a _ _ r =>
      .bind (.modifyGet rfl (r.intern a s)) fun _ _ _ r => .pure a r

theorem Resembles.mirrors_applyUnary (op : UnaryOp) (ha : h.IsBlock a) :
    Mirrors Resembles (applyUnary op a roots) (applyUnary op a roots) h k := by
  cases op with
  | neg =>
    refine .get ?_
    rw [r.number? ha]
    split
    next => exact r.mirrors_newNumber hs hroots _
    next =>
      refine .get ?_
      rw [r.tag]
      exact .throw _ r
  | not =>
    refine .get ?_
    rw [r.bool?]
    split
    next => exact .pure _ r
    next =>
      refine .get ?_
      rw [r.tag]
      exact .throw _ r

theorem Resembles.mirrors_applyBinary (op : BinaryOp) (ha : h.IsBlock a) (hb : h.IsBlock b) :
    Mirrors Resembles (applyBinary op a b roots) (applyBinary op a b roots) h k := by
  have hbad : ∀ op, Mirrors Resembles (do throw ((← get).badOperands op a b) : Action Address)
      (do throw ((← get).badOperands op a b)) h k := by
    intro op
    refine .get ?_
    rw [r.badOperands]
    exact .throw _ r
  cases op
  case eq | ne =>
    refine .get ?_
    rw [r.sameValue ha hb]
    exact .pure _ r
  case add =>
    refine .get ?_
    rw [r.operands ha hb]
    split
    next => exact r.mirrors_newNumber hs hroots _
    next => exact r.mirrors_newString hs hroots _
    next => exact hbad _
  case lt | le | gt | ge =>
    refine .get ?_
    rw [r.operands ha hb]
    split
    next => exact .pure _ r
    next => exact .pure _ r
    next => exact hbad _
  case sub | mul | div | mod =>
    refine .get ?_
    rw [r.operands ha hb]
    split
    next => exact r.mirrors_newNumber hs hroots _
    next => exact hbad _

theorem Resembles.mirrors_newChannel (capacity : Nat) :
    Mirrors Resembles (newChannel capacity roots) (newChannel capacity roots) h k := by
  rw [newChannel_eq]
  split
  next => exact .throw _ r
  next => exact r.mirrors_make hs hroots fun a _ _ r => .setWords a _ (r.setPayload a _)

theorem Resembles.mirrors_newWaitGroup :
    Mirrors Resembles (newWaitGroup roots) (newWaitGroup roots) h k := by
  rw [newWaitGroup_eq]
  refine (r.mirrors_newNumber hs hroots _).bind_ensures (hs.newNumber_ensures hroots _) ?_
  intro counter h k made r
  refine r.mirrors_holding ((r.held counter).mirrors_make (made.sound.held made.toInUse) ?_ ?_)
  · exact fun a ha => (made.toGrows.inUse_root hroots ha).held
  · exact fun a _ _ r => r.setWord a 1 counter

/-! ## Scopes and calls -/

theorem Resembles.mirrors_extend {environment : Address} (ha : h.IsBlock environment)
    (frame : Address) :
    Mirrors Resembles (extend environment frame roots) (extend environment frame roots) h k := by
  refine .get ?_
  rw [r.frameCount]
  refine (r.mirrors_allocate hs hroots _ _).bind_ensures (hs.allocate_ensures hroots (by decide) _) ?_
  rintro a h' k' ⟨-, hle, -⟩ r
  refine .bind (.modifyGet rfl ?_) fun _ _ _ r => .pure a r
  exact (r.copyWords a ha.aligned _ (Nat.le_refl 1) (by omega)).setWord a _ frame

/-- A frame that was just made is held while it is put into an environment. -/
theorem Resembles.mirrors_extend_held {environment frame : Address} (ha : h.IsBlock environment)
    (hframe : h.InUse frame) : Mirrors Resembles (holding frame (extend environment frame roots))
      (holding frame (extend environment frame roots)) h k :=
  r.mirrors_holding ((r.held frame).mirrors_extend (hs.held hframe)
    (fun a ha => (hroots a ha).held) ha.held frame)

theorem Resembles.mirrors_newFrame (slots : Nat) :
    Mirrors Resembles (newFrame slots roots) (newFrame slots roots) h k :=
  r.mirrors_allocate hs hroots _ _

theorem Resembles.mirrors_newInside {environment : Address} (ha : h.IsBlock environment)
    (slots : Nat) {α : Type} (result : Address → α) :
    Mirrors Resembles (do
        let frame ← newFrame slots roots
        let inside ← holding frame (extend environment frame roots)
        return result inside)
      (do
        let frame ← newFrame slots roots
        let inside ← holding frame (extend environment frame roots)
        return result inside) h k := by
  refine (r.mirrors_newFrame hs hroots slots).bind_ensures (hs.newFrame_ensures hroots slots) ?_
  intro frame h' k' made r
  have hroots' : ∀ a ∈ roots.get, h'.InUse a := fun a ha => made.toGrows.inUse_root hroots ha
  exact .bind (r.mirrors_extend_held made.sound hroots' (made.toKeeps.isBlock.2 ha) made.toInUse)
    fun inside _ _ r => .pure _ r

theorem Resembles.mirrors_newScope {environment : Address}
    (hlive : h.Live roots.get environment) (htag : h.tag environment = .environment) (slots : Nat) :
    Mirrors Resembles (newScope environment slots roots) (newScope environment slots roots) h k := by
  have ha := (hs.inUse_of_live hroots hlive).toIsBlock
  rw [newScope_eq]
  refine (r.mirrors_make hs hroots fun a _ _ r => r.setWord a 1 environment).bind_ensures
    (hs.newBlock_ensures hroots hlive htag) ?_
  intro block h' k' made r
  refine r.mirrors_holding ((r.held block).mirrors_newInside (made.sound.held made.toInUse) ?_ ?_ slots
    (Prod.mk block))
  · exact fun a ha => (made.toGrows.inUse_root hroots ha).held
  · exact (made.toKeeps.isBlock.2 ha).held

theorem Resembles.mirrors_newArguments {captured : Address} (ha : h.IsBlock captured)
    {arguments : List Nat}
    (harguments : ∀ w ∈ arguments, h.Live roots.get w ∧ (h.tag w).isValue = true) :
    Mirrors Resembles (newArguments captured arguments roots) (newArguments captured arguments roots)
      h k := by
  rw [newArguments_eq]
  refine (r.mirrors_make hs hroots fun a _ _ r => .setWords a arguments r).bind_ensures
    (hs.newArgumentFrame_ensures hroots harguments) ?_
  intro frame h' k' made r
  exact r.mirrors_extend_held made.sound (fun a ha => made.toGrows.inUse_root hroots ha)
    (made.toKeeps.isBlock.2 ha) made.toInUse

theorem Resembles.mirrors_newCall (resume : Nat) {environment captured : Address}
    (henv : h.Live roots.get environment) (hetag : h.tag environment = .environment)
    (ha : h.IsBlock captured) {arguments : List Nat}
    (harguments : ∀ w ∈ arguments, h.Live roots.get w ∧ (h.tag w).isValue = true) :
    Mirrors Resembles (newCall resume environment captured arguments roots)
      (newCall resume environment captured arguments roots) h k := by
  rw [newCall_eq]
  refine (r.mirrors_make hs hroots fun a _ _ r => (r.setPayload a _).setWord a 1 environment).bind_ensures
    (hs.newCallFrame_ensures hroots resume henv hetag) ?_
  intro call h' k' made r
  have hroots' : ∀ a ∈ roots.get, (h'.held call).InUse a :=
    fun a ha => (made.toGrows.inUse_root hroots ha).held
  have harguments' : ∀ w ∈ arguments, (h'.held call).Live roots.get w ∧
      ((h'.held call).tag w).isValue = true := by
    intro w hw
    obtain ⟨hl, hv⟩ := harguments w hw
    refine ⟨(made.toGrows.live hs hroots hl).held, ?_⟩
    rw [show (h'.held call).tag w = h.tag w from made.toKeeps.tag hl]
    exact hv
  refine r.mirrors_holding (.bind ((r.held call).mirrors_newArguments (made.sound.held made.toInUse)
    hroots' (made.toKeeps.isBlock.2 ha).held harguments') fun inside _ _ r => .pure _ r)

end Makers

end ChannelMachine.Heap

import ChannelMachine.Proofs.Heap.Allocating
import ChannelMachine.Proofs.Heap.Ring

/-!
# What allocations keep

Whatever is allocated, and whether the allocation succeeds or not, all that can be reached from the roots
and is in use stays as it is, word by word and with its texts.  This holds of any formed heap; where no node
holds a free one it is all that can be reached (`Takes.keeps`).  A node that is made is none of these.  For
environments and channels of such heaps the rules also say what was made.
-/

namespace ChannelMachine.Heap

variable {h k l : Heap} {a : Address} {roots : Roots} {nodes : Address → Prop}

/-! ## Steps of an allocation -/

/-- Words that are written elsewhere change nothing. -/
theorem Keeps.writes (keeps : Keeps h k nodes) (w : Writes k l a)
    (hother : ∀ b, nodes b → k.IsBlock b ∧ b ≠ a) : Keeps h l nodes where
  size := w.size.trans keeps.size
  bottom := w.bottom.trans keeps.bottom
  node b hb := (keeps.node b hb).trans (w.same (hother b hb).1 (hother b hb).2)
  text b hb := by
    have same := w.same (hother b hb).1 (hother b hb).2
    have hword : l.word b 1 = k.word b 1 := same.word 1 (Nat.le_refl 1) (by decide)
    rw [← keeps.text b hb, text?, text?, same.tag, w.texts, hword]

/-- Nodes are being built, or no longer. -/
theorem Keeps.alike (keeps : Keeps h k nodes) (alike : Alike k l) : Keeps h l nodes :=
  keeps.trans (alike.keeps nodes)

theorem Formed.keeps_collect (hf : h.Formed) {roots : List Address} (hroots : ∀ a ∈ roots, h.IsBlock a) :
    Keeps h (h.collect roots) (h.Live roots) := by
  obtain ⟨k, l, reports, s, heq⟩ := hf.exists_swept hroots
  refine ⟨?_, ?_, fun b hb => .of_word ((hf.reclaims_collect hroots).kept b hb),
    fun b hb => hf.text?_collect hroots hb⟩
  · rw [heq]
    exact s.size
  · rw [heq, s.eq]

theorem Formed.keeps_refill (hf : h.Formed) (hroots : ∀ a ∈ roots.get, h.IsBlock a) :
    Keeps h (h.refill roots) (h.Live roots.get) := by
  unfold refill
  split
  · exact hf.keeps_collect hroots
  · exact .refl h _

/-- What can be reached and is in use. -/
structure Alive (h : Heap) (roots : List Address) (a : Address) : Prop where
  /-- It can be reached. -/
  live : h.Live roots a
  /-- It is in use. -/
  tag_ne : h.tag a ≠ .free

/-- A node with a child is in use. -/
theorem tag_ne_of_child {c : Address} (hchild : c ∈ children h.words a) : h.tag a ≠ .free := by
  intro hfree
  obtain ⟨-, i, hle, hlt, -⟩ := mem_children.1 hchild
  have hrange : (h.header a).childRange.2 = 0 := congrArg Prod.snd (childRange_of_tag hfree)
  exact Nat.not_lt_zero i (hrange ▸ hlt)

/-- What is kept as long as it is alive stays alive. -/
theorem Keeps.alive (hf : h.Formed) (hk : k.Formed) {roots : List Address}
    (hroots : ∀ a ∈ roots, h.IsBlock a) (keeps : Keeps h k (h.Alive roots))
    (hbuilding : ∀ a ∈ h.building, a ∈ k.building) (ha : h.Alive roots a) : k.Alive roots a := by
  refine ⟨?_, keeps.tag ha ▸ ha.tag_ne⟩
  have hlive := ha.live
  clear ha
  induction hlive with
  | pending hb =>
    simp only [List.mem_append, List.mem_reverse] at hb
    rcases hb with (hb | hb) | hb
    · obtain ⟨hblock, hlt, hfree⟩ := hf.mem_permanentRoots.1 hb
      have halive : h.Alive roots _ := ⟨hf.live_permanent hblock hlt hfree, hfree⟩
      exact hk.live_permanent (keeps.isBlock.2 hblock) (keeps.bottom ▸ hlt) (keeps.tag halive ▸ hfree)
    · exact .building (hbuilding _ hb)
    · exact .root hb
  | child hlive hchild ih =>
    have hrange := (hf.nodeFormed (hf.isBlock_of_live hroots hlive)).range
    exact .child ih ((keeps.mem_children ⟨hlive, tag_ne_of_child hchild⟩ hrange).2 hchild)

/-- What can be reached from nodes in use is in use, if no node in use holds a free one. -/
theorem Closed.alive (hc : h.Closed) (hf : h.Formed) {roots : List Address}
    (hroots : ∀ a ∈ roots, h.InUse a) (ha : h.Live roots a) : h.Alive roots a :=
  ⟨ha, (hc.inUse_of_live hf hroots ha).tag_ne⟩

/-- The variables of a frame. -/
def slotsOf (h : Heap) (frame : Address) : List Address :=
  (List.range (h.size frame - 1)).map fun i => h.word frame (i + 1)

theorem length_slotsOf (h : Heap) (frame : Address) : (h.slotsOf frame).length = h.size frame - 1 :=
  length_framesOf h frame

/-- A node of any kind and size is allocated, and all that is alive stays as it is. -/
structure Supplied (h k : Heap) (roots : List Address) (a : Address) (t : Tag) (n : Nat) : Prop extends
    Allocated h k roots a t n where
  /-- What is alive. -/
  kept : Keeps h k (h.Alive roots)
  /-- The node was not alive. -/
  not_alive : ¬ h.Alive roots a

/-- What is written into a new environment: the frames of another one and a frame more. -/
theorem framesOf_copied {environment : Address} {n : Nat} (ha : k.IsBlock a)
    (hsource : k.IsBlock environment) (hne : environment ≠ a) (hle : n + 2 ≤ nodeSize)
    (hsize : k.size a = n + 2) (htag : k.tag a = .environment) (frame : Address) :
    Writes k ((k.copyWords environment a 1 n).setWord a (n + 1) frame) a ∧
      ((k.copyWords environment a 1 n).setWord a (n + 1) frame).tag a = .environment ∧
      ((k.copyWords environment a 1 n).setWord a (n + 1) frame).framesOf a =
        (List.range n).map (fun i => k.word environment (i + 1)) ++ [frame] := by
  have hcopy : Writes k (k.copyWords environment a 1 n) a := writes_copyWords _ ha (by omega)
  have hblock := hcopy.isBlock.2 ha
  have hword : ∀ i < nodeSize, ((k.copyWords environment a 1 n).setWord a (n + 1) frame).word a i =
      if i = n + 1 then frame else if 1 ≤ i ∧ i < 1 + n then k.word environment i else k.word a i := by
    intro i hi
    rw [word_setWord_block hblock hblock (by omega) hi,
      word_copyWords_block _ hsource ha ha hne (by omega) hi]
    simp
  have hheader : ((k.copyWords environment a 1 n).setWord a (n + 1) frame).header a = k.header a := by
    rw [header, hword 0 (by decide), if_neg (by omega), if_neg (by omega)]
    rfl
  refine ⟨writes_extended ha hle frame, (congrArg Header.tag hheader).trans htag, ?_⟩
  generalize (k.copyWords environment a 1 n).setWord a (n + 1) frame = l at *
  have hcount : l.frameCount a = n + 1 := by
    rw [frameCount, size, hheader, ← size, hsize]
    rfl
  rw [framesOf, hcount, List.range_succ, List.map_append, List.map_singleton]
  congr 1
  · refine List.map_congr_left fun i hi => ?_
    have hlt := List.mem_range.1 hi
    rw [hword _ (by omega), if_neg (by omega), if_pos (by omega)]
  · rw [hword _ (by omega), if_pos rfl]

section Actions

variable (hf : h.Formed) (hroots : ∀ a ∈ roots.get, h.IsBlock a)
include hf hroots

/-- What is alive is a node. -/
theorem Formed.isBlock_of_alive (ha : h.Alive roots.get a) : h.IsBlock a :=
  hf.isBlock_of_live hroots ha.live

theorem Formed.supplied (t : Tag) (n : Nat) :
    Ensures (allocate t n roots) h (fun a k => Supplied h k roots.get a t n)
      (fun _ k => Keeps h k (h.Alive roots.get)) := by
  have refilled : Keeps h (h.refill roots) (h.Alive roots.get) :=
    (hf.keeps_refill hroots).mono fun _ => Alive.live
  have allocated := hf.ensures_allocate hroots t n
  unfold Ensures allocate at *
  by_cases hn : n = 0 ∨ nodeSize < n
  · rw [if_pos hn]
    exact .refl h _
  rw [if_neg hn] at allocated ⊢
  by_cases hfree : (h.refill roots).free = noNode
  · simp only [if_pos hfree]
    exact refilled
  simp only [if_neg hfree] at allocated ⊢
  -- Nothing alive is the node that was taken, which was free.
  have hother (b : Address) (hb : h.Alive roots.get b) : b ≠ addressOf (h.refill roots).free.toNat :=
    (allocated.tag b hb.live hb.tag_ne).1
  refine ⟨allocated, ?_, fun hb => hother _ hb rfl⟩
  have unlinked : Keeps h ((h.refill roots).unlink (addressOf (h.refill roots).free.toNat))
      (h.Alive roots.get) :=
    refilled.trans ⟨rfl, rfl, fun _ _ => ⟨rfl, fun _ _ _ => rfl⟩, fun _ _ => rfl⟩
  have hself := (IsBlock.congr (unlinked.size.trans allocated.arena.symm)).2 allocated.isBlock
  exact unlinked.writes (writes_renew hself t (by omega) (by omega)) fun b hb =>
    ⟨unlinked.isBlock.2 (hf.isBlock_of_alive hroots hb), hother b hb⟩

/-- What is alive is not written where the new node is. -/
theorem Supplied.writes {t : Tag} {n : Nat} (supplied : Supplied h k roots.get a t n) (w : Writes k l a) :
    Keeps h l (h.Alive roots.get) :=
  supplied.kept.writes w fun _ hb =>
    ⟨supplied.kept.isBlock.2 (hf.isBlock_of_alive hroots hb), fun heq => supplied.not_alive (heq ▸ hb)⟩

/-! ## Allocations -/

/-- A node is allocated and filled. -/
theorem Formed.keeps_make (t : Tag) (n : Nat) {fill : Address → Heap → Heap}
    (hfill : ∀ a k, k.IsBlock a → n ≤ nodeSize → Writes k (fill a k) a) : Ensures (make t n fill roots) h
    (fun _ k => Keeps h k (h.Alive roots.get) ∧ k.building = h.building) (fun _ k => Keeps h k (h.Alive roots.get)) := by
  refine .bind ((hf.supplied hroots t n).mono (fun a k supplied => ?_) fun _ _ kept => kept)
  have w := hfill a k supplied.isBlock supplied.fits.2
  exact .bind (.modifyGet (.pure ⟨supplied.writes hf hroots w, w.building.trans supplied.keeps⟩))

theorem Formed.keeps_newNumber (x : Number) : Ensures (newNumber x roots) h
    (fun _ k => Keeps h k (h.Alive roots.get) ∧ k.building = h.building) (fun _ k => Keeps h k (h.Alive roots.get)) :=
  hf.keeps_make hroots .number 2 fun _ _ ha _ => writes_setWord ha (by decide) _

theorem Formed.keeps_newString (text : String) : Ensures (newString text roots) h
    (fun _ k => Keeps h k (h.Alive roots.get)) (fun _ k => Keeps h k (h.Alive roots.get)) := by
  refine .bind (.get ?_)
  split
  next => exact .pure (.refl h _)
  next hnew =>
    refine .bind ((hf.supplied hroots .string 2).mono (fun a k supplied => ?_) fun _ _ kept => kept)
    refine .bind (.modifyGet (.pure ?_))
    have hblock {b : Address} (hb : h.Alive roots.get b) : k.IsBlock b :=
      supplied.kept.isBlock.2 (hf.isBlock_of_alive hroots hb)
    have hne {b : Address} (hb : h.Alive roots.get b) : b ≠ a := fun heq => supplied.not_alive (heq ▸ hb)
    have same {b : Address} (hb : h.Alive roots.get b) : SameNode k (k.intern a text) b :=
      same_intern supplied.isBlock (hblock hb) (hne hb)
    refine ⟨(size_words_setWord ..).trans supplied.kept.size, supplied.kept.bottom,
      fun b hb => (supplied.kept.node b hb).trans (same hb), fun b hb => ?_⟩
    rw [← supplied.kept.text b hb, text?, text?, (same hb).tag, (same hb).word 1 (by decide) (by decide)]
    split
    next hstring =>
      obtain ⟨t, ht, -⟩ := supplied.toInternedBut.text b (hblock hb) (hne hb) hstring
      rw [ht, texts_intern supplied.toInternedBut ht]
    next => rfl

theorem Formed.keeps_box (value : Value) : Ensures (box value roots) h
    (fun _ k => Keeps h k (h.Alive roots.get)) (fun _ k => Keeps h k (h.Alive roots.get)) := by
  cases value with
  | number x => exact (hf.keeps_newNumber hroots x).mono (fun _ _ => And.left) fun _ _ => id
  | text s => exact hf.keeps_newString hroots s
  | bool | null | undefined | unassigned => exact .pure (.refl h _)
  | _ => exact .throw (.refl h _)

theorem Formed.keeps_extend (environment frame : Address) : Ensures (extend environment frame roots) h
    (fun _ k => Keeps h k (h.Alive roots.get)) (fun _ k => Keeps h k (h.Alive roots.get)) :=
  .bind (.get ((hf.keeps_make hroots .environment (h.frameCount environment + 2)
    fun _ _ ha hle => writes_extended ha hle frame).mono (fun _ _ => And.left) fun _ _ => id))

theorem Formed.keeps_newChannel (capacity : Nat) : Ensures (newChannel capacity roots) h
    (fun _ k => Keeps h k (h.Alive roots.get)) (fun _ k => Keeps h k (h.Alive roots.get)) := by
  rw [newChannel_eq]
  split
  · exact .throw (.refl h _)
  · exact (hf.keeps_make hroots .channel _ fun _ _ ha hle => writes_emptyRing ha hle _).mono
      (fun _ _ => And.left) fun _ _ => id

/-- The counter is held while the node of the group is made, so it is kept as well. -/
theorem Formed.keeps_newWaitGroup : Ensures (newWaitGroup roots) h
    (fun _ k => Keeps h k (h.Alive roots.get)) (fun _ k => Keeps h k (h.Alive roots.get)) := by
  rw [newWaitGroup_eq]
  refine .bind (((hf.ensures_newNumber hroots .zero).and (hf.keeps_newNumber hroots .zero)).mono
    ?_ fun _ _ => And.right)
  rintro c k ⟨⟨hkf, hsize, hc, -⟩, kept, hsame⟩
  have hheld : (k.held c).Formed := hkf.withBuilding fun b hb => by
    rcases List.mem_cons.1 hb with rfl | hb
    · exact hc
    · exact hkf.building b hb
  have hheldRoots : ∀ a ∈ roots.get, (k.held c).IsBlock a := fun a ha =>
    (IsBlock.congr (k := k.held c) (h := h) hsize).2 (hroots a ha)
  have first : Keeps h (k.held c) (h.Alive roots.get) := kept.alike (alike_withBuilding k _)
  have halive (b : Address) (hb : h.Alive roots.get b) : (k.held c).Alive roots.get b :=
    first.alive hf hheld hroots
      (fun d hd => List.mem_cons_of_mem c (hsame.symm ▸ hd : d ∈ k.building)) hb
  have hend {m : Heap} (last : Keeps (k.held c) m (h.Alive roots.get)) :
      Keeps h (m.withBuilding k.building) (h.Alive roots.get) :=
    (first.trans last).alike (alike_withBuilding _ _)
  exact holding_ensures ((hheld.keeps_make hheldRoots .waitGroup 2
    fun g _ hg _ => writes_setWord hg (by decide) c).mono (fun _ _ made => hend (made.1.mono halive))
      fun _ _ failed => hend (failed.mono halive))

end Actions

section Closed

variable (hc : h.Closed) (hf : h.Formed) (hroots : ∀ a ∈ roots.get, h.InUse a)
include hc hf hroots

theorem Closed.supplied (t : Tag) (n : Nat) :
    Ensures (allocate t n roots) h
      (fun a k => Supplied h k roots.get a t n ∧ Keeps h k (h.Live roots.get) ∧ ¬ h.Live roots.get a)
      (fun _ k => Keeps h k (h.Live roots.get)) := by
  have halive (b : Address) : h.Live roots.get b → h.Alive roots.get b := hc.alive hf hroots
  exact (hf.supplied (fun a ha => (hroots a ha).toIsBlock) t n).mono
    (fun a _ supplied => ⟨supplied, supplied.kept.mono halive, fun hlive => supplied.not_alive (halive a hlive)⟩)
    fun _ _ kept => kept.mono halive

/-- The variables of a new frame are unassigned. -/
theorem Closed.keeps_newFrame (slots : Nat) : Ensures (newFrame slots roots) h
    (fun a k => Keeps h k (h.Live roots.get) ∧ ¬ h.Live roots.get a ∧ k.InUse a ∧ k.tag a = .frame ∧
      k.slotsOf a = .replicate slots Heap.unassigned)
    (fun _ k => Keeps h k (h.Live roots.get)) := by
  refine (hc.supplied hf hroots .frame (slots + 1)).mono ?_ fun _ _ => id
  rintro a k ⟨supplied, kept, hnot⟩
  refine ⟨kept, hnot, supplied.inUse_self (by decide), supplied.tag_self, ?_⟩
  refine List.eq_replicate_iff.2 ⟨?_, fun w hw => ?_⟩
  · rw [length_slotsOf, supplied.size_self, Nat.add_sub_cancel]
  · obtain ⟨i, hi, rfl⟩ := List.mem_map.1 hw
    have hlt := List.mem_range.1 hi
    rw [supplied.size_self] at hlt
    exact supplied.filled (i + 1) (Nat.le_add_left ..) (by omega)

theorem Closed.keeps_emptyEnvironment : Ensures (emptyEnvironment roots) h
    (fun a k => Keeps h k (h.Live roots.get) ∧ ¬ h.Live roots.get a ∧ k.InUse a ∧
      k.tag a = .environment ∧ k.framesOf a = [])
    (fun _ k => Keeps h k (h.Live roots.get)) := by
  refine (hc.supplied hf hroots .environment 1).mono ?_ fun _ _ => id
  rintro a k ⟨supplied, kept, hnot⟩
  refine ⟨kept, hnot, supplied.inUse_self (by decide), supplied.tag_self, ?_⟩
  rw [← List.length_eq_zero_iff, length_framesOf, frameCount, supplied.size_self]

/-- The new environment has the frames of the old one and one more. -/
theorem Closed.keeps_extend {environment frame : Address} (henvironment : h.Live roots.get environment) :
    Ensures (extend environment frame roots) h
      (fun a k => Keeps h k (h.Live roots.get) ∧ ¬ h.Live roots.get a ∧ k.InUse a ∧
        k.tag a = .environment ∧ k.framesOf a = h.framesOf environment ++ [frame])
      (fun _ k => Keeps h k (h.Live roots.get)) := by
  have hin := hc.inUse_of_live hf hroots henvironment
  refine .bind (.get (.bind ((hc.supplied hf hroots .environment (h.frameCount environment + 2)).mono
    ?_ fun _ _ kept => kept)))
  rintro a k ⟨supplied, kept, hnot⟩
  have hfits := supplied.fits.2
  have same := kept.node _ henvironment
  have hne : environment ≠ a := fun heq => hnot (heq ▸ henvironment)
  obtain ⟨w, htag, hframes⟩ := framesOf_copied supplied.isBlock (kept.isBlock.2 hin.toIsBlock) hne hfits
    supplied.size_self supplied.tag_self frame
  have hkept := (supplied.writes hf (fun a ha => (hroots a ha).toIsBlock) w).mono fun _ =>
    hc.alive hf hroots
  refine .bind (.modifyGet (.pure ⟨hkept, hnot,
    .of_tag (w.isBlock.2 supplied.isBlock) htag (by decide), htag, hframes.trans ?_⟩))
  rw [framesOf]
  refine congrArg (· ++ [frame]) (List.map_congr_left fun i hi => ?_)
  have hlt := List.mem_range.1 hi
  exact same.word _ (by omega) (by omega)

/-- The new channel has its slots, and nothing is in them. -/
theorem Closed.keeps_newChannel (capacity : Nat) : Ensures (newChannel capacity roots) h
    (fun a k => Keeps h k (h.Live roots.get) ∧ k.InUse a ∧ k.tag a = .channel ∧
      k.channelSlots a = max capacity 1 ∧ Ring k a [] ∧ k.isUnbuffered a = (capacity == 0))
    (fun _ k => Keeps h k (h.Live roots.get)) := by
  rw [newChannel_eq]
  split
  · exact .throw (.refl h _)
  refine .bind ((hc.supplied hf hroots .channel (ringStart + max capacity 1)).mono
    ?_ fun _ _ kept => kept)
  rintro a k ⟨supplied, -⟩
  have hfits := supplied.fits.2
  have hstart : ringStart = 4 := rfl
  have hlen := length_emptyRing (max capacity 1)
  have ha := supplied.isBlock
  obtain ⟨w, holds⟩ := holds_setPayload_setWords ha (channelPayload (capacity == 0) noKind)
    (emptyRing (max capacity 1)) (by omega)
  obtain ⟨hslots, ring⟩ := ring_nil (by omega) holds
  have htag : Heap.tag _ a = .channel := holds.tag.trans supplied.tag_self
  have hpayload : Heap.payload _ a = channelPayload (capacity == 0) noKind :=
    congrArg Header.payload holds.header
  have hunbuffered := isUnbuffered_eq (by decide) hpayload
  have kept := (supplied.writes hf (fun a ha => (hroots a ha).toIsBlock) w).mono fun _ =>
    hc.alive hf hroots
  refine .bind (.modifyGet (.pure ?_))
  dsimp only
  exact ⟨kept, .of_tag (w.isBlock.2 ha) htag (by decide), htag, hslots, ring, hunbuffered⟩

end Closed

/-- A node is allocated, which succeeds or fails, or there is a collection. -/
inductive Takes (h : Heap) (roots : Roots) : Heap → Prop where
  /-- A node that is neither a string nor a channel, and its children are words of it. -/
  | allocate (t : Tag) (n : Nat) (hstring : t ≠ .string) (hchannel : t ≠ .channel)
      (hchildren : (Header.fresh t n).childRange.2 ≤ n) : Takes h roots (leaves (allocate t n roots) h)
  /-- A number. -/
  | newNumber (x : Number) : Takes h roots (leaves (newNumber x roots) h)
  /-- A text. -/
  | newString (text : String) : Takes h roots (leaves (newString text roots) h)
  /-- Any value. -/
  | box (value : Value) : Takes h roots (leaves (box value roots) h)
  /-- A frame. -/
  | newFrame (slots : Nat) : Takes h roots (leaves (newFrame slots roots) h)
  /-- An environment without frames. -/
  | emptyEnvironment : Takes h roots (leaves (emptyEnvironment roots) h)
  /-- An environment with one frame more, where a collection keeps both. -/
  | extend (environment frame : Address) (henvironment : h.Live roots.get environment)
      (htag : h.tag environment = .environment) (hframe : h.Live roots.get frame) :
      Takes h roots (leaves (extend environment frame roots) h)
  /-- A channel. -/
  | newChannel (capacity : Nat) : Takes h roots (leaves (newChannel capacity roots) h)
  /-- A wait-group. -/
  | newWaitGroup : Takes h roots (leaves (newWaitGroup roots) h)
  /-- A collection. -/
  | collect : Takes h roots (h.collect roots.get)

theorem Takes.handles (takes : Takes h roots k) (hroots : ∀ a ∈ roots.get, h.InUse a) : Handles h k := by
  cases takes with
  | allocate t n hstring hchannel hchildren => exact .allocate t n roots hroots hstring hchannel hchildren
  | newNumber x => exact .newNumber x roots hroots
  | newString text => exact .newString text roots hroots
  | box value => exact .box value roots hroots
  | newFrame slots => exact .newFrame slots roots hroots
  | emptyEnvironment => exact .emptyEnvironment roots hroots
  | extend environment frame henvironment htag hframe =>
    exact .extend environment frame roots hroots henvironment htag hframe
  | newChannel capacity => exact .newChannel capacity roots hroots
  | newWaitGroup => exact .newWaitGroup roots hroots
  | collect => exact .collect roots.get hroots

/-- Nothing that can be reached and is in use is changed. -/
theorem Takes.keeps_alive (takes : Takes h roots k) (hf : h.Formed) (hroots : ∀ a ∈ roots.get, h.IsBlock a) :
    Keeps h k (h.Alive roots.get) := by
  have hleaves {α : Type} {x : Action α} {P : α → Heap → Prop}
      (hP : ∀ a k, P a k → Keeps h k (h.Alive roots.get))
      (hx : Ensures x h P fun _ k => Keeps h k (h.Alive roots.get)) :
      Keeps h (leaves x h) (h.Alive roots.get) :=
    leaves_of_ensures (P := fun k => Keeps h k (h.Alive roots.get)) (hx.mono hP fun _ _ => id)
  cases takes with
  | allocate t n => exact hleaves (fun _ _ => Supplied.kept) (hf.supplied hroots t n)
  | newNumber x => exact hleaves (fun _ _ => And.left) (hf.keeps_newNumber hroots x)
  | newString text => exact hleaves (fun _ _ => id) (hf.keeps_newString hroots text)
  | box value => exact hleaves (fun _ _ => id) (hf.keeps_box hroots value)
  | newFrame slots => exact hleaves (fun _ _ => Supplied.kept) (hf.supplied hroots .frame (slots + 1))
  | emptyEnvironment => exact hleaves (fun _ _ => Supplied.kept) (hf.supplied hroots .environment 1)
  | extend environment frame => exact hleaves (fun _ _ => id) (hf.keeps_extend hroots environment frame)
  | newChannel capacity => exact hleaves (fun _ _ => id) (hf.keeps_newChannel hroots capacity)
  | newWaitGroup => exact leaves_of_ensures (hf.keeps_newWaitGroup hroots)
  | collect => exact (hf.keeps_collect hroots).mono fun _ => Alive.live

/-- Nothing that can be reached is changed. -/
theorem Takes.keeps (takes : Takes h roots k) (hc : h.Closed) (hf : h.Formed)
    (hroots : ∀ a ∈ roots.get, h.InUse a) : Keeps h k (h.Live roots.get) :=
  (takes.keeps_alive hf fun a ha => (hroots a ha).toIsBlock).mono fun _ => hc.alive hf hroots

end ChannelMachine.Heap

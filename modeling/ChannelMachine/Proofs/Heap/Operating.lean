import ChannelMachine.Heap.Boxing
import ChannelMachine.Proofs.Heap.Building
import ChannelMachine.Proofs.Heap.Reclaiming
import ChannelMachine.Proofs.Heap.Updating

/-!
# Heaps that operations produce

`Operates h k` are the operations on a heap, and `Produced h` are the heaps that any of them lead to from
a new one.  An operation expects nodes of some kinds, which may be ones that were freed and are nodes of
those kinds again, and its roots are any nodes.  All heaps that are produced are formed, so a collection
frees exactly what cannot be reached (`Produced.reclaims_unreachable`).

`allocate` takes any kind and size.  If a node is too small for its children, the word of a child is one
that an earlier node has left there.  It need not be the address of a node, and a mark is set in the middle
of one then (`changes_reachable_stale`).  Strings and channels have words that an allocation does not write.
-/

namespace ChannelMachine.Heap

variable {h k : Heap} {a : Address} {roots : Roots}

/-! ## Allocation -/

/-- The heap after a collection, or as it was. -/
structure Stays (h k : Heap) (roots : List Address) : Prop where
  /-- It is formed. -/
  formed : k.Formed
  /-- The arena has its size. -/
  size : k.words.size = h.words.size
  /-- The nodes being built are the same. -/
  building : k.building = h.building
  /-- Behind their headers all nodes are as they were. -/
  word : ∀ b, h.IsBlock b → ∀ i, 1 ≤ i → i < nodeSize → k.word b i = h.word b i
  /-- What can be reached is of the same kind. -/
  tag : ∀ b, h.Live roots b → k.tag b = h.tag b
  /-- No text is new. -/
  strings : ∀ s : String, h.strings[s]? = none → k.strings[s]? = none

theorem Formed.stays_refill (hf : h.Formed) (hroots : ∀ a ∈ roots.get, h.IsBlock a) :
    Stays h (h.refill roots) roots.get := by
  unfold refill
  split
  next =>
    obtain ⟨k, l, reports, s, heq⟩ := hf.exists_swept hroots
    have hk := hf.of_swept s
    rw [heq]
    refine ⟨hk.alike ⟨⟨rfl, rfl, rfl, rfl⟩, rfl, rfl, rfl⟩ hk.building, s.size, s.building, s.word,
      fun b hb => (s.same hf.toWhole (hf.isBlock_of_live hroots hb) (.inl hb)).tag, fun t hnone => ?_⟩
    refine Option.eq_none_iff_forall_ne_some.2 fun b hb => ?_
    rw [((s.strings t b).1 hb).1] at hnone
    cases hnone
  next => exact ⟨hf, rfl, rfl, fun _ _ _ _ _ => rfl, fun _ _ => rfl, fun _ h => h⟩

/-- The heap right after an allocation. -/
structure Allocated (h k : Heap) (roots : List Address) (a : Address) (t : Tag) (n : Nat) :
    Prop extends FormedBut k a where
  /-- The header of the node. -/
  header : k.header a = .fresh t n
  /-- Its words. -/
  filled : ∀ i, 1 ≤ i → i < n → k.word a i = Heap.unassigned
  /-- They fit. -/
  fits : 1 ≤ n ∧ n ≤ nodeSize
  /-- Behind their headers the other nodes are as they were. -/
  word : ∀ b, h.IsBlock b → b ≠ a → ∀ i, 1 ≤ i → i < nodeSize → k.word b i = h.word b i
  /-- What could be reached and is in use is another node of the same kind. -/
  tag : ∀ b, h.Live roots b → h.tag b ≠ .free → b ≠ a ∧ k.tag b = h.tag b
  /-- The arena has its size. -/
  arena : k.words.size = h.words.size
  /-- The nodes being built are the same. -/
  keeps : k.building = h.building
  /-- No text is new. -/
  strings : ∀ s : String, h.strings[s]? = none → k.strings[s]? = none

theorem Formed.ensures_allocate (hf : h.Formed) (hroots : ∀ a ∈ roots.get, h.IsBlock a) (t : Tag)
    (n : Nat) : Ensures (allocate t n roots) h (fun a k => Allocated h k roots.get a t n)
      (fun _ k => k.Formed ∧ k.words.size = h.words.size) := by
  unfold Ensures allocate
  by_cases hn : n = 0 ∨ nodeSize < n
  · rw [if_pos hn]
    exact ⟨hf, rfl⟩
  · rw [if_neg hn]
    have r := hf.stays_refill hroots
    by_cases hfree : (h.refill roots).free = noNode
    · simp only [if_pos hfree]
      exact ⟨r.formed, r.size⟩
    · simp only [if_neg hfree]
      have renewed := r.formed.renewed hfree t (n := n) (by omega) (by omega)
      refine { toFormedBut := renewed.toFormedBut, header := renewed.header
               filled := renewed.filled, fits := by omega, word := fun b hb hne i hpos hlt => ?_
               tag := fun b hb hused => ?_, arena := renewed.arena.trans r.size
               keeps := renewed.keeps.trans r.building
               strings := fun s hs => renewed.strings ▸ r.strings s hs }
      · rw [(renewed.same b ((IsBlock.congr r.size).2 hb) hne).word i hpos hlt, r.word b hb i hpos hlt]
      · rw [← r.tag b hb] at hused ⊢
        have hne : b ≠ addressOf (h.refill roots).free.toNat := by
          rintro rfl
          exact hused renewed.wasFree
        have hblock := (IsBlock.congr r.size).2 (hf.isBlock_of_live hroots hb)
        exact ⟨hne, (renewed.same b hblock hne).tag⟩

namespace Allocated

variable {roots : List Address} {t : Tag} {n : Nat} (al : Allocated h k roots a t n)
include al

theorem tag_self : k.tag a = t := congrArg Header.tag al.header

theorem size_self : k.size a = n := by
  rw [Heap.size, al.header]
  exact toNat_size al.fits.2 t

/-- The node is formed if it is neither a string nor a channel and its children are words of it. -/
theorem toFormed (hstring : t ≠ .string) (hchannel : t ≠ .channel)
    (hchildren : (Header.fresh t n).childRange.2 ≤ n) : k.Formed := by
  have htag := al.tag_self
  have hwords : ∀ i, (k.header a).childRange.1 ≤ i → i < (k.header a).childRange.2 →
      k.word a i = Heap.unassigned := by
    intro i hle hlt
    rw [al.header] at hle hlt
    have hpos := Header.one_le_childRange_fst (Nat.lt_of_le_of_lt hle hlt)
    exact al.filled i (Nat.le_trans hpos hle) (Nat.lt_of_lt_of_le hlt hchildren)
  refine al.toFormedBut.fill (.refl k a) rfl (al.mark a al.isBlock) (al.packed a al.isBlock)
    (htag ▸ hstring) ⟨?_, fun i hle hlt => .inr ?_, fun h => absurd (htag.symm.trans h) hchannel,
      fun hgroup => .inr ?_⟩
  · rw [al.header]
    exact Nat.le_trans hchildren al.fits.2
  · rw [hwords i hle hlt]
    exact al.isBlock_unassigned
  · have hrange : (k.header a).childRange = (1, 2) := childRange_of_tag hgroup
    rw [hwords 1 (Nat.le_of_eq (congrArg Prod.fst hrange)) (by rw [hrange]; decide)]
    exact al.unassigned

end Allocated

/-- A fresh string node takes a new text. -/
theorem Allocated.intern {roots : List Address} {n : Nat} (al : Allocated h k roots a .string n)
    (s : String) (hnew : k.strings[s]? = none) : (k.intern a s).Formed where
  toShaped := by
    have hb := al.isBlock
    have w := writes_setWord hb (i := 1) (by decide) k.nextText
    have hheader := header_setWord hb hb (Nat.le_refl 1) (by decide) k.nextText
    have htag : (k.setWord a 1 k.nextText).tag a = .string :=
      (congrArg Header.tag hheader).trans al.tag_self
    have hshaped : (k.setWord a 1 k.nextText).Shaped fun _ => False := by
      refine al.toShaped.writes (fun _ => id) (fun _ h => h.elim) hb al.free w
        (.inr (congrArg Header.tag hheader)) (hheader ▸ al.mark a hb) ?_ fun _ => .of_leaf ?_ ?_ ?_
      · rw [hheader, word_setWord_block hb hb (by decide) (by decide), if_neg fun h => absurd h.2 (by decide)]
        exact al.packed a hb
      · exact childRange_of_tag htag
      all_goals
        rw [htag]
        decide
    exact hshaped.congr (sameArena_intern k a s) hshaped.building
  toInterned := interned_intern al.toInternedBut al.isBlock al.tag_self hnew

/-- A fresh channel takes an empty ring. -/
theorem Allocated.ring {roots : List Address} {slots : Nat}
    (al : Allocated h k roots a .channel (ringStart + slots)) (payload : UInt32) (hpos : 1 ≤ slots) :
    ((k.setPayload a payload).setWords a 1 (emptyRing slots)).Formed := by
  have hlen := length_emptyRing slots
  have hfits := al.fits.2
  have hstart : ringStart = 4 := rfl
  obtain ⟨w, holds⟩ := holds_setPayload_setWords al.isBlock payload (emptyRing slots) (by omega)
  have hpacked : ((k.setPayload a payload).setWords a 1 (emptyRing slots)).word a 0 =
      (((k.setPayload a payload).setWords a 1 (emptyRing slots)).header a).pack := by
    have hb := (writes_setPayload al.isBlock payload).isBlock.2 al.isBlock
    rw [header_setWords hb hb (Nat.le_refl 1) (by omega),
      word_setWords_block _ hb hb (by omega) (by decide), if_neg (by omega)]
    exact packed_setHeader al.isBlock al.isBlock _ fun hne => absurd rfl hne
  generalize (k.setPayload a payload).setWords a 1 (emptyRing slots) = l at w holds hpacked ⊢
  have htag : l.tag a = .channel := by
    rw [holds.tag, al.header]
    rfl
  have hsize : l.size a = ringStart + slots := by
    rw [Heap.size, holds.header, al.header]
    exact toNat_size hfits .channel
  refine al.toFormedBut.fill w (htag.trans al.tag_self.symm) (by rw [holds.header, al.header]; rfl)
    hpacked (by rw [al.tag_self]; decide) ⟨?_, fun i hle hlt => .inl ⟨htag, ?_⟩, fun _ => ?_,
      fun h => absurd (htag.symm.trans h) (by decide)⟩
  · rw [childRange_channel htag]
    exact hsize ▸ hfits
  · rw [childRange_channel htag] at hle hlt
    have hle' : 4 ≤ i := hle
    have hlt' : i < ringStart + slots := hsize ▸ hlt
    obtain ⟨j, rfl⟩ : ∃ j, i = j + 3 + 1 := ⟨i - 4, by omega⟩
    refine holds.word (j + 3) vacant ?_
    change (List.replicate slots vacant)[j]? = some vacant
    rw [List.getElem?_replicate, if_pos (by omega)]
  · have hslots : l.channelSlots a = slots := holds.word 0 _ rfl
    have hwrite : l.writeSlot a = 0 := holds.word 1 _ rfl
    have hread : l.readSlot a = 0 := holds.word 2 _ rfl
    rw [hslots, hwrite, hread]
    exact ⟨hsize, hpos, hpos⟩

/-- An allocation of a node that is neither a string nor a channel leaves a formed heap. -/
theorem Formed.ensures_node (hf : h.Formed) (hroots : ∀ a ∈ roots.get, h.IsBlock a) {t : Tag} {n : Nat}
    (hstring : t ≠ .string) (hchannel : t ≠ .channel)
    (hchildren : (Header.fresh t n).childRange.2 ≤ n) :
    Ensures (allocate t n roots) h (fun a k => k.Formed ∧ Allocated h k roots.get a t n)
      (fun _ k => k.Formed ∧ k.words.size = h.words.size) :=
  (hf.ensures_allocate hroots t n).mono
    (fun _ _ al => ⟨al.toFormed hstring hchannel hchildren, al⟩) fun _ _ => id

theorem childRange_fresh_le (t : Tag) (n : Nat) (ht : t = .frame ∨ t = .environment) :
    (Header.fresh t n).childRange.2 ≤ n := by
  rcases ht with rfl | rfl
  all_goals
    change (UInt16.ofNat n).toNat ≤ n
    rw [UInt16.toNat_ofNat']
    exact Nat.mod_le ..

/-! ## Operations -/

namespace Formed

/-- Only the arena counts. -/
theorem withBuilding (hf : h.Formed) {building : List Address} (hb : ∀ b ∈ building, h.IsBlock b) :
    (h.withBuilding building).Formed := hf.alike (alike_withBuilding h building) hb

theorem setNumber (hf : h.Formed) (ha : h.IsBlock a)
    (htag : h.tag a = .number ∨ h.tag a = .unassigned) (x : Number) : (h.setNumber a x).Formed := by
  have hrange : (h.header a).childRange = (0, 0) := by
    rcases htag with htag | htag <;> exact childRange_of_tag htag
  have hne : h.tag a ≠ .free ∧ h.tag a ≠ .string ∧ h.tag a ≠ .channel ∧ h.tag a ≠ .waitGroup := by
    rcases htag with htag | htag <;> simp [htag]
  refine hf.setWord ha hne.1 hne.2.1 (Nat.le_refl 1) (by decide) (fun _ hlt => ?_)
    (fun h => absurd h hne.2.2.1) fun h => absurd h hne.2.2.2
  rw [hrange] at hlt
  cases hlt

variable (hf : h.Formed)
include hf

theorem ensures_newNumber (hroots : ∀ a ∈ roots.get, h.IsBlock a) (x : Number) :
    Ensures (newNumber x roots) h
      (fun a k => k.Formed ∧ k.words.size = h.words.size ∧ k.IsBlock a ∧ k.tag a = .number)
      (fun _ k => k.Formed) := by
  refine .bind ((hf.ensures_node hroots (by decide) (by decide) (by decide)).mono ?_ fun _ _ => And.left)
  rintro a k ⟨hk, al⟩
  have w := writes_setWord al.isBlock (i := 1) (by decide) x.bits.toNat
  have htag : (k.setNumber a x).tag a = .number :=
    (congrArg Header.tag (header_setWord al.isBlock al.isBlock (Nat.le_refl 1) (by decide) _)).trans
      al.tag_self
  exact .bind (.modifyGet (.pure ⟨hk.setNumber al.isBlock (.inl al.tag_self) x, w.size.trans al.arena,
    w.isBlock.2 al.isBlock, htag⟩))

theorem ensures_newString (hroots : ∀ a ∈ roots.get, h.IsBlock a) (text : String) :
    Ensures (newString text roots) h (fun _ k => k.Formed) (fun _ k => k.Formed) := by
  refine .bind (.get ?_)
  split
  next => exact .pure hf
  next hnew =>
    refine .bind ((hf.ensures_allocate hroots .string 2).mono ?_ fun _ _ => And.left)
    intro a k al
    exact .bind (.modifyGet (.pure (al.intern text (al.strings _ hnew))))

theorem ensures_box (hroots : ∀ a ∈ roots.get, h.IsBlock a) (value : Value) :
    Ensures (box value roots) h (fun _ k => k.Formed) (fun _ k => k.Formed) := by
  cases value with
  | number x => exact (hf.ensures_newNumber hroots x).mono (fun _ _ => And.left) fun _ _ => id
  | text s => exact hf.ensures_newString hroots s
  | bool | null | undefined | unassigned => exact .pure hf
  | _ => exact .throw hf

/-- The words of an environment are nodes. -/
theorem isBlock_of_environment (ha : h.IsBlock a) (htag : h.tag a = .environment) {i : Nat}
    (hpos : 1 ≤ i) (hlt : i < h.size a) : h.IsBlock (h.word a i) := by
  have hrange := childRange_environment htag
  refine ((hf.nodeFormed ha).child i (by rw [hrange]; exact hpos) (by rw [hrange]; exact hlt)).resolve_left
    fun heq => ?_
  rw [htag] at heq
  cases heq.1

/-- An environment takes any frame. -/
theorem setFrame (ha : h.IsBlock a) (htag : h.tag a = .environment) {i w : Nat} (hpos : 1 ≤ i)
    (hlt : i < nodeSize) (hw : h.IsBlock w) : (h.setWord a i w).Formed :=
  hf.setWord ha (by rw [htag]; decide) (by rw [htag]; decide) hpos hlt (fun _ _ => .inr hw)
    (fun h => absurd (htag.symm.trans h) (by decide)) fun h => absurd (htag.symm.trans h) (by decide)

/-- Words that are nodes are copied into an environment.  It may be the one that they are copied from. -/
theorem copyWords {source : Address} (hsource : h.IsBlock source) (ha : h.IsBlock a)
    (htag : h.tag a = .environment) {i n : Nat} (hpos : 1 ≤ i) (hle : i + n ≤ nodeSize)
    (hwords : ∀ j, i ≤ j → j < i + n → h.IsBlock (h.word source j)) :
    (h.copyWords source a i n).Formed ∧ (h.copyWords source a i n).tag a = .environment := by
  induction n generalizing h i with
  | zero => exact ⟨hf, htag⟩
  | succ n ih =>
    have hlt : i < nodeSize := by omega
    have w := writes_setWord ha hlt (h.word source i)
    have hheader := header_setWord ha ha hpos hlt (h.word source i)
    refine ih (hf.setFrame ha htag hpos hlt (hwords i (Nat.le_refl i) (by omega)))
      (w.isBlock.2 hsource) (w.isBlock.2 ha) ((congrArg Header.tag hheader).trans htag)
      (Nat.le_succ_of_le hpos) (by omega) fun j hij hj => w.isBlock.2 ?_
    rw [word_setWord_block ha hsource hlt (by omega), if_neg fun heq => by omega]
    exact hwords j (by omega) (by omega)

theorem ensures_extend (hroots : ∀ a ∈ roots.get, h.IsBlock a) {environment frame : Address}
    (henv : h.IsBlock environment) (htag : h.tag environment = .environment)
    (hframe : h.IsBlock frame) :
    Ensures (extend environment frame roots) h (fun _ k => k.Formed) (fun _ k => k.Formed) := by
  refine .bind (.get (.bind ((hf.ensures_node hroots (by decide) (by decide)
    (childRange_fresh_le _ _ (.inr rfl))).mono ?_ fun _ _ => And.left)))
  rintro a k ⟨hk, al⟩
  have hblock : ∀ {b}, k.IsBlock b ↔ h.IsBlock b := IsBlock.congr al.arena
  have hlt := al.fits.2
  refine .bind (.modifyGet (.pure ?_))
  obtain ⟨hcopied, hcopiedTag⟩ := hk.copyWords (i := 1) (n := h.frameCount environment)
    (hblock.2 henv) al.isBlock al.tag_self (Nat.le_refl 1) (by omega) fun j hpos hj => by
      by_cases hne : environment = a
      · rw [hne, al.filled j hpos (by omega)]
        exact al.isBlock_unassigned
      · rw [al.word environment henv hne j hpos (by omega), hblock]
        refine hf.isBlock_of_environment henv htag hpos ?_
        have hcount : h.frameCount environment = h.size environment - 1 := rfl
        omega
  have w := @writes_copyWords environment a (h.frameCount environment) k 1 al.isBlock (by omega)
  exact hcopied.setFrame (w.isBlock.2 al.isBlock) hcopiedTag (Nat.le_add_left ..) (by omega)
    (w.isBlock.2 (hblock.2 hframe))

theorem ensures_newChannel (hroots : ∀ a ∈ roots.get, h.IsBlock a) (capacity : Nat) :
    Ensures (newChannel capacity roots) h (fun _ k => k.Formed) (fun _ k => k.Formed) := by
  rw [newChannel_eq]
  split
  · exact .throw hf
  · refine .bind ((hf.ensures_allocate hroots .channel _).mono ?_ fun _ _ => And.left)
    intro a k al
    refine .bind (.modifyGet (.pure ?_))
    dsimp only
    exact al.ring _ (Nat.le_max_right ..)

theorem ensures_newWaitGroup (hroots : ∀ a ∈ roots.get, h.IsBlock a) :
    Ensures (newWaitGroup roots) h (fun _ k => k.Formed) (fun _ k => k.Formed) := by
  rw [newWaitGroup_eq]
  refine .bind ((hf.ensures_newNumber hroots .zero).mono ?_ fun _ _ => id)
  rintro c k ⟨hk, hsize, hc, hnumber⟩
  have hheld : (k.held c).Formed := hk.withBuilding fun b hb => by
    rcases List.mem_cons.1 hb with rfl | hb
    · exact hc
    · exact hk.building b hb
  have hblock : ∀ {b}, (k.held c).IsBlock b ↔ h.IsBlock b :=
    IsBlock.congr (k := k.held c) (h := h) hsize
  refine holding_ensures (.bind ((hheld.ensures_node (fun a ha => hblock.2 (hroots a ha)) (t := .waitGroup)
    (n := 2) (by decide) (by decide) (by decide)).mono ?_ ?_))
  · rintro g l ⟨hl, al⟩
    have hcl : (k.held c).IsBlock c := hblock.2 ((IsBlock.congr hsize).1 hc)
    obtain ⟨-, htag⟩ := al.tag c .self_held (by
      change k.tag c ≠ .free
      rw [hnumber]
      decide)
    have hgroup := al.tag_self
    have hset : (l.setWord g 1 c).Formed := by
      refine hl.setWord al.isBlock (by rw [hgroup]; decide) (by rw [hgroup]; decide) (Nat.le_refl 1)
        (by decide) (fun _ _ => .inr ((IsBlock.congr al.arena).2 hcl))
        (fun h => absurd (hgroup.symm.trans h) (by decide)) fun _ => .inl (htag.trans hnumber)
    have w := writes_setWord al.isBlock (i := 1) (by decide) c
    refine .bind (.modifyGet (.pure (hset.withBuilding fun b hb => w.isBlock.2 ?_)))
    exact (IsBlock.congr al.arena).2 (hblock.2 ((IsBlock.congr hsize).1 (hk.building b hb)))
  · rintro e l ⟨hl, harena⟩
    exact hl.withBuilding fun b hb =>
      (IsBlock.congr harena).2 (hblock.2 ((IsBlock.congr hsize).1 (hk.building b hb)))

/-- A variable is a word of a frame. -/
theorem of_slotOf? (ha : h.IsBlock a) (htag : h.tag a = .environment) {p : Position}
    {frame : Address} {i : Nat} (hslot : h.slotOf? a p = some (frame, i)) :
    h.IsBlock frame ∧ h.tag frame = .frame ∧ 1 ≤ i ∧ i < nodeSize := by
  unfold slotOf? at hslot
  split at hslot
  next hlt =>
    dsimp only at hslot
    split at hslot
    next hin =>
      obtain ⟨rfl, rfl⟩ := Prod.mk.inj (Option.some.inj hslot)
      have hcount : h.frameCount a = h.size a - 1 := rfl
      have hb := hf.isBlock_of_environment ha htag (i := p.frame + 1) (Nat.le_add_left ..) (by omega)
      have hrange := (hf.nodeFormed hb).range
      rw [childRange_frame hin.1] at hrange
      exact ⟨hb, hin.1, Nat.le_add_left .., Nat.lt_of_lt_of_le hin.2 hrange⟩
    next => cases hslot
  next => cases hslot

theorem ensures_assign (ha : h.IsBlock a) (htag : h.tag a = .environment) (p : Position)
    {value : Address} (hvalue : h.IsBlock value) :
    Ensures (assign a p value) h (fun _ k => k.Formed) (fun _ k => k.Formed) := by
  unfold Ensures assign
  cases hslot : h.slotOf? a p with
  | none => exact hf
  | some slot =>
    obtain ⟨hb, hframe, hpos, hlt⟩ := hf.of_slotOf? ha htag hslot
    exact hf.setWord hb (by rw [hframe]; decide) (by rw [hframe]; decide) hpos hlt
      (fun _ _ => .inr hvalue) (fun h => absurd (hframe.symm.trans h) (by decide))
      fun h => absurd (hframe.symm.trans h) (by decide)

/-- The slots of a channel are words of its node. -/
theorem slot_lt (ha : h.IsBlock a) (htag : h.tag a = .channel) {i : Nat} (hi : i < h.channelSlots a) :
    ringStart + i < nodeSize := by
  have hsize := ((hf.nodeFormed ha).ring htag).1
  have hrange := (hf.nodeFormed ha).range
  rw [childRange_channel htag] at hrange
  have hle : h.size a ≤ 10 := hrange
  have hnode : nodeSize = 10 := rfl
  omega

/-- A slot of a channel takes any node, and an index moves to another slot. -/
theorem setRing (ha : h.IsBlock a) (htag : h.tag a = .channel) {i j w n : Nat}
    (hi : i < h.channelSlots a) (hw : w = vacant ∨ h.IsBlock w) (hj : j = 2 ∨ j = 3)
    (hn : n < h.channelSlots a) : ((h.setWord a (ringStart + i) w).setWord a j n).Formed := by
  have hnode : nodeSize = 10 := rfl
  have hstart : ringStart = 4 := rfl
  have hlt := hf.slot_lt ha htag hi
  have first : (h.setWord a (ringStart + i) w).Formed := by
    refine hf.setWord ha (by rw [htag]; decide) (by rw [htag]; decide) (by omega) hlt (fun _ _ => ?_)
      (fun _ => ⟨by omega, fun h => by omega⟩) fun h => absurd (htag.symm.trans h) (by decide)
    exact hw.imp_left fun heq => ⟨htag, heq⟩
  have hb := (writes_setWord ha hlt w).isBlock.2 ha
  have htag' : (h.setWord a (ringStart + i) w).tag a = .channel :=
    (congrArg Header.tag (header_setWord ha ha (by omega) hlt w)).trans htag
  have hslots := channelSlots_setWord ha (i := ringStart + i) (by omega) hlt w
  refine first.setWord hb (by rw [htag']; decide) (by rw [htag']; decide) (by omega) (by omega)
    (fun hle' _ => ?_) (fun _ => ⟨by omega, fun _ => hslots ▸ hn⟩)
    fun h => absurd (htag'.symm.trans h) (by decide)
  rw [childRange_channel htag'] at hle'
  have hfirst : 4 ≤ j := hle'
  omega

theorem channelPush (ha : h.IsBlock a) (htag : h.tag a = .channel) {value : Address}
    (hvalue : h.IsBlock value) : (h.channelPush a value).Formed := by
  obtain ⟨-, hwrite, -⟩ := (hf.nodeFormed ha).ring htag
  exact hf.setRing ha htag hwrite (.inr hvalue) (.inl rfl)
    (Nat.mod_lt _ (Nat.lt_of_le_of_lt (Nat.zero_le _) hwrite))

theorem channelPop (ha : h.IsBlock a) (htag : h.tag a = .channel) : (h.channelPop a).Formed := by
  obtain ⟨-, -, hread⟩ := (hf.nodeFormed ha).ring htag
  exact hf.setRing ha htag hread (.inl rfl) (.inr rfl)
    (Nat.mod_lt _ (Nat.lt_of_le_of_lt (Nat.zero_le _) hread))

theorem setGroupCount (ha : h.IsBlock a) (htag : h.tag a = .waitGroup) (count : Number) :
    (h.setGroupCount a count).Formed :=
  hf.setNumber ((hf.nodeFormed ha).isBlock_counter htag) ((hf.nodeFormed ha).counter htag) count

/-- What is permanent from now on lies in front of the free nodes. -/
theorem sealAll : h.sealAll.Formed := by
  obtain ⟨l, hl, -⟩ := hf.free
  have hbottom : h.sealAll.bottom % nodeSize = 0 ∧ h.sealAll.bottom ≤ h.words.size := by
    rcases hl.sealAll_cases hf.count with ⟨-, hbottom⟩ | ⟨i, rest, rfl, hlt, hbottom⟩
    · rw [hbottom, hf.size]
      exact ⟨Nat.mul_mod_right .., Nat.le_refl _⟩
    · rw [hbottom]
      exact ⟨addressOf_mod _, Nat.le_trans (Nat.le_add_right ..) (isBlock_addressOf.2 hlt).inside⟩
  have hblock : ∀ {b}, h.sealAll.IsBlock b ↔ h.IsBlock b :=
    IsBlock.congr (k := h.sealAll) (h := h) rfl
  have hsame : ∀ b, SameNode h h.sealAll b := fun b => ⟨rfl, fun _ _ _ => rfl⟩
  refine ⟨⟨⟨hf.size, hf.count, fun b hb => hf.mark b (hblock.1 hb)⟩,
    fun b hb => hf.packed b (hblock.1 hb), hbottom.1, hbottom.2,
    Nat.le_trans hf.constants_le (hl.bottom_le_sealAll hf.count hf.bottom_le), hf.unassigned,
    fun b hb => hblock.2 (hf.building b hb), ⟨l, hl.sealAll hf.count, fun _ _ => id⟩,
    fun b hb _ => (hf.nodeFormed (hblock.1 hb)).congr (hsame b) rfl fun _ => rfl⟩,
    hf.toInterned.congr rfl rfl rfl rfl (fun _ _ => rfl) fun _ _ _ => rfl⟩

end Formed

/-- The heap that an action leaves behind, with a value or with a fault. -/
def leaves {α : Type} (x : Action α) (h : Heap) : Heap :=
  match x h with
  | .ok _ k | .error _ k => k

theorem leaves_of_ensures {α : Type} {x : Action α} {P : Heap → Prop}
    (hx : Ensures x h (fun _ k => P k) (fun _ k => P k)) : P (leaves x h) := by
  unfold Ensures at hx
  unfold leaves
  split at hx <;> simp_all

/-- An operation on a heap.  The nodes that it is given are of the kinds that it expects, and the roots
of a collection are nodes of any kind. -/
inductive Operates (h : Heap) : Heap → Prop where
  /-- A node that is neither a string nor a channel is allocated, and its children are words of it. -/
  | allocate (t : Tag) (n : Nat) (roots : Roots) (hroots : ∀ a ∈ roots.get, h.IsBlock a)
      (hstring : t ≠ .string) (hchannel : t ≠ .channel)
      (hchildren : (Header.fresh t n).childRange.2 ≤ n) : Operates h (leaves (allocate t n roots) h)
  /-- A number. -/
  | newNumber (x : Number) (roots : Roots) (hroots : ∀ a ∈ roots.get, h.IsBlock a) :
      Operates h (leaves (newNumber x roots) h)
  /-- A text. -/
  | newString (text : String) (roots : Roots) (hroots : ∀ a ∈ roots.get, h.IsBlock a) :
      Operates h (leaves (newString text roots) h)
  /-- Any value. -/
  | box (value : Value) (roots : Roots) (hroots : ∀ a ∈ roots.get, h.IsBlock a) :
      Operates h (leaves (box value roots) h)
  /-- A frame. -/
  | newFrame (slots : Nat) (roots : Roots) (hroots : ∀ a ∈ roots.get, h.IsBlock a) :
      Operates h (leaves (newFrame slots roots) h)
  /-- An environment without frames. -/
  | emptyEnvironment (roots : Roots) (hroots : ∀ a ∈ roots.get, h.IsBlock a) :
      Operates h (leaves (emptyEnvironment roots) h)
  /-- An environment with one frame more. -/
  | extend (environment frame : Address) (roots : Roots) (hroots : ∀ a ∈ roots.get, h.IsBlock a)
      (henvironment : h.IsBlock environment) (htag : h.tag environment = .environment)
      (hframe : h.IsBlock frame) : Operates h (leaves (extend environment frame roots) h)
  /-- A channel. -/
  | newChannel (capacity : Nat) (roots : Roots) (hroots : ∀ a ∈ roots.get, h.IsBlock a) :
      Operates h (leaves (newChannel capacity roots) h)
  /-- A wait-group. -/
  | newWaitGroup (roots : Roots) (hroots : ∀ a ∈ roots.get, h.IsBlock a) :
      Operates h (leaves (newWaitGroup roots) h)
  /-- A variable is assigned. -/
  | assign (environment : Address) (p : Position) (value : Address)
      (henvironment : h.IsBlock environment) (htag : h.tag environment = .environment)
      (hvalue : h.IsBlock value) : Operates h (leaves (assign environment p value) h)
  /-- A value is put into a channel. -/
  | channelPush (a value : Address) (ha : h.IsBlock a) (htag : h.tag a = .channel)
      (hvalue : h.IsBlock value) : Operates h (h.channelPush a value)
  /-- A value is taken out of a channel. -/
  | channelPop (a : Address) (ha : h.IsBlock a) (htag : h.tag a = .channel) :
      Operates h (h.channelPop a)
  /-- A number is written. -/
  | setNumber (a : Address) (x : Number) (ha : h.IsBlock a) (htag : h.tag a = .number) :
      Operates h (h.setNumber a x)
  /-- The counter of a wait-group is written. -/
  | setGroupCount (a : Address) (count : Number) (ha : h.IsBlock a) (htag : h.tag a = .waitGroup) :
      Operates h (h.setGroupCount a count)
  /-- The payload of a node is written, such as the element kind of a channel. -/
  | setPayload (a : Address) (payload : UInt32) (ha : h.IsBlock a) (hfree : h.tag a ≠ .free) :
      Operates h (h.setPayload a payload)
  /-- A word behind the header of another node is written, which is a node if it is a child. -/
  | setWord (a : Address) (i w : Nat) (ha : h.IsBlock a) (hfree : h.tag a ≠ .free)
      (hstring : h.tag a ≠ .string) (hchannel : h.tag a ≠ .channel) (hgroup : h.tag a ≠ .waitGroup)
      (hpos : 1 ≤ i) (hlt : i < nodeSize) (hchild : i < (h.header a).childRange.2 → h.IsBlock w) :
      Operates h (h.setWord a i w)
  /-- Nodes are being built, or no longer. -/
  | withBuilding (building : List Address) (hbuilding : ∀ a ∈ building, h.IsBlock a) :
      Operates h (h.withBuilding building)
  /-- What was allocated so far becomes permanent. -/
  | sealAll : Operates h h.sealAll
  /-- Collections are reported from now on, or no longer. -/
  | trace (tracing : Bool) : Operates h { h with tracing }
  /-- A collection. -/
  | collect (roots : List Address) (hroots : ∀ a ∈ roots, h.IsBlock a) : Operates h (h.collect roots)

/-- Operations keep a heap formed. -/
theorem Operates.formed (operates : Operates h k) (hf : h.Formed) : k.Formed := by
  have hnode : ∀ {t : Tag} {n : Nat} {roots : Roots}, (∀ a ∈ roots.get, h.IsBlock a) → t ≠ .string →
      t ≠ .channel → (Header.fresh t n).childRange.2 ≤ n → (leaves (Heap.allocate t n roots) h).Formed :=
    fun hroots hstring hchannel hchildren => leaves_of_ensures ((hf.ensures_node hroots hstring hchannel
      hchildren).mono (fun _ _ => And.left) fun _ _ => And.left)
  cases operates with
  | allocate t n roots hroots hstring hchannel hchildren => exact hnode hroots hstring hchannel hchildren
  | newNumber x roots hroots =>
    exact leaves_of_ensures ((hf.ensures_newNumber hroots x).mono (fun _ _ => And.left) fun _ _ => id)
  | newString text roots hroots => exact leaves_of_ensures (hf.ensures_newString hroots text)
  | box value roots hroots => exact leaves_of_ensures (hf.ensures_box hroots value)
  | newFrame slots roots hroots =>
    exact hnode hroots (by decide) (by decide) (childRange_fresh_le _ _ (.inl rfl))
  | emptyEnvironment roots hroots => exact hnode hroots (by decide) (by decide) (by decide)
  | extend environment frame roots hroots henvironment htag hframe =>
    exact leaves_of_ensures (hf.ensures_extend hroots henvironment htag hframe)
  | newChannel capacity roots hroots => exact leaves_of_ensures (hf.ensures_newChannel hroots capacity)
  | newWaitGroup roots hroots => exact leaves_of_ensures (hf.ensures_newWaitGroup hroots)
  | assign environment p value henvironment htag hvalue =>
    exact leaves_of_ensures (hf.ensures_assign henvironment htag p hvalue)
  | channelPush a value ha htag hvalue => exact hf.channelPush ha htag hvalue
  | channelPop a ha htag => exact hf.channelPop ha htag
  | setNumber a x ha htag => exact hf.setNumber ha (.inl htag) x
  | setGroupCount a count ha htag => exact hf.setGroupCount ha htag count
  | setPayload a payload ha hfree => exact hf.setPayload ha hfree payload
  | setWord a i w ha hfree hstring hchannel hgroup hpos hlt hchild =>
    exact hf.setWord ha hfree hstring hpos hlt (fun _ h => .inr (hchild h))
      (fun h => absurd h hchannel) fun h => absurd h hgroup
  | withBuilding building hbuilding => exact hf.withBuilding hbuilding
  | sealAll => exact hf.sealAll
  | trace => exact hf.alike ⟨⟨rfl, rfl, rfl, rfl⟩, rfl, rfl, rfl⟩ hf.building
  | collect roots hroots => exact hf.collect hroots

/-! ## The law -/

/-- A heap that operations lead to from a new one. -/
inductive Produced : Heap → Prop where
  /-- A new heap. -/
  | create {words : Nat} {h : Heap} (hcreate : create words = .ok h) : Produced h
  /-- The heap that an operation leaves behind. -/
  | operate {h k : Heap} (produced : Produced h) (operates : Operates h k) : Produced k

/-- All heaps that operations lead to are formed. -/
theorem Produced.formed (produced : Produced h) : h.Formed := by
  induction produced with
  | create hcreate => exact formed_of_create hcreate
  | operate _ operates ih => exact operates.formed ih

/-- A collection of any heap that operations lead to frees exactly what cannot be reached. -/
theorem Produced.reclaims_unreachable (produced : Produced h) {roots : List Address}
    (hroots : ∀ a ∈ roots, h.IsBlock a) : Reclaims h (h.collect roots) roots :=
  produced.formed.reclaims_collect hroots

/-- A heap is created if one can be. -/
theorem create_eq {words : Nat} (hsome : (create words).toOption.isSome = true) :
    create words = .ok ((create words).toOption.getD default) := by
  cases hcreate : create words with
  | ok => rfl
  | error e =>
    rw [hcreate] at hsome
    cases hsome

/-- A heap of ten nodes. -/
def ten : Heap := (create 100).toOption.getD default

/-- A heap with a number and an environment around a frame that holds it. -/
def enclosing : Heap :=
  let first := leaves (newNumber ⟨0x3ff0000000000000⟩ noRoots) ten
  let second := leaves (newFrame 1 noRoots) first
  let third := leaves (emptyEnvironment noRoots) second
  let fourth := leaves (extend 70 60 noRoots) third
  leaves (assign 80 ⟨0, 0⟩ 50) fourth

theorem produced_enclosing : Produced enclosing := by
  have hnone : ∀ {h : Heap}, ∀ a ∈ noRoots.get, h.IsBlock a := fun a ha => nomatch ha
  have hten : create 100 = .ok ten := create_eq (by decide +kernel)
  refine .operate (.operate (.operate (.operate (.operate (.create hten)
    (.newNumber ⟨0x3ff0000000000000⟩ noRoots hnone)) (.newFrame 1 noRoots hnone))
    (.emptyEnvironment noRoots hnone)) (.extend 70 60 noRoots hnone ?_ ?_ ?_)) (.assign 80 ⟨0, 0⟩ 50 ?_
      ?_ ?_)
  · exact ⟨by decide, by decide +kernel⟩
  · decide +kernel
  · exact ⟨by decide, by decide +kernel⟩
  · exact ⟨by decide, by decide +kernel⟩
  · decide +kernel
  · exact ⟨by decide, by decide +kernel⟩

/-- The second environment is a root twice, and so is a node that is free.  Only the first environment
is freed. -/
theorem reclaims_unreachable_enclosing : Produced enclosing ∧ (∀ a ∈ [80, 90, 80], enclosing.IsBlock a) ∧
    Reclaims enclosing (enclosing.collect [80, 90, 80]) [80, 90, 80] ∧
    (enclosing.collect [80, 90, 80]).lastFreed = 1 ∧
    (enclosing.collect [80, 90, 80]).freeCount = 1 := by
  -- The heap is evaluated once for all facts about it.
  obtain ⟨hsize, hlast, hfree⟩ : enclosing.words.size = 100 ∧
      (enclosing.collect [80, 90, 80]).lastFreed = 1 ∧
      (enclosing.collect [80, 90, 80]).freeCount = 1 := by
    decide +kernel
  have hroots : ∀ a ∈ [80, 90, 80], enclosing.IsBlock a := by
    intro a ha
    have hcases : a = 80 ∨ a = 90 := by simpa [or_comm] using ha
    rcases hcases with rfl | rfl
    all_goals exact ⟨by decide, by rw [hsize]; decide⟩
  exact ⟨produced_enclosing, hroots, produced_enclosing.reclaims_unreachable hroots, hlast, hfree⟩

/-- A heap whose node at sixty is too small for its child.  There is a number at fifty. -/
def stale : Heap :=
  let first := leaves (newNumber ⟨0x3ff0000000000000⟩ noRoots) ten
  let second := leaves (newNumber ⟨51⟩ noRoots) first
  leaves (allocate .blockframe 1 ⟨fun _ => [50]⟩) (second.collect [50])

/-- The number is a root of a collection of that heap, and it is another number afterwards. -/
theorem changes_reachable_stale : stale.tag 50 = .number ∧ stale.tag 60 = .blockframe ∧
    stale.Live [50, 60] 50 ∧ (stale.collect [50, 60]).word 50 1 ≠ stale.word 50 1 := by
  have h : stale.tag 50 = .number ∧ stale.tag 60 = .blockframe ∧
      (stale.collect [50, 60]).word 50 1 ≠ stale.word 50 1 := by
    decide +kernel
  exact ⟨h.1, h.2.1, .root (List.mem_cons_self ..), h.2.2⟩

end ChannelMachine.Heap

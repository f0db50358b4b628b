import ChannelMachine.Proofs.Heap.Initial
import ChannelMachine.Proofs.Machine.Sound

/-!
# The machine before the first instruction

A machine is built in a heap in which nothing is freed, so all its nodes have known addresses: the
frame of the builtins stands behind the constants, the builtins behind it in their order, and the
global environment comes last.  `Global` is that heap.  A machine can be built if and only if there
is room for these nodes (`newGlobal_ensures`).
-/

namespace ChannelMachine

namespace Heap

/-- The frame of the builtins. -/
def globalFrame : Nat := addressOf 5

/-- The node of the builtin of a slot. -/
def builtinNode (slot : Nat) : Nat := addressOf (6 + slot)

/-- The global environment of `n` builtins. -/
def globalEnvironment (n : Nat) : Nat := addressOf (6 + n)

/-- The header of the builtin of a slot. -/
def builtinHeader (slot : Nat) : Header :=
  { Header.fresh .builtin 1 with payload := .ofNat slot }

/-- The variables of the frame of `n` builtins, once the first ones are there. -/
def builtinSlots (n slot : Nat) : List Nat :=
  (List.range n).map fun i => if i < slot then builtinNode i else unassigned

/-- The heap of a machine with `n` builtins while the builtins from `slot` on are to be made. -/
structure Building (h : Heap) (n slot : Nat) : Prop extends Sound h where
  /-- The nodes so far. -/
  filled : Filled h (6 + slot)
  /-- The constants are permanent. -/
  low : h.bottom = addressOf 5
  /-- The frame is held. -/
  held : h.building = [globalFrame]
  /-- The frame. -/
  frame : Holds h globalFrame (.fresh .frame (n + 1)) (builtinSlots n slot)
  /-- The nodes of the constants. -/
  plain : ∀ i t, constants[i]? = some t → h.header (addressOf i) = .fresh t 1
  /-- The builtins. -/
  builtin : ∀ i, i < slot → h.header (builtinNode i) = builtinHeader i
  /-- There are no more builtins than slots. -/
  le : slot ≤ n
  /-- They fit the frame. -/
  fits : n + 1 ≤ nodeSize

theorem length_builtinSlots (n slot : Nat) : (builtinSlots n slot).length = n := by
  rw [builtinSlots, List.length_map, List.length_range]

theorem getElem?_builtinSlots {n slot i : Nat} (hi : i < n) :
    (builtinSlots n slot)[i]? = some (if i < slot then builtinNode i else unassigned) := by
  rw [builtinSlots, List.getElem?_map, List.getElem?_range hi, Option.map_some]

theorem inUse_noRoots (h : Heap) : ∀ a ∈ noRoots.get, h.InUse a := fun _ ha => nomatch ha

theorem Filled.inUse {h : Heap} {n i : Nat} (hf : Filled h n) (hi : i < n) : h.InUse (addressOf i) := by
  have hlt := Nat.lt_of_lt_of_le hi hf.le
  refine ⟨isBlock_addressOf.2 hlt, fun htag => ?_⟩
  have hmem := (hf.free.mem_iff i hlt).2 htag
  have hle := (List.mem_range'_1.1 hmem).1
  omega

theorem Filled.lt_of_inUse {h : Heap} {n i : Nat} (hf : Filled h n) (hin : h.InUse (addressOf i)) :
    i < n := by
  have hlt := isBlock_addressOf.1 hin.toIsBlock
  refine Nat.not_le.1 fun hle => hin.tag_ne ((hf.free.mem_iff i hlt).1 ?_)
  exact List.mem_range'_1.2 ⟨hle, by omega⟩

namespace Building

variable {h : Heap} {n slot : Nat}

theorem inUse_frame (hb : Building h n slot) : h.InUse globalFrame :=
  hb.building _ (by rw [hb.held]; exact List.mem_singleton.2 rfl)

/-- All nodes so far are live. -/
theorem live (hb : Building h n slot) {a : Nat} (ha : h.InUse a) : h.Live [] a := by
  obtain ⟨i, hi, rfl⟩ := ha.toIsBlock.exists_index
  have hlt := hb.filled.lt_of_inUse ha
  have hframe : h.Live [] globalFrame := .building (by rw [hb.held]; exact List.mem_singleton.2 rfl)
  rcases Nat.lt_trichotomy i 5 with hconst | rfl | hbuiltin
  · refine .permanent hb.toIntact (addressOf_mod i) ?_
    rw [hb.low]
    exact Nat.mul_lt_mul_of_pos_left hconst (by decide)
  · exact hframe
  · obtain ⟨j, rfl⟩ : ∃ j, i = 6 + j := ⟨i - 6, by omega⟩
    have hj : j < slot := by omega
    have hle := hb.le
    have hin : h.InUse globalFrame := hb.inUse_frame
    have hsize : h.size globalFrame = n + 1 := by
      rw [size, hb.frame.header]
      exact toNat_size hb.fits .frame
    have hword : h.word globalFrame (j + 1) = addressOf (6 + j) := by
      rw [hb.frame.word j _ (getElem?_builtinSlots (by omega)), if_pos hj]
      rfl
    have hrange := childRange_frame hb.frame.tag
    have hmem := mem_children_of_inUse hb.toIntact (hb.typed _ hin) hin.toIsBlock (i := j + 1)
      (by rw [hrange]; exact Nat.le_add_left ..) (by rw [hrange, hsize]; omega)
      (by rw [hword]; exact ha)
    rw [hword] at hmem
    exact .child hframe hmem

/-- The next builtin is made and put into the frame. -/
theorem push (hb : Building h n slot) (hslot : slot < n) {k : Heap}
    (f : Fresh h k [] (builtinNode slot) .builtin 1) (hf : Filled k (6 + slot + 1)) :
    Building ((k.setPayload (builtinNode slot) (.ofNat slot)).setWord globalFrame (slot + 1)
      (builtinNode slot)) n (slot + 1) := by
  have hholds : Writes k (k.setPayload (builtinNode slot) (.ofNat slot)) (builtinNode slot) ∧
      Holds (k.setPayload (builtinNode slot) (.ofNat slot)) (builtinNode slot)
        { k.header (builtinNode slot) with payload := .ofNat slot } [] :=
    holds_setPayload_setWords f.isBlock _ [] (by decide)
  rw [f.header] at hholds
  have made := f.made (by decide) (by decide) hholds.1 hholds.2 rfl
    (contents_plain rfl (Nat.le_add_left ..) rfl rfl Tag.noConfusion)
  have htag : (k.setPayload (builtinNode slot) (.ofNat slot)).tag (builtinNode slot) = .builtin :=
    hholds.2.tag
  generalize k.setPayload (builtinNode slot) (.ofNat slot) = l at hholds made htag ⊢
  have hnew : k.InUse (builtinNode slot) := (f.soundBut (by decide)).inUse
  have hfl : Filled l (6 + slot + 1) := hf.writes hnew hholds.1 (htag.trans f.tag_self.symm)
  -- What was in use is kept in `l`.
  have hsame : ∀ b, h.InUse b → SameNode h l b := fun b hin => made.node b (hb.live hin)
  have hframe := hb.inUse_frame
  have hframe' : Holds l globalFrame (.fresh .frame (n + 1)) (builtinSlots n slot) := by
    refine hb.frame.of_same ?_ (hsame _ hframe)
    rw [length_builtinSlots]
    exact hb.fits
  have hinl : l.InUse globalFrame := made.toKeeps.inUse (hb.live hframe) hframe
  have hsize : l.size globalFrame = n + 1 := by
    rw [size, hframe'.header]
    exact toNat_size hb.fits .frame
  have u := made.sound.setVariable hinl hframe'.tag (i := slot + 1) (Nat.le_add_left ..)
    (by omega) made.toInUse (by rw [htag]; rfl)
  have hlt : slot + 1 < nodeSize := by
    have := hb.fits
    omega
  have hne : ∀ i, builtinNode i ≠ globalFrame := by
    intro i heq
    have := addressOf_inj heq
    omega
  refine ⟨u.sound, hfl.writes hinl u.toWrites u.kind, ?_, ?_, ?_, ?_,
    ?_, hslot, hb.fits⟩
  · exact (u.toWrites.bottom.trans made.bottom).trans hb.low
  · exact (u.toWrites.building.trans made.toGrows.building).trans hb.held
  · refine ⟨?_, fun i w hw => ?_⟩
    · rw [header_setWord hinl.toIsBlock hinl.toIsBlock (Nat.le_add_left ..) hlt]
      exact hframe'.header
    · have hi := (List.getElem?_eq_some_iff.1 hw).1
      rw [builtinSlots, List.length_map, List.length_range] at hi
      have hfits := hb.fits
      rw [getElem?_builtinSlots hi] at hw
      rw [word_setWord_block hinl.toIsBlock hinl.toIsBlock hlt (by omega)]
      rcases Nat.lt_trichotomy i slot with hlow | heq | hhigh
      · rw [if_neg (by omega), hframe'.word i _ (getElem?_builtinSlots hi), if_pos hlow]
        rw [if_pos (by omega)] at hw
        exact Option.some.inj hw
      · rw [if_pos ⟨rfl, by omega⟩]
        rw [if_pos (by omega), heq] at hw
        exact Option.some.inj hw
      · rw [if_neg (by omega), hframe'.word i _ (getElem?_builtinSlots hi), if_neg (by omega)]
        rw [if_neg (by omega)] at hw
        exact Option.some.inj hw
  · intro i t ht
    have hi : i < 5 := (List.getElem?_eq_some_iff.1 ht).1
    have hin : l.InUse (addressOf i) := hfl.inUse (by omega)
    have hold : h.InUse (addressOf i) := hb.filled.inUse (by omega)
    have hne5 : addressOf i ≠ globalFrame := fun heq => absurd (addressOf_inj heq) (by omega)
    rw [(u.toWrites.same hin.toIsBlock hne5).header, (hsame _ hold).header]
    exact hb.plain i t ht
  · intro i hi
    have hin : l.InUse (builtinNode i) := hfl.inUse (by omega)
    rw [(u.toWrites.same hin.toIsBlock (hne i)).header]
    rcases Nat.lt_or_eq_of_le (Nat.le_of_lt_succ hi) with hlow | rfl
    · have hold : h.InUse (builtinNode i) := hb.filled.inUse (by omega)
      rw [(hsame _ hold).header]
      exact hb.builtin i hlow
    · exact hholds.2.header

end Building

/-- All builtins are made, or there is no room for them. -/
theorem newBuiltins_ensures (rest : List BuiltinEntry) :
    ∀ {h : Heap} {n slot : Nat}, Building h n slot → slot + rest.length = n →
      Ensures (newBuiltins globalFrame rest slot) h
        (fun _ k => Building k n n ∧ k.nodeCount = h.nodeCount ∧ 6 + n ≤ h.nodeCount)
        (fun e _ => e = .heapExhausted ∧ h.nodeCount < 6 + n) := by
  induction rest with
  | nil =>
    intro h n slot hb hlen
    obtain rfl : slot = n := hlen
    exact .pure ⟨hb, rfl, hb.filled.le⟩
  | cons entry rest ih =>
    intro h n slot hb hlen
    rw [List.length_cons] at hlen
    refine .bind ((hb.toSound.allocate_next hb.filled (inUse_noRoots _)
      (fun a ha => hb.live ha) (by decide) (Nat.le_refl 1) (by decide)).mono ?_ ?_)
    · rintro a k ⟨hn, rfl, f, hf, keeps⟩
      refine .bind (.modifyGet ?_)
      have hcount : ((k.setPayload (builtinNode slot) (.ofNat slot)).setWord globalFrame (slot + 1)
          (builtinNode slot)).nodeCount = h.nodeCount := by
        rw [nodeCount, size_words_setWord, setPayload, setHeader, size_words_setWord,
          ← nodeCount, keeps.nodeCount]
      refine (ih (hb.push (by omega) f hf) (by omega)).mono ?_ ?_
      · rintro _ l ⟨hl, hcount', hle⟩
        exact ⟨hl, hcount'.trans hcount, hcount ▸ hle⟩
      · rintro e l ⟨he, hlt⟩
        exact ⟨he, hcount ▸ hlt⟩
    · rintro e k ⟨he, hle⟩
      exact ⟨he, by omega⟩

/-! ## The global environment -/

/-- The heap of a machine with `n` builtins before the first instruction. -/
structure Global (h : Heap) (n : Nat) : Prop extends Sound h where
  /-- The nodes so far. -/
  filled : Filled h (7 + n)
  /-- All of them are permanent. -/
  low : h.bottom = addressOf (7 + n)
  /-- Nothing is being built. -/
  held : h.building = []
  /-- The frame of the builtins. -/
  frame : Holds h globalFrame (.fresh .frame (n + 1)) (builtinSlots n n)
  /-- The nodes of the constants. -/
  plain : ∀ i t, constants[i]? = some t → h.header (addressOf i) = .fresh t 1
  /-- The builtins. -/
  builtin : ∀ i, i < n → h.header (builtinNode i) = builtinHeader i
  /-- The global environment. -/
  environment : Holds h (globalEnvironment n) (.fresh .environment 2) [globalFrame]
  /-- The builtins fit the frame. -/
  fits : n + 1 ≤ nodeSize

theorem Global.alike {h k : Heap} {n : Nat} (hg : Global h n) (alike : Alike h k)
    (hbuilding : k.building = h.building) : Global k n where
  toSound := hg.toSound.alike alike fun a ha => hg.building a (hbuilding ▸ ha)
  filled := hg.filled.congr alike.toSameArena
  low := alike.bottom.trans hg.low
  held := hbuilding.trans hg.held
  frame := hg.frame.of_same (by rw [length_builtinSlots]; exact hg.fits) (alike.same _)
  plain := fun i t ht => (alike.header _).trans (hg.plain i t ht)
  builtin := fun i hi => (alike.header _).trans (hg.builtin i hi)
  environment := hg.environment.of_same (by decide) (alike.same _)
  fits := hg.fits

/-- The nodes before the first instruction are constants, a frame, builtins and an environment. -/
theorem Global.cases {h : Heap} {n : Nat} (hg : Global h n) {a : Address} (ha : h.InUse a) :
    h.tag a ∈ constants ∨ h.tag a = .frame ∨ h.tag a = .environment ∨
      ∃ slot, slot < n ∧ h.header a = builtinHeader slot := by
  obtain ⟨i, -, rfl⟩ := ha.toIsBlock.exists_index
  have hlt := hg.filled.lt_of_inUse ha
  rcases Nat.lt_trichotomy i 5 with hconst | rfl | hi
  · have hsome := List.getElem?_eq_getElem (l := constants) (i := i) hconst
    refine .inl ?_
    rw [Heap.tag, hg.plain i _ hsome]
    exact List.getElem_mem hconst
  · exact .inr (.inl hg.frame.tag)
  · obtain ⟨j, rfl⟩ : ∃ j, i = 6 + j := ⟨i - 6, by omega⟩
    rcases Nat.lt_or_eq_of_le (by omega : j ≤ n) with hj | rfl
    · exact .inr (.inr (.inr ⟨j, hj, hg.builtin j hj⟩))
    · exact .inr (.inr (.inl hg.environment.tag))

/-- Making everything permanent that is in use leaves a sound heap. -/
theorem Sound.sealAll {h : Heap} (hs : h.Sound) {n : Nat} (hf : Filled h n)
    (hle : constants.length ≤ n) :
    h.sealAll.Sound ∧ Filled h.sealAll n ∧ h.sealAll.bottom = addressOf n := by
  have hbottom : h.sealAll.bottom = addressOf n := by
    change (if h.free = noNode then h.words.size else addressOf h.free.toNat) = addressOf n
    rcases Nat.lt_or_eq_of_le hf.le with hn | hn
    · obtain ⟨hfirst, hfree⟩ := hf.first hs.toIntact hn
      rw [if_neg hfree, hfirst]
    · rw [if_pos (hf.full (Nat.le_of_eq hn.symm)), hs.size, hn]
      rfl
  have hheader : ∀ a, h.sealAll.header a = h.header a := fun _ => rfl
  have hblock : ∀ a, h.sealAll.IsBlock a ↔ h.IsBlock a := fun _ =>
    IsBlock.congr (h := h) (k := h.sealAll) rfl
  have hinUse : ∀ a, h.sealAll.InUse a ↔ h.InUse a := fun _ =>
    InUse.congr (h := h) (k := h.sealAll) rfl rfl
  have hfilled : Filled h.sealAll n := by
    refine ⟨hf.le, ?_, hf.free.sorted, hf.free.mem_iff, hf.free.count⟩
    exact Chain.congr (h := h) (k := h.sealAll) rfl hf.free.chain fun _ _ => rfl
  have hintact : h.sealAll.Intact := by
    refine ⟨hs.size, hs.count, fun a ha => hs.mark a ((hblock a).1 ha), ?_, ?_, ?_, ?_,
      hs.constant, ⟨_, hfilled.free⟩⟩
    · rw [hbottom]
      exact addressOf_mod n
    · rw [hbottom]
      change addressOf n ≤ h.words.size
      rw [hs.size]
      exact Nat.mul_le_mul_left _ hf.le
    · intro a ha hlow
      rw [hbottom] at hlow
      obtain ⟨i, -, rfl⟩ := ((hblock a).1 ha).exists_index
      exact (hf.inUse (Nat.lt_of_mul_lt_mul_left hlow)).tag_ne
    · rw [hbottom]
      exact Nat.mul_le_mul_left _ hle
  refine ⟨⟨hintact, ?_, ?_, fun a ha => (hinUse a).2 (hs.building a ha)⟩, hfilled, hbottom⟩
  · exact ⟨fun a ha => hs.text a ((hblock a).1 ha), fun s a hsa =>
      ⟨(hblock a).2 (hs.node s a hsa).1, (hs.node s a hsa).2⟩, hs.next⟩
  · intro a ha
    exact (hs.typed a ((hinUse a).1 ha)).congr (.of_word fun _ _ => rfl) rfl fun _ _ _ _ => rfl

theorem builtinSlots_zero (n : Nat) : builtinSlots n 0 = .replicate n unassigned := by
  simp [builtinSlots, List.map_const']

/-- The nodes in use of a new heap are permanent. -/
theorem Initial.live {h : Heap} {count : Nat} (hh : Initial h count) {a : Nat} (ha : h.InUse a) :
    h.Live [] a := by
  obtain ⟨i, -, rfl⟩ := hh.isBlock_iff.1 ha.toIsBlock
  refine .permanent hh.intact (addressOf_mod i) ?_
  rw [hh.bottom]
  exact Nat.mul_lt_mul_of_pos_left (hh.filled.lt_of_inUse ha) (by decide)

/-- The frame of the builtins is made in a new heap. -/
theorem Initial.start {h k : Heap} {count n : Nat} (hh : Initial h count)
    (hfits : n + 1 ≤ nodeSize) (f : Fresh h k [] globalFrame .frame (n + 1)) (hf : Filled k 6) :
    Building (k.held globalFrame) n 0 := by
  have made := f.frame hh.sound hfits
  have alike := alike_withBuilding k (globalFrame :: k.building)
  have hheld : (k.held globalFrame).building = [globalFrame] := by
    change globalFrame :: k.building = _
    rw [f.building, hh.building]
  refine ⟨made.sound.held made.toInUse, hf.congr alike.toSameArena, f.bottom.trans hh.bottom,
    hheld, ?_, fun i t ht => ?_, fun i hi => absurd hi (Nat.not_lt_zero i), Nat.zero_le n, hfits⟩
  · rw [builtinSlots_zero]
    exact made.toHolds.of_same made.fits (alike.same _)
  · have hi := (List.getElem?_eq_some_iff.1 ht).1
    have hin : h.InUse (addressOf i) := hh.filled.inUse hi
    refine ((made.node _ (hh.live hin)).trans (alike.same _)).header.trans ?_
    rw [header_initial hh.words (Nat.lt_of_lt_of_le hi hh.room), initialHeader_of_some ht]

/-- The global environment is made last, and then everything becomes permanent. -/
theorem Building.global {h k : Heap} {n : Nat} (hb : Building h n n)
    (f : Fresh h k [] (globalEnvironment n) .environment 2) (hf : Filled k (6 + n + 1)) :
    Global (((k.setWord (globalEnvironment n) 1 globalFrame).withBuilding []).sealAll) n := by
  have w : Writes k (k.setWords (globalEnvironment n) 1 [globalFrame]) (globalEnvironment n) :=
    writes_setWords _ f.isBlock (by decide)
  have hholds : Holds (k.setWords (globalEnvironment n) 1 [globalFrame]) (globalEnvironment n)
      (k.header (globalEnvironment n)) [globalFrame] := holds_setWords f.isBlock (by decide)
  rw [f.header] at hholds
  have hcontents : Contents h [] (.fresh .environment ([globalFrame].length + 1)) [globalFrame] :=
    contents_environment (by decide) fun a ha => by
      rw [List.mem_singleton.1 ha]
      exact ⟨hb.live hb.inUse_frame, hb.frame.tag⟩
  have made := f.made (by decide) (by decide) w hholds rfl hcontents
  have hfl := hf.writes (f.soundBut (by decide)).inUse w
    (hholds.tag.trans f.tag_self.symm)
  change Global (((k.setWords (globalEnvironment n) 1 [globalFrame]).withBuilding []).sealAll) n
  generalize k.setWords (globalEnvironment n) 1 [globalFrame] = l at made hfl hholds
  have alike := alike_withBuilding l []
  have hsound : (l.withBuilding []).Sound := made.sound.alike alike fun _ h => nomatch h
  have hcount : 6 + n + 1 = 7 + n := by omega
  obtain ⟨hsealed, hfilled, hbottom⟩ := hsound.sealAll (hcount ▸ hfl.congr alike.toSameArena)
    (Nat.le_trans (by decide) (Nat.le_add_right 7 n))
  have hkeep : ∀ a, h.InUse a → SameNode h ((l.withBuilding []).sealAll) a :=
    fun a ha => ((made.node a (hb.live ha)).trans (alike.same a)).trans (.of_word fun _ _ => rfl)
  refine ⟨hsealed, hfilled, hbottom, rfl, ?_, fun i t ht => ?_, fun i hi => ?_, ?_, hb.fits⟩
  · refine hb.frame.of_same ?_ (hkeep _ hb.inUse_frame)
    rw [length_builtinSlots]
    exact hb.fits
  · have hi : i < 5 := (List.getElem?_eq_some_iff.1 ht).1
    have hin : h.InUse (addressOf i) := hb.filled.inUse (by omega)
    rw [(hkeep _ hin).header]
    exact hb.plain i t ht
  · have hin : h.InUse (builtinNode i) := hb.filled.inUse (by omega)
    rw [(hkeep _ hin).header]
    exact hb.builtin i hi
  · exact (hholds.of_same (by decide) (alike.same _)).of_same (by decide) (.of_word fun _ _ => rfl)

/-- The global environment is made, or there is no room for it. -/
theorem newGlobal_ensures {h : Heap} {count : Nat} (hh : Initial h count)
    (builtins : List BuiltinEntry) (hfits : builtins.length + 1 ≤ nodeSize) :
    Ensures (newGlobal builtins) h
      (fun a k => a = globalEnvironment builtins.length ∧ Global k builtins.length ∧
        k.nodeCount = count ∧ 7 + builtins.length ≤ count)
      (fun e _ => e = .heapExhausted ∧ count < 7 + builtins.length) := by
  refine .bind ((hh.sound.allocate_next hh.filled (inUse_noRoots _)
    (fun _ ha => hh.live ha) (by decide) (Nat.le_add_left ..) hfits).mono ?_ ?_)
  · rintro _ k ⟨-, rfl, f, hf, -⟩
    have hb := hh.start hfits f hf
    have hcount : (k.held globalFrame).nodeCount = count := by
      rw [held, (alike_withBuilding k _).nodeCount, f.toKeeps.nodeCount, hh.nodeCount]
    refine .bind (holding_ensures (.bind ((newBuiltins_ensures builtins hb (Nat.zero_add _)).mono
      ?_ ?_)))
    · rintro _ l ⟨hl, hlcount, -⟩
      refine .bind ((hl.toSound.allocate_next hl.filled (inUse_noRoots _)
        (fun _ ha => hl.live ha) (by decide) (by decide) (by decide)).mono ?_ ?_)
      · rintro _ g ⟨hn, rfl, f', hf', -⟩
        refine .bind (.modifyGet (.pure (.bind (.modifyGet (.pure ⟨rfl, ?_, ?_, ?_⟩)))))
        · have hnone : k.building = [] := f.building.trans hh.building
          rw [hnone]
          exact hl.global f' hf'
        · change (g.setWord _ 1 _).words.size / nodeSize = count
          rw [size_words_setWord, ← nodeCount, f'.toKeeps.nodeCount, hlcount, hcount]
        · rw [hlcount, hcount] at hn
          omega
      · rintro e g ⟨he, hlt⟩
        rw [hlcount, hcount] at hlt
        exact ⟨he, by omega⟩
    · rintro e l ⟨he, hlt⟩
      rw [hcount] at hlt
      exact ⟨he, by omega⟩
  · rintro e k ⟨he, hlt⟩
    rw [hh.nodeCount] at hlt
    have hlen : constants.length = 5 := rfl
    exact ⟨he, by omega⟩

end Heap

/-! ## The machine -/

theorem Registers.sound_start {h : Heap} {n : Nat} (hg : Heap.Global h n) :
    (Registers.start (Heap.globalEnvironment n)).Sound h where
  stack := fun _ h => nomatch h
  inUse := hg.filled.inUse (Nat.add_lt_add_right (by decide) n)
  tag := hg.environment.tag
  frames := fun _ h => nomatch h

namespace Machine

/-- What a machine looks like before the first instruction. -/
structure Initial (m : Machine) (config : Config) (builtins : List BuiltinEntry) : Prop where
  /-- The heap. -/
  heap : Heap.Global m.heap builtins.length
  /-- The size of the arena. -/
  count : m.heap.nodeCount = min (config.heapWords / nodeSize) noNode.toNat
  /-- The rest. -/
  eq : m = {
    heap := m.heap, registers := .start (Heap.globalEnvironment builtins.length),
    current := mainThread, threads := ∅, nextThread := mainThread + 1, channels := {}, groups := {},
    runnable := [], builtins, output := "", typedChannels := config.typedChannels,
    tracing := config.tracing, journal := m.journal }

theorem Initial.sound {m : Machine} {config : Config} {builtins : List BuiltinEntry}
    (hm : Initial m config builtins) : m.Sound where
  heap := hm.heap.toSound
  building := hm.heap.held
  registers := by
    rw [hm.eq]
    exact Registers.sound_start hm.heap
  threads := by
    intro t r hr
    rw [hm.eq] at hr
    simp at hr

/-- A machine is built if and only if there is room for its nodes. -/
theorem create_spec (config : Config) (builtins : List BuiltinEntry)
    (hfits : builtins.length + 1 ≤ nodeSize) :
    match create config builtins with
    | .ok m => Initial m config builtins ∧
        7 + builtins.length ≤ min (config.heapWords / nodeSize) noNode.toNat
    | .error failure => failure.fault = .heapExhausted ∧
        min (config.heapWords / nodeSize) noNode.toNat < 7 + builtins.length := by
  unfold create
  cases hcreate : Heap.create config.heapWords with
  | error fault =>
    unfold Heap.create at hcreate
    dsimp only at hcreate
    split at hcreate
    next hlt =>
      obtain rfl := Except.error.inj hcreate
      have hlen : Heap.constants.length = 5 := rfl
      exact ⟨rfl, by omega⟩
    next => cases hcreate
  | ok h =>
    have hh := Heap.initial_of_create hcreate
    have hh' : Heap.Initial { h with tracing := config.tracing }
        (min (config.heapWords / nodeSize) noNode.toNat) :=
      ⟨hh.words, hh.room, hh.limit, hh.free, hh.freeCount, hh.bottom, hh.strings, hh.texts,
        hh.building⟩
    have hglobal := Heap.newGlobal_ensures hh' builtins hfits
    dsimp only
    cases hnew : Heap.newGlobal builtins { h with tracing := config.tracing } with
    | error fault k =>
      rw [Ensures, hnew] at hglobal
      exact hglobal
    | ok global k =>
      rw [Ensures, hnew] at hglobal
      obtain ⟨rfl, hk, hcount, hle⟩ := hglobal
      exact ⟨⟨hk.alike ⟨⟨rfl, rfl, rfl, rfl⟩, rfl, rfl, rfl⟩ rfl, hcount, rfl⟩, hle⟩

/-- A heap of fourteen nodes is enough for the builtins that the compiler counts on. -/
theorem exists_create (config : Config)
    (hroom : 14 ≤ min (config.heapWords / nodeSize) noNode.toNat) :
    ∃ m, create config standardBuiltins = .ok m := by
  have hspec := create_spec config standardBuiltins (by decide)
  cases hcreate : create config standardBuiltins with
  | ok m => exact ⟨m, rfl⟩
  | error failure =>
    rw [hcreate] at hspec
    exact absurd hspec.2 (Nat.not_lt.2 hroom)

end Machine

end ChannelMachine

import ChannelMachine.Proofs.Heap.Operating

/-!
# Allocations

`Handles h k` are the operations on a heap that are given nodes in use, and `Handled h` are the heaps that
any of them lead to from a new one.  Nodes in use have children in use there (`Closed`), so no free node
can be reached, and this says when an allocation finds a node and which one (`Handled.allocates`).

The roots of an operation need not be everything that is still wanted, but an environment and a frame
that `extend` is given have to outlive its collection.
-/

namespace ChannelMachine.Heap

variable {h k : Heap} {a : Address} {roots : Roots}

/-! ## Nodes whose children are in use -/

/-- The children of nodes in use are in use. -/
structure Closed (h : Heap) : Prop where
  /-- The children of a node are inside of its block. -/
  range : ∀ a, h.IsBlock a → (h.header a).childRange.2 ≤ nodeSize
  /-- They are in use, if it is. -/
  child : ∀ a, h.InUse a → ∀ c ∈ children h.words a, h.InUse c
  /-- What is being built is in use. -/
  building : ∀ a ∈ h.building, h.InUse a

/-- The same node has the same children. -/
theorem SameNode.mem_children (same : SameNode h k a) (hsize : k.words.size = h.words.size)
    (hrange : (h.header a).childRange.2 ≤ nodeSize) {c : Nat} :
    c ∈ children k.words a ↔ c ∈ children h.words a := by
  have hheader : Header.unpack (k.words.getD a 0) = Header.unpack (h.words.getD a 0) := same.header
  rw [Heap.mem_children, Heap.mem_children, hheader, hsize]
  refine and_congr_right fun _ => exists_congr fun i => and_congr_right fun hle =>
    and_congr_right fun hlt => and_congr_right fun _ => ?_
  have hpos := Header.one_le_childRange_fst (Nat.lt_of_le_of_lt hle hlt)
  have hword : k.words.getD (a + i) 0 = h.words.getD (a + i) 0 :=
    same.word i (Nat.le_trans hpos hle) (Nat.lt_of_lt_of_le hlt hrange)
  rw [hword]

namespace Closed

/-- What can be reached is in use. -/
theorem inUse_of_live (hc : h.Closed) (hf : h.Formed) {roots : List Address}
    (hroots : ∀ a ∈ roots, h.InUse a) (ha : h.Live roots a) : h.InUse a := by
  induction ha with
  | pending hb =>
    simp only [List.mem_append, List.mem_reverse] at hb
    rcases hb with (hb | hb) | hb
    · obtain ⟨hblock, -, hfree⟩ := hf.mem_permanentRoots.1 hb
      exact ⟨hblock, hfree⟩
    · exact hc.building _ hb
    · exact hroots _ hb
  | child _ hchild ih => exact hc.child _ ih _ hchild

/-- Only the words and the nodes being built count. -/
theorem congr (hc : h.Closed) (hwords : k.words = h.words) (hbuilding : ∀ b ∈ k.building, h.InUse b) :
    k.Closed := by
  have hheader : ∀ b, k.header b = h.header b := fun b => by rw [header, word, hwords]; rfl
  have hsize : k.words.size = h.words.size := congrArg Array.size hwords
  have hin : ∀ b, k.InUse b ↔ h.InUse b := fun b =>
    InUse.congr hsize (congrArg Header.tag (hheader b))
  refine ⟨fun b hb => ?_, fun b hb c hmem => ?_, fun b hb => (hin b).2 (hbuilding b hb)⟩
  · rw [hheader]
    exact hc.range b ((IsBlock.congr hsize).1 hb)
  · rw [hwords] at hmem
    exact (hin c).2 (hc.child b ((hin b).1 hb) c hmem)

/-- A node other than `a` is as it was, and `a` does not become free. -/
theorem rewrite (hc : h.Closed) (hsize : k.words.size = h.words.size)
    (hbuilding : k.building = h.building)
    (same : ∀ b, h.IsBlock b → b ≠ a → SameNode h k b) (hfree : h.tag a ≠ .free → k.tag a ≠ .free)
    (hrange : (k.header a).childRange.2 ≤ nodeSize)
    (hchild : ∀ c ∈ children k.words a, k.InUse c) : k.Closed := by
  have hin : ∀ b, h.InUse b → k.InUse b := by
    intro b hb
    refine ⟨(IsBlock.congr hsize).2 hb.toIsBlock, ?_⟩
    by_cases hne : b = a
    · exact hne ▸ hfree (hne ▸ hb.tag_ne)
    · rw [(same b hb.toIsBlock hne).tag]
      exact hb.tag_ne
  refine ⟨fun b hb => ?_, fun b hb c hmem => ?_, fun b hb => hin b (hc.building b (hbuilding ▸ hb))⟩
  all_goals by_cases hne : b = a
  · exact hne ▸ hrange
  · rw [(same b ((IsBlock.congr hsize).1 hb) hne).header]
    exact hc.range b ((IsBlock.congr hsize).1 hb)
  · exact hchild c (hne ▸ hmem)
  · have hblock := (IsBlock.congr hsize).1 hb.toIsBlock
    have hsame := same b hblock hne
    refine hin c (hc.child b ⟨hblock, hsame.tag ▸ hb.tag_ne⟩ c ?_)
    exact (hsame.mem_children hsize (hc.range b hblock)).1 hmem

/-- A word of a node in use is replaced by a node in use, if it is a child. -/
theorem setWord (hc : h.Closed) (ha : h.InUse a) {i w : Nat} (hpos : 1 ≤ i) (hlt : i < nodeSize)
    (hw : (h.header a).childRange.1 ≤ i → i < (h.header a).childRange.2 → w = vacant ∨ h.InUse w) :
    (h.setWord a i w).Closed := by
  have hwrites := writes_setWord ha.toIsBlock hlt w
  have hheader := header_setWord ha.toIsBlock ha.toIsBlock hpos hlt w
  have hin : ∀ b, h.InUse b → (h.setWord a i w).InUse b := fun b hb =>
    (InUse.congr hwrites.size (congrArg Header.tag
      (header_setWord ha.toIsBlock hb.toIsBlock hpos hlt w))).2 hb
  refine hc.rewrite hwrites.size hwrites.building (fun b hb hne => hwrites.same hb hne)
    (fun _ => (hin a ha).tag_ne) ?_ fun c hmem => hin c ?_
  · rw [hheader]
    exact hc.range a ha.toIsBlock
  · obtain ⟨hvacant, j, hle, hj, hinside, hword⟩ := mem_children.1 hmem
    change ((h.setWord a i w).header a).childRange.1 ≤ j at hle
    change j < ((h.setWord a i w).header a).childRange.2 at hj
    rw [hheader] at hle hj
    change (h.setWord a i w).word a j = c at hword
    rw [word_setWord_block ha.toIsBlock ha.toIsBlock hlt
      (Nat.lt_of_lt_of_le hj (hc.range a ha.toIsBlock))] at hword
    by_cases hij : j = i
    · rw [if_pos ⟨rfl, hij⟩] at hword
      subst hij hword
      exact (hw hle hj).resolve_left hvacant
    · rw [if_neg fun h => hij h.2] at hword
      refine hc.child a ha c (mem_children.2 ⟨hvacant, j, hle, hj, ?_, hword⟩)
      exact hwrites.size ▸ hinside

/-- A node in use takes any payload. -/
theorem setPayload (hc : h.Closed) (ha : h.InUse a) (payload : UInt32) : (h.setPayload a payload).Closed := by
  have hwrites := writes_setPayload ha.toIsBlock payload
  have hheader := header_setPayload ha.toIsBlock payload
  have hrange := hc.range a ha.toIsBlock
  have htag : (h.setPayload a payload).tag a ≠ .free := by
    rw [Heap.tag, hheader]
    exact ha.tag_ne
  refine hc.rewrite hwrites.size hwrites.building (fun b hb hne => hwrites.same hb hne) (fun _ => htag)
    (by rw [hheader]; exact hrange) fun c hmem => ?_
  obtain ⟨hvacant, j, hle, hj, hinside, hword⟩ := mem_children.1 hmem
  change ((h.setPayload a payload).header a).childRange.1 ≤ j at hle
  change j < ((h.setPayload a payload).header a).childRange.2 at hj
  rw [hheader] at hle hj
  change (h.setPayload a payload).word a j = c at hword
  have hpos := Header.one_le_childRange_fst (Nat.lt_of_le_of_lt hle hj)
  rw [Heap.setPayload, word_setHeader ha.toIsBlock ha.toIsBlock (Nat.le_trans hpos hle)
    (Nat.lt_of_lt_of_le hj hrange)] at hword
  have hin : h.InUse c :=
    hc.child a ha c (mem_children.2 ⟨hvacant, j, hle, hj, hwrites.size ▸ hinside, hword⟩)
  refine ⟨hwrites.isBlock.2 hin.toIsBlock, ?_⟩
  by_cases hne : c = a
  · exact hne ▸ htag
  · rw [(hwrites.same hin.toIsBlock hne).tag]
    exact hin.tag_ne

/-- Words of a node in use are replaced, where the children are nodes in use or vacant. -/
theorem setWords (hc : h.Closed) (ha : h.InUse a) {i : Nat} {ws : List Nat} (hpos : 1 ≤ i)
    (hle : i + ws.length ≤ nodeSize)
    (hws : ∀ j w, ws[j]? = some w → (h.header a).childRange.1 ≤ i + j → w = vacant ∨ h.InUse w) :
    (h.setWords a i ws).Closed := by
  induction ws generalizing h i with
  | nil => exact hc
  | cons w rest ih =>
    rw [List.length_cons] at hle
    have hlt : i < nodeSize := by omega
    have hheader : ∀ {b}, h.IsBlock b → (h.setWord a i w).header b = h.header b := fun hb =>
      header_setWord ha.toIsBlock hb hpos hlt w
    have hin : ∀ b, h.InUse b → (h.setWord a i w).InUse b := fun b hb =>
      (InUse.congr (size_words_setWord h a i w) (congrArg Header.tag (hheader hb.toIsBlock))).2 hb
    refine ih (hc.setWord ha hpos hlt fun hfst _ => hws 0 w rfl hfst) (hin a ha)
      (Nat.le_succ_of_le hpos) (by omega) fun j v hv hfst => ?_
    rw [hheader ha.toIsBlock] at hfst
    exact (hws (j + 1) v hv (by omega)).imp_right (hin v)

/-- Nodes in use are copied from another node. -/
theorem copyWords (hc : h.Closed) (ha : h.InUse a) {source : Address} (hsource : h.IsBlock source)
    (hne : source ≠ a) {i n : Nat} (hpos : 1 ≤ i) (hle : i + n ≤ nodeSize)
    (hwords : ∀ j, i ≤ j → j < i + n → h.InUse (h.word source j)) :
    (h.copyWords source a i n).Closed ∧ ∀ b, h.InUse b → (h.copyWords source a i n).InUse b := by
  induction n generalizing h i with
  | zero => exact ⟨hc, fun _ hb => hb⟩
  | succ n ih =>
    have hlt : i < nodeSize := by omega
    have hin : ∀ b, h.InUse b → (h.setWord a i (h.word source i)).InUse b := fun b hb =>
      (InUse.congr (size_words_setWord h a i _) (congrArg Header.tag
        (header_setWord ha.toIsBlock hb.toIsBlock hpos hlt _))).2 hb
    have hword := hwords i (Nat.le_refl i) (by omega)
    obtain ⟨hclosed, hrest⟩ := ih (hc.setWord ha hpos hlt fun _ _ => .inr hword) (hin a ha)
      ((writes_setWord ha.toIsBlock hlt _).isBlock.2 hsource) (Nat.le_succ_of_le hpos) (by omega)
      fun j hij hj => by
        rw [word_setWord_block ha.toIsBlock hsource hlt (by omega), if_neg fun h => hne h.1]
        exact hin _ (hwords j (by omega) (by omega))
    exact ⟨hclosed, fun b hb => hrest b (hin b hb)⟩

/-- A collection leaves a closed heap. -/
theorem collect (hc : h.Closed) (hf : h.Formed) {roots : List Address} (hroots : ∀ a ∈ roots, h.InUse a) :
    (h.collect roots).Closed := by
  obtain ⟨k, l, reports, s, heq⟩ := hf.exists_swept fun a ha => (hroots a ha).toIsBlock
  have hblock : ∀ {b : Nat}, k.IsBlock b ↔ h.IsBlock b := IsBlock.congr s.size
  have hin : ∀ {b : Nat}, h.Live roots b → k.InUse b := by
    intro b hb
    have hused := hc.inUse_of_live hf hroots hb
    refine ⟨hblock.2 hused.toIsBlock, ?_⟩
    rw [(s.same hf.toWhole hused.toIsBlock (.inl hb)).tag]
    exact hused.tag_ne
  have hk : k.Closed := by
    refine ⟨fun b hb => ?_, fun b hb c hmem => ?_, fun b hb => hin (.building (s.building ▸ hb))⟩
    · by_cases hfree : k.tag b = .free
      · rw [childRange_of_tag hfree]
        exact Nat.zero_le _
      · rw [(s.same hf.toWhole (hblock.1 hb) (.inl (hf.live_of_swept s (hblock.1 hb) hfree))).header]
        exact hc.range b (hblock.1 hb)
    · have hb' := hblock.1 hb.toIsBlock
      have hlive := hf.live_of_swept s hb' hb.tag_ne
      have same := s.same hf.toWhole hb' (.inl hlive)
      exact hin (.child hlive ((same.mem_children s.size (hc.range b hb')).1 hmem))
  rw [heq]
  exact hk.congr rfl hk.building

theorem refill (hc : h.Closed) (hf : h.Formed) (hroots : ∀ a ∈ roots.get, h.InUse a) :
    (h.refill roots).Closed := by
  unfold Heap.refill
  split
  · exact hc.collect hf hroots
  · exact hc

/-- A node that was free is taken into use. -/
theorem renewed (hc : h.Closed) {t : Tag} {n : Nat} (r : Renewed h k a t n) (hle : n ≤ nodeSize)
    (hchildren : (Header.fresh t n).childRange.2 ≤ n) : k.Closed := by
  refine hc.rewrite r.arena r.keeps r.same (fun hfree => absurd r.wasFree hfree) ?_ fun c hmem => ?_
  · rw [r.header]
    exact Nat.le_trans hchildren hle
  · obtain ⟨-, j, hfst, hj, -, hword⟩ := mem_children.1 hmem
    change (k.header a).childRange.1 ≤ j at hfst
    change j < (k.header a).childRange.2 at hj
    change k.word a j = c at hword
    rw [r.header] at hfst hj
    have hpos := Header.one_le_childRange_fst (Nat.lt_of_le_of_lt hfst hj)
    rw [r.filled j (Nat.le_trans hpos hfst) (Nat.lt_of_lt_of_le hj hchildren)] at hword
    subst hword
    exact .of_tag r.isBlock_unassigned r.unassigned (by decide)

end Closed

/-! ## Operations -/

/-- What can be reached and is in use stays in use. -/
theorem Allocated.inUse {roots : List Address} {t : Tag} {n b : Nat} (al : Allocated h k roots a t n)
    (hlive : h.Live roots b) (hb : h.InUse b) : k.InUse b := by
  refine ⟨(IsBlock.congr al.arena).2 hb.toIsBlock, ?_⟩
  rw [(al.tag b hlive hb.tag_ne).2]
  exact hb.tag_ne

theorem Allocated.inUse_self {roots : List Address} {t : Tag} {n : Nat} (al : Allocated h k roots a t n)
    (ht : t ≠ .free) : k.InUse a := .of_tag al.isBlock al.tag_self ht

/-- The frames of an environment are its children. -/
theorem Formed.child_environment (hf : h.Formed) {environment : Address} (henvironment : h.IsBlock environment)
    (htag : h.tag environment = .environment) {j : Nat} (hpos : 1 ≤ j) (hlt : j < h.size environment) :
    h.word environment j ∈ children h.words environment := by
  have hrange := childRange_environment htag
  have hle := (hf.nodeFormed henvironment).range
  rw [hrange] at hle
  have hinside := henvironment.inside
  refine mem_children.2 ⟨hf.ne_vacant (hf.isBlock_of_environment henvironment htag hpos hlt), j, ?_, ?_,
    by omega, rfl⟩
  · exact Nat.le_trans (Nat.le_of_eq (congrArg Prod.fst hrange)) hpos
  · exact Nat.lt_of_lt_of_eq hlt (congrArg Prod.snd hrange).symm

namespace Closed

section Actions

variable (hc : h.Closed) (hf : h.Formed) (hroots : ∀ a ∈ roots.get, h.InUse a)
include hc hf hroots

theorem ensures_allocate (t : Tag) {n : Nat} (hchildren : (Header.fresh t n).childRange.2 ≤ n) :
    Ensures (allocate t n roots) h (fun a k => Allocated h k roots.get a t n ∧ k.Closed)
      (fun _ k => k.Closed ∧ k.building = h.building) := by
  have hblocks : ∀ a ∈ roots.get, h.IsBlock a := fun a ha => (hroots a ha).toIsBlock
  have hclosed : Ensures (allocate t n roots) h (fun _ k => k.Closed)
      (fun _ k => k.Closed ∧ k.building = h.building) := by
    have r := hf.stays_refill hblocks
    unfold Ensures allocate
    by_cases hn : n = 0 ∨ nodeSize < n
    · rw [if_pos hn]
      exact ⟨hc, rfl⟩
    · rw [if_neg hn]
      by_cases hfree : (h.refill roots).free = noNode
      · simp only [if_pos hfree]
        exact ⟨hc.refill hf hroots, r.building⟩
      · simp only [if_neg hfree]
        exact (hc.refill hf hroots).renewed (r.formed.renewed hfree t (by omega) (by omega)) (by omega)
          hchildren
  exact ((hf.ensures_allocate hblocks t n).and hclosed).mono (fun _ _ => id) fun _ _ => And.right

theorem ensures_newNumber (x : Number) : Ensures (newNumber x roots) h
    (fun a k => k.Closed ∧ k.InUse a ∧ ∀ b, h.Live roots.get b → h.InUse b → k.InUse b)
    (fun _ k => k.Closed) := by
  refine .bind ((hc.ensures_allocate hf hroots .number (n := 2) (by decide)).mono ?_ fun _ _ => And.left)
  rintro a k ⟨al, hk⟩
  have ha := al.inUse_self (by decide)
  have hin : ∀ b, k.InUse b → (k.setNumber a x).InUse b := fun b hb =>
    (InUse.congr (size_words_setWord k a 1 _) (congrArg Header.tag
      (header_setWord ha.toIsBlock hb.toIsBlock (Nat.le_refl 1) (by decide) _))).2 hb
  have hrange : (k.header a).childRange = (0, 0) := childRange_of_tag al.tag_self
  refine .bind (.modifyGet (.pure ⟨hk.setWord ha (Nat.le_refl 1) (by decide) fun _ hlt => ?_,
    hin a ha, fun b hlive hb => hin b (al.inUse hlive hb)⟩))
  rw [hrange] at hlt
  cases hlt

theorem ensures_newString (text : String) :
    Ensures (newString text roots) h (fun _ k => k.Closed) (fun _ k => k.Closed) := by
  refine .bind (.get ?_)
  split
  next => exact .pure hc
  next =>
    refine .bind ((hc.ensures_allocate hf hroots .string (n := 2) (by decide)).mono ?_ fun _ _ => And.left)
    rintro a k ⟨al, hk⟩
    have ha := al.inUse_self (by decide)
    have hrange : (k.header a).childRange = (0, 0) := childRange_of_tag al.tag_self
    have hset : (k.setWord a 1 k.nextText).Closed :=
      hk.setWord ha (Nat.le_refl 1) (by decide) fun _ hlt => by rw [hrange] at hlt; cases hlt
    exact .bind (.modifyGet (.pure (hset.congr (k := k.intern a text) rfl hset.building)))

theorem ensures_box (value : Value) :
    Ensures (box value roots) h (fun _ k => k.Closed) (fun _ k => k.Closed) := by
  cases value with
  | number x => exact (hc.ensures_newNumber hf hroots x).mono (fun _ _ => And.left) fun _ _ => id
  | text s => exact hc.ensures_newString hf hroots s
  | bool | null | undefined | unassigned => exact .pure hc
  | _ => exact .throw hc

theorem ensures_extend {environment frame : Address} (henvironment : h.Live roots.get environment)
    (htag : h.tag environment = .environment) (hframe : h.Live roots.get frame) :
    Ensures (extend environment frame roots) h (fun _ k => k.Closed) (fun _ k => k.Closed) := by
  have hin : ∀ {b : Address}, h.Live roots.get b → h.InUse b := hc.inUse_of_live hf hroots
  refine .bind (.get (.bind ((hc.ensures_allocate hf hroots .environment
    (childRange_fresh_le _ _ (.inr rfl))).mono ?_ fun _ _ => And.left)))
  rintro a k ⟨al, hk⟩
  have hfits := al.fits.2
  have ha := al.inUse_self (by decide)
  have henv := al.inUse henvironment (hin henvironment)
  have hne : environment ≠ a := (al.tag _ henvironment (hin henvironment).tag_ne).1
  obtain ⟨hcopied, hstays⟩ := hk.copyWords (i := 1) (n := h.frameCount environment) ha henv.toIsBlock hne
    (Nat.le_refl 1) (by omega) fun j hpos hj => by
      have hcount : h.frameCount environment = h.size environment - 1 := rfl
      have hlt : j < h.size environment := by omega
      have hchild := hf.child_environment (hin henvironment).toIsBlock htag hpos hlt
      rw [al.word environment (hin henvironment).toIsBlock hne j hpos (by omega)]
      exact al.inUse (.child henvironment hchild) (hc.child _ (hin henvironment) _ hchild)
  exact .bind (.modifyGet (.pure (hcopied.setWord (hstays a ha) (Nat.le_add_left ..) (by omega)
    fun _ _ => .inr (hstays _ (al.inUse hframe (hin hframe))))))

theorem ensures_newChannel (capacity : Nat) :
    Ensures (newChannel capacity roots) h (fun _ k => k.Closed) (fun _ k => k.Closed) := by
  rw [newChannel_eq]
  split
  · exact .throw hc
  · refine .bind ((hc.ensures_allocate hf hroots .channel ?_).mono ?_ fun _ _ => And.left)
    · change (UInt16.ofNat _).toNat ≤ _
      rw [UInt16.toNat_ofNat']
      exact Nat.mod_le ..
    rintro a k ⟨al, hk⟩
    have hfits := al.fits.2
    have hstart : ringStart = 4 := rfl
    have hlen := length_emptyRing (max capacity 1)
    have ha := al.inUse_self (by decide)
    have hheader := header_setPayload ha.toIsBlock (channelPayload (capacity == 0) noKind)
    have hset := hk.setPayload ha (channelPayload (capacity == 0) noKind)
    have htag : (k.setPayload a (channelPayload (capacity == 0) noKind)).tag a = .channel :=
      (congrArg Header.tag hheader).trans al.tag_self
    have hin : (k.setPayload a (channelPayload (capacity == 0) noKind)).InUse a :=
      .of_tag ((writes_setPayload ha.toIsBlock _).isBlock.2 ha.toIsBlock) htag (by decide)
    refine .bind (.modifyGet (.pure (hset.setWords hin (Nat.le_refl 1) (by omega) fun j w hw hle => ?_)))
    rw [childRange_channel htag] at hle
    obtain ⟨i, rfl⟩ : ∃ i, j = i + 3 := ⟨j - 3, by omega⟩
    have hmem : w ∈ List.replicate (max capacity 1) vacant := List.mem_of_getElem? hw
    exact .inl (List.eq_of_mem_replicate hmem)

theorem ensures_newWaitGroup :
    Ensures (newWaitGroup roots) h (fun _ k => k.Closed) (fun _ k => k.Closed) := by
  have hblocks : ∀ a ∈ roots.get, h.IsBlock a := fun a ha => (hroots a ha).toIsBlock
  rw [newWaitGroup_eq]
  refine .bind (((hf.ensures_newNumber hblocks .zero).and (hc.ensures_newNumber hf hroots .zero)).mono ?_
    fun _ _ => And.right)
  rintro c k ⟨⟨hkf, -, -, -⟩, hk, hcounter, hstays⟩
  have hbuilding : ∀ b ∈ (k.held c).building, k.InUse b := by
    intro b hb
    rcases List.mem_cons.1 hb with rfl | hb
    · exact hcounter
    · exact hk.building b hb
  have hheld : (k.held c).Closed := hk.congr rfl hbuilding
  have hheldFormed : (k.held c).Formed := hkf.withBuilding fun b hb => (hbuilding b hb).toIsBlock
  have hheldRoots : ∀ a ∈ roots.get, (k.held c).InUse a := fun a ha =>
    (hstays a (.root ha) (hroots a ha)).held
  refine holding_ensures (.bind ((hheld.ensures_allocate hheldFormed hheldRoots .waitGroup (n := 2)
    (by decide)).mono ?_ ?_))
  · rintro g l ⟨al, hl⟩
    have hg := al.inUse_self (by decide)
    have hcl := al.inUse .self_held hcounter.held
    have hset : (l.setWord g 1 c).Closed :=
      hl.setWord hg (Nat.le_refl 1) (by decide) fun _ _ => .inr hcl
    have hkeeps : ∀ b ∈ k.building, (l.setWord g 1 c).InUse b := fun b hb =>
      hset.building b (al.keeps.symm ▸ List.mem_cons_of_mem c hb)
    exact .bind (.modifyGet (.pure (hset.congr rfl hkeeps)))
  · rintro e l ⟨hl, heq⟩
    exact hl.congr rfl fun b hb => hl.building b (heq.symm ▸ List.mem_cons_of_mem c hb)

end Actions

theorem ensures_assign (hc : h.Closed) (hf : h.Formed) {environment value : Address}
    (henvironment : h.InUse environment) (htag : h.tag environment = .environment) (p : Position)
    (hvalue : h.InUse value) :
    Ensures (assign environment p value) h (fun _ k => k.Closed) (fun _ k => k.Closed) := by
  unfold Ensures assign
  cases hslot : h.slotOf? environment p with
  | none => exact hc
  | some slot =>
    obtain ⟨hb, hframe, hpos, hlt⟩ := hf.of_slotOf? henvironment.toIsBlock htag hslot
    exact hc.setWord (.of_tag hb hframe (by decide)) hpos hlt fun _ _ => .inr hvalue

/-- A slot of a channel takes a node in use, and an index moves. -/
theorem setRing (hc : h.Closed) (hf : h.Formed) (ha : h.InUse a) (htag : h.tag a = .channel) {i j w n : Nat}
    (hi : i < h.channelSlots a) (hw : w = vacant ∨ h.InUse w) (hpos : 1 ≤ j) (hj : j < ringStart) :
    ((h.setWord a (ringStart + i) w).setWord a j n).Closed := by
  have hsize := ((hf.nodeFormed ha.toIsBlock).ring htag).1
  have hle : h.size a ≤ 10 := by
    have hrange := hc.range a ha.toIsBlock
    rw [childRange_channel htag] at hrange
    exact hrange
  have hnode : nodeSize = 10 := rfl
  have hstart : ringStart = 4 := rfl
  have hlt : ringStart + i < nodeSize := by omega
  have htag' : (h.setWord a (ringStart + i) w).tag a = .channel :=
    (congrArg Header.tag (header_setWord ha.toIsBlock ha.toIsBlock (by omega) hlt w)).trans htag
  have hin : (h.setWord a (ringStart + i) w).InUse a :=
    .of_tag ((writes_setWord ha.toIsBlock hlt w).isBlock.2 ha.toIsBlock) htag' (by decide)
  refine (hc.setWord ha (by omega) hlt fun _ _ => hw).setWord hin hpos (by omega) fun hfst _ => ?_
  rw [childRange_channel htag'] at hfst
  exact absurd hfst (Nat.not_le.2 hj)

end Closed

/-- An operation on a heap that is given nodes in use, of the kinds that it expects. -/
inductive Handles (h : Heap) : Heap → Prop where
  /-- A node that is neither a string nor a channel is allocated, and its children are words of it. -/
  | allocate (t : Tag) (n : Nat) (roots : Roots) (hroots : ∀ a ∈ roots.get, h.InUse a)
      (hstring : t ≠ .string) (hchannel : t ≠ .channel)
      (hchildren : (Header.fresh t n).childRange.2 ≤ n) : Handles h (leaves (allocate t n roots) h)
  /-- A number. -/
  | newNumber (x : Number) (roots : Roots) (hroots : ∀ a ∈ roots.get, h.InUse a) :
      Handles h (leaves (newNumber x roots) h)
  /-- A text. -/
  | newString (text : String) (roots : Roots) (hroots : ∀ a ∈ roots.get, h.InUse a) :
      Handles h (leaves (newString text roots) h)
  /-- Any value. -/
  | box (value : Value) (roots : Roots) (hroots : ∀ a ∈ roots.get, h.InUse a) :
      Handles h (leaves (box value roots) h)
  /-- A frame. -/
  | newFrame (slots : Nat) (roots : Roots) (hroots : ∀ a ∈ roots.get, h.InUse a) :
      Handles h (leaves (newFrame slots roots) h)
  /-- An environment without frames. -/
  | emptyEnvironment (roots : Roots) (hroots : ∀ a ∈ roots.get, h.InUse a) :
      Handles h (leaves (emptyEnvironment roots) h)
  /-- An environment with one frame more, where a collection keeps both. -/
  | extend (environment frame : Address) (roots : Roots) (hroots : ∀ a ∈ roots.get, h.InUse a)
      (henvironment : h.Live roots.get environment) (htag : h.tag environment = .environment)
      (hframe : h.Live roots.get frame) : Handles h (leaves (extend environment frame roots) h)
  /-- A channel. -/
  | newChannel (capacity : Nat) (roots : Roots) (hroots : ∀ a ∈ roots.get, h.InUse a) :
      Handles h (leaves (newChannel capacity roots) h)
  /-- A wait-group. -/
  | newWaitGroup (roots : Roots) (hroots : ∀ a ∈ roots.get, h.InUse a) :
      Handles h (leaves (newWaitGroup roots) h)
  /-- A variable is assigned. -/
  | assign (environment : Address) (p : Position) (value : Address)
      (henvironment : h.InUse environment) (htag : h.tag environment = .environment)
      (hvalue : h.InUse value) : Handles h (leaves (assign environment p value) h)
  /-- A value is put into a channel. -/
  | channelPush (a value : Address) (ha : h.InUse a) (htag : h.tag a = .channel)
      (hvalue : h.InUse value) : Handles h (h.channelPush a value)
  /-- A value is taken out of a channel. -/
  | channelPop (a : Address) (ha : h.InUse a) (htag : h.tag a = .channel) : Handles h (h.channelPop a)
  /-- What was allocated so far becomes permanent. -/
  | sealAll : Handles h h.sealAll
  /-- Collections are reported from now on, or no longer. -/
  | trace (tracing : Bool) : Handles h { h with tracing }
  /-- A collection. -/
  | collect (roots : List Address) (hroots : ∀ a ∈ roots, h.InUse a) : Handles h (h.collect roots)

/-- Nodes in use are nodes. -/
theorem Handles.operates (handles : Handles h k) (hc : h.Closed) (hf : h.Formed) : Operates h k := by
  have hblocks : ∀ {roots : List Address}, (∀ a ∈ roots, h.InUse a) → ∀ a ∈ roots, h.IsBlock a :=
    fun hroots a ha => (hroots a ha).toIsBlock
  cases handles with
  | allocate t n roots hroots hstring hchannel hchildren =>
    exact .allocate t n roots (hblocks hroots) hstring hchannel hchildren
  | newNumber x roots hroots => exact .newNumber x roots (hblocks hroots)
  | newString text roots hroots => exact .newString text roots (hblocks hroots)
  | box value roots hroots => exact .box value roots (hblocks hroots)
  | newFrame slots roots hroots => exact .newFrame slots roots (hblocks hroots)
  | emptyEnvironment roots hroots => exact .emptyEnvironment roots (hblocks hroots)
  | extend environment frame roots hroots henvironment htag hframe =>
    exact .extend environment frame roots (hblocks hroots)
      (hc.inUse_of_live hf hroots henvironment).toIsBlock htag (hc.inUse_of_live hf hroots hframe).toIsBlock
  | newChannel capacity roots hroots => exact .newChannel capacity roots (hblocks hroots)
  | newWaitGroup roots hroots => exact .newWaitGroup roots (hblocks hroots)
  | assign environment p value henvironment htag hvalue =>
    exact .assign environment p value henvironment.toIsBlock htag hvalue.toIsBlock
  | channelPush a value ha htag hvalue => exact .channelPush a value ha.toIsBlock htag hvalue.toIsBlock
  | channelPop a ha htag => exact .channelPop a ha.toIsBlock htag
  | sealAll => exact .sealAll
  | trace tracing => exact .trace tracing
  | collect roots hroots => exact .collect roots (hblocks hroots)

/-- Operations on nodes in use leave a closed heap. -/
theorem Handles.closed (handles : Handles h k) (hc : h.Closed) (hf : h.Formed) : k.Closed := by
  have hnode : ∀ {t : Tag} {n : Nat} {roots : Roots}, (∀ a ∈ roots.get, h.InUse a) →
      (Header.fresh t n).childRange.2 ≤ n → (leaves (Heap.allocate t n roots) h).Closed :=
    fun hroots hchildren => leaves_of_ensures ((hc.ensures_allocate hf hroots _ hchildren).mono
      (fun _ _ => And.right) fun _ _ => And.left)
  cases handles with
  | allocate t n roots hroots _ _ hchildren => exact hnode hroots hchildren
  | newNumber x roots hroots =>
    exact leaves_of_ensures ((hc.ensures_newNumber hf hroots x).mono (fun _ _ => And.left) fun _ _ => id)
  | newString text roots hroots => exact leaves_of_ensures (hc.ensures_newString hf hroots text)
  | box value roots hroots => exact leaves_of_ensures (hc.ensures_box hf hroots value)
  | newFrame slots roots hroots => exact hnode hroots (childRange_fresh_le _ _ (.inl rfl))
  | emptyEnvironment roots hroots => exact hnode hroots (by decide)
  | extend environment frame roots hroots henvironment htag hframe =>
    exact leaves_of_ensures (hc.ensures_extend hf hroots henvironment htag hframe)
  | newChannel capacity roots hroots => exact leaves_of_ensures (hc.ensures_newChannel hf hroots capacity)
  | newWaitGroup roots hroots => exact leaves_of_ensures (hc.ensures_newWaitGroup hf hroots)
  | assign environment p value henvironment htag hvalue =>
    exact leaves_of_ensures (hc.ensures_assign hf henvironment htag p hvalue)
  | channelPush a value ha htag hvalue =>
    exact hc.setRing hf ha htag ((hf.nodeFormed ha.toIsBlock).ring htag).2.1 (.inr hvalue) (by decide) (by decide)
  | channelPop a ha htag =>
    exact hc.setRing hf ha htag ((hf.nodeFormed ha.toIsBlock).ring htag).2.2 (.inl rfl) (by decide) (by decide)
  | sealAll => exact hc.congr rfl hc.building
  | trace => exact hc.congr rfl hc.building
  | collect roots hroots => exact hc.collect hf hroots

/-- A heap that operations on nodes in use lead to from a new one. -/
inductive Handled : Heap → Prop where
  /-- A new heap. -/
  | create {words : Nat} {h : Heap} (hcreate : create words = .ok h) : Handled h
  /-- The heap that an operation leaves behind. -/
  | handle {h k : Heap} (handled : Handled h) (handles : Handles h k) : Handled k

/-- In a sound heap the children of nodes in use are in use. -/
theorem Sound.closed (hs : h.Sound) : h.Closed where
  range := by
    intro a ha
    by_cases hfree : h.tag a = .free
    · rw [childRange_of_tag hfree]
      exact Nat.zero_le _
    · exact (hs.typed a ⟨ha, hfree⟩).range
  child := fun _ ha _ hchild => hs.typed.inUse_child ha hchild
  building := hs.building

theorem Handled.formed_closed (handled : Handled h) : h.Formed ∧ h.Closed := by
  induction handled with
  | create hcreate => exact ⟨formed_of_create hcreate, (initial_of_create hcreate).sound.closed⟩
  | handle _ handles ih => exact ⟨(handles.operates ih.2 ih.1).formed ih.1, handles.closed ih.2 ih.1⟩

/-! ## The law -/

/-- Every node is permanent or can be reached. -/
def Crowded (h : Heap) (roots : List Address) : Prop :=
  ∀ a, h.IsBlock a → a < h.bottom ∨ h.Live roots a

/-- The heap `k` is `h` with the node at `a` taken into use, after a collection if no node was free. -/
structure Supplies (h k : Heap) (roots : Roots) (t : Tag) (n : Nat) (a : Address) : Prop where
  /-- The node was the first of the free nodes, whose list ascends, and they are free otherwise. -/
  first : ∃ i rest, a = addressOf i ∧ FreeNodes (h.refill roots) (i :: rest) ∧ FreeNodes k rest
  /-- It is not permanent. -/
  behind : h.IsBlock a ∧ h.bottom ≤ a
  /-- It could not be reached. -/
  unreachable : ¬ h.Live roots.get a
  /-- It has the kind and the size that were asked for. -/
  header : k.tag a = t ∧ k.size a = n
  /-- Its words are unassigned. -/
  filled : ∀ i, 1 ≤ i → i < n → k.word a i = unassigned
  /-- All other nodes in use are as they were, unless a collection has reclaimed them. -/
  kept : ∀ b, h.InUse b → h.free ≠ noNode ∨ h.Live roots.get b →
    b ≠ a ∧ (∀ i < nodeSize, k.word b i = h.word b i) ∧ k.text? b = h.text? b
  /-- There was a collection if no node was free, and none otherwise. -/
  collections : k.collections = if h.free = noNode then h.collections + 1 else h.collections

/-- What an allocation from the heap `h` comes to. -/
structure Allocates (h : Heap) (roots : Roots) (t : Tag) (n : Nat)
    (result : EStateM.Result Fault Heap Address) : Prop where
  /-- It fails for a size of zero and for one above that of a node. -/
  tooLarge : (∃ k, result = .error (.nodeTooLarge n) k) ↔ n = 0 ∨ nodeSize < n
  /-- The heap is as it was then. -/
  untouched : ∀ k, result = .error (.nodeTooLarge n) k → k = h
  /-- For other sizes it fails if the heap is crowded. -/
  exhausted : (∃ k, result = .error .heapExhausted k) ↔
    (1 ≤ n ∧ n ≤ nodeSize) ∧ h.Crowded roots.get
  /-- No node was free then, and there was one collection. -/
  collected : ∀ k, result = .error .heapExhausted k → h.free = noNode ∧ k = h.collect roots.get
  /-- There are no other faults. -/
  fault : ∀ e k, result = .error e k → e = .nodeTooLarge n ∨ e = .heapExhausted
  /-- Otherwise it supplies a node. -/
  supplies : ∀ a k, result = .ok a k → Supplies h k roots t n a

theorem Formed.renew_free (hf : h.Formed) (hfree : h.free ≠ noNode) (t : Tag) {n : Nat} (hpos : 1 ≤ n)
    (hle : n ≤ nodeSize) : ∃ rest, FreeNodes h (h.free.toNat :: rest) ∧
      FreeNodes ((h.unlink (addressOf h.free.toNat)).renew (addressOf h.free.toNat) t n) rest := by
  obtain ⟨l, hl, -⟩ := hf.free
  obtain ⟨rest, rfl, hrest, hbehind⟩ := hl.unlink hfree
  have hb : h.IsBlock (addressOf h.free.toNat) := isBlock_addressOf.2 (hl.chain.lt _ (List.mem_cons_self ..))
  have hbase : (h.unlink (addressOf h.free.toNat)).IsBlock (addressOf h.free.toNat) := ⟨hb.aligned, hb.inside⟩
  have w := writes_renew hbase t hpos hle
  refine ⟨rest, hl, hrest.congr w.free w.freeCount w.bottom w.nodeCount fun i hi =>
    (w.same ?_ fun heq => ?_).header⟩
  · exact (IsBlock.congr (h := h) (k := h.unlink _) rfl).2
      (isBlock_addressOf.2 (hl.chain.lt i (List.mem_cons_of_mem _ hi)))
  · exact Nat.lt_irrefl _ (addressOf_inj heq ▸ hbehind i hi)

/-- The text of a node that can be reached stays. -/
theorem Formed.text?_collect (hf : h.Formed) {roots : List Address} (hroots : ∀ a ∈ roots, h.IsBlock a)
    (ha : h.Live roots a) : (h.collect roots).text? a = h.text? a := by
  have r := hf.reclaims_collect hroots
  have hword : (h.collect roots).word a 1 = h.word a 1 := r.kept a ha 1 (by decide)
  have htag : (h.collect roots).tag a = h.tag a :=
    congrArg (fun w => (Header.unpack w).tag) (r.kept a ha 0 (by decide))
  have hb := hf.isBlock_of_live hroots ha
  unfold text?
  rw [htag, hword]
  split
  next hstring =>
    obtain ⟨s, htext, hnode⟩ := hf.text a hb hstring
    rw [htext, (r.texts _ s).2 ⟨htext, fun b hb' hstring' hsame => ?_⟩]
    -- Only one node has this text.
    obtain ⟨s', htext', hnode'⟩ := hf.text b hb' hstring'
    rw [hsame, htext] at htext'
    obtain rfl := Option.some.inj htext'
    exact Option.some.inj (hnode.symm.trans hnode') ▸ ha
  next => rfl

section Refill

variable (hf : h.Formed) (hroots : ∀ a ∈ roots.get, h.IsBlock a)
include hf hroots

/-- A collection for want of a free node keeps what can be reached, with its text. -/
theorem Formed.kept_refill {b : Address} (hkept : h.free ≠ noNode ∨ h.Live roots.get b) :
    (∀ i < nodeSize, (h.refill roots).word b i = h.word b i) ∧ (h.refill roots).text? b = h.text? b := by
  unfold Heap.refill
  split
  next hnone =>
    have hlive := hkept.resolve_left fun h => h hnone
    exact ⟨(hf.reclaims_collect hroots).kept b hlive, hf.text?_collect hroots hlive⟩
  next => exact ⟨fun _ _ => rfl, rfl⟩

/-- The permanent region is the same then, and the collection is counted. -/
theorem Formed.counts_refill : (h.refill roots).bottom = h.bottom ∧
    (h.refill roots).collections = if h.free = noNode then h.collections + 1 else h.collections := by
  unfold Heap.refill
  split
  · obtain ⟨k, l, reports, s, heq⟩ := hf.exists_swept hroots
    have hcollections : k.collections = h.collections := by rw [s.eq]
    rw [heq]
    exact ⟨s.bottom, congrArg (· + 1) hcollections⟩
  · exact ⟨rfl, rfl⟩

/-- No node is free after a collection only if the heap is crowded. -/
theorem Formed.crowded_of_refill (hfree : (h.refill roots).free = noNode) :
    h.free = noNode ∧ h.Crowded roots.get := by
  have hnone : h.free = noNode := by
    refine Classical.byContradiction fun hne => hne ?_
    unfold Heap.refill at hfree
    rwa [if_neg hne] at hfree
  refine ⟨hnone, fun a ha => Classical.byContradiction fun hnot => ?_⟩
  unfold Heap.refill at hfree
  rw [if_pos hnone] at hfree
  obtain ⟨l, hchain, -, -, hmem, -⟩ := (hf.reclaims_collect hroots).free
  rw [hfree] at hchain
  obtain ⟨i, hi, rfl⟩ := ha.exists_index
  have hin := (hmem i).2 ⟨hi, Nat.not_lt.1 (not_or.1 hnot).1, (not_or.1 hnot).2⟩
  rw [hchain.eq_nil (hf.collect hroots).count] at hin
  cases hin

end Refill

section Law

variable (hf : h.Formed) (hc : h.Closed) (hroots : ∀ a ∈ roots.get, h.InUse a)
include hf hc hroots

theorem Closed.supplies {t : Tag} {n : Nat} (hpos : 1 ≤ n) (hle : n ≤ nodeSize)
    (hfree : (h.refill roots).free ≠ noNode) :
    Supplies h (((h.refill roots).unlink (addressOf (h.refill roots).free.toNat)).renew
      (addressOf (h.refill roots).free.toNat) t n) roots t n (addressOf (h.refill roots).free.toNat) := by
  have hblocks : ∀ a ∈ roots.get, h.IsBlock a := fun a ha => (hroots a ha).toIsBlock
  have hkept : ∀ {b}, h.free ≠ noNode ∨ h.Live roots.get b → _ := hf.kept_refill hblocks
  obtain ⟨hbottom, hcollections⟩ := hf.counts_refill hblocks
  have r := hf.stays_refill hblocks
  have renewed := r.formed.renewed hfree t hpos hle
  obtain ⟨rest, hlist, hrest⟩ := r.formed.renew_free hfree t hpos hle
  have hfirst : ∃ i rest, addressOf (h.refill roots).free.toNat = addressOf i ∧
      FreeNodes (h.refill roots) (i :: rest) ∧
        FreeNodes (((h.refill roots).unlink (addressOf (h.refill roots).free.toNat)).renew
          (addressOf (h.refill roots).free.toNat) t n) rest := ⟨_, rest, rfl, hlist, hrest⟩
  have hbehind := hlist.behind _ (List.mem_cons_self ..)
  have ha : (h.refill roots).IsBlock (addressOf (h.refill roots).free.toNat) :=
    (IsBlock.congr renewed.arena).1 renewed.isBlock
  have w := writes_renew (h := (h.refill roots).unlink (addressOf (h.refill roots).free.toNat))
    ⟨ha.aligned, ha.inside⟩ t hpos hle
  have hblock : ∀ {b}, h.InUse b →
      ((h.refill roots).unlink (addressOf (h.refill roots).free.toNat)).IsBlock b := fun hb =>
    (IsBlock.congr (k := (h.refill roots).unlink _) (h := h) r.size).2 hb.toIsBlock
  generalize addressOf (h.refill roots).free.toNat = a at *
  generalize ((h.refill roots).unlink a).renew a t n = k at *
  have hother : ∀ {b}, h.InUse b → h.free ≠ noNode ∨ h.Live roots.get b → b ≠ a := by
    rintro b hb hor rfl
    have htag : (h.refill roots).tag b = h.tag b :=
      congrArg (fun w => (Header.unpack w).tag) ((hkept hor).1 0 (by decide))
    exact hb.tag_ne (htag.symm.trans renewed.wasFree)
  exact {
    first := hfirst
    behind := ⟨(IsBlock.congr r.size).1 ha, hbottom ▸ hbehind⟩
    unreachable := fun hlive => hother (hc.inUse_of_live hf hroots hlive) (.inr hlive) rfl
    header := ⟨congrArg Header.tag renewed.header, by rw [Heap.size, renewed.header]; exact toNat_size hle t⟩
    filled := renewed.filled
    kept := fun b hb hor => by
      have hne := hother hb hor
      exact ⟨hne, fun i hi => (w.other b (hblock hb) hne i hi).trans ((hkept hor).1 i hi),
        (w.text? (hblock hb) hne).trans (hkept hor).2⟩
    collections := by
      rw [w.eq]
      exact hcollections }

end Law

/-- An allocation never reuses a node that can be reached, and it fails only if no other node is left. -/
theorem Handled.allocates (handled : Handled h) (hroots : ∀ a ∈ roots.get, h.InUse a) (t : Tag) (n : Nat) :
    Allocates h roots t n (allocate t n roots h) := by
  obtain ⟨hf, hc⟩ := handled.formed_closed
  have hblocks : ∀ a ∈ roots.get, h.IsBlock a := fun a ha => (hroots a ha).toIsBlock
  unfold allocate
  by_cases hn : n = 0 ∨ nodeSize < n
  · have hnot : ¬ ((1 ≤ n ∧ n ≤ nodeSize) ∧ h.Crowded roots.get) := fun h => by omega
    rw [if_pos hn]
    refine ⟨by simp [hn], ?_, by simp [hnot], fun _ heq => (nomatch heq), ?_, fun _ _ heq => (nomatch heq)⟩
    · rintro k ⟨⟩
      rfl
    · rintro e k ⟨⟩
      exact .inl rfl
  · have hfits : 1 ≤ n ∧ n ≤ nodeSize := by omega
    rw [if_neg hn]
    by_cases hfree : (h.refill roots).free = noNode
    · obtain ⟨hnone, hcrowded⟩ := hf.crowded_of_refill hblocks hfree
      simp only [if_pos hfree]
      refine ⟨by simp [hn], fun _ heq => (nomatch heq), by simp [hfits, hcrowded], ?_, ?_,
        fun _ _ heq => (nomatch heq)⟩
      · rintro k ⟨⟩
        exact ⟨hnone, if_pos hnone⟩
      · rintro e k ⟨⟩
        exact .inr rfl
    · have supplies := hc.supplies hf hroots (t := t) hfits.1 hfits.2 hfree
      -- The node that is supplied is neither permanent nor can it be reached.
      have hnot : ¬ h.Crowded roots.get := fun hcrowded =>
        (hcrowded _ supplies.behind.1).elim (Nat.not_lt.2 supplies.behind.2) supplies.unreachable
      simp only [if_neg hfree]
      generalize addressOf (h.refill roots).free.toNat = a at supplies ⊢
      generalize ((h.refill roots).unlink a).renew a t n = k at supplies ⊢
      refine ⟨by simp [hn], fun _ heq => (nomatch heq), by simp [hnot], fun _ heq => (nomatch heq),
        fun _ _ heq => (nomatch heq), ?_⟩
      rintro b l ⟨⟩
      exact supplies

/-- A heap of seven nodes, the constants and two more. -/
def seven : Heap := (create 70).toOption.getD default

/-- A heap with two numbers and nothing else. -/
def filled : Heap :=
  let first := leaves (newNumber ⟨0x3ff0000000000000⟩ noRoots) seven
  leaves (newNumber ⟨0x4000000000000000⟩ noRoots) first

theorem handled_filled : Handled filled := by
  have hnone : ∀ {h : Heap}, ∀ a ∈ noRoots.get, h.InUse a := fun a ha => nomatch ha
  have hseven : create 70 = .ok seven := create_eq (by decide +kernel)
  exact .handle (.handle (.create hseven) (.newNumber _ noRoots hnone)) (.newNumber _ noRoots hnone)

/-- The value of an action is known once it is compared. -/
theorem exists_eq_ok {x : Action Address} (hx : (match x h with
    | .ok b _ => decide (b = a)
    | .error .. => false) = true) : ∃ k, x h = .ok a k := by
  split at hx
  next heq => exact ⟨_, of_decide_eq_true hx ▸ heq⟩
  next => cases hx

theorem eq_ok_leaves {x : Action Address} (hx : (match x h with
    | .ok b _ => decide (b = a)
    | .error .. => false) = true) : x h = .ok a (leaves x h) := by
  obtain ⟨k, hk⟩ := exists_eq_ok hx
  rw [leaves, hk]

/-- The first number is a root, and a frame takes the place of the second one. -/
theorem allocates_filled : Handled filled ∧ (∀ a ∈ [50], filled.InUse a) ∧
    Allocates filled ⟨fun _ => [50]⟩ .frame 3 (allocate .frame 3 ⟨fun _ => [50]⟩ filled) ∧
    ∃ k, allocate .frame 3 ⟨fun _ => [50]⟩ filled = .ok 60 k := by
  have hroots : ∀ a ∈ [50], filled.InUse a := by
    intro a ha
    obtain rfl := List.mem_singleton.1 ha
    exact ⟨⟨by decide, by decide +kernel⟩, by decide +kernel⟩
  exact ⟨handled_filled, hroots, @Handled.allocates filled ⟨fun _ => [50]⟩ handled_filled hroots .frame 3,
    exists_eq_ok (by decide +kernel)⟩

/-- A heap with a permanent channel, which holds a number. -/
def hoarding : Heap :=
  let first := leaves (newChannel 1 noRoots) seven
  (leaves (newNumber ⟨0x3ff0000000000000⟩ noRoots) first.sealAll).channelPush 50 60

/-- A heap whose node at sixty is too small for its child, with numbers in front of it and behind. -/
def stuffed : Heap :=
  let first := leaves (newNumber ⟨0x3ff0000000000000⟩ noRoots) ((create 80).toOption.getD default)
  let second := leaves (newNumber ⟨51⟩ noRoots) first
  let third := leaves (allocate .blockframe 1 ⟨fun _ => [50]⟩) (second.collect [50])
  leaves (newNumber ⟨0x4000000000000000⟩ noRoots) third

/-- A heap with a text, and a string node that no text was given. -/
def textless : Heap := leaves (allocate .string 1 noRoots) (leaves (newString "hi" noRoots) seven)

/-- A heap with a channel that no slots were given, behind whose block values were put. -/
def slotless : Heap :=
  let made := leaves (allocate .channel 5 noRoots) ten
  let pushed := (List.range 7).foldl (fun h _ => h.channelPush 50 0) made
  leaves (newNumber ⟨0x3ff0000000000000⟩ noRoots) pushed

/-- A heap may be exhausted while a node is neither permanent nor can be reached from the roots and the
nodes being built: a permanent node keeps it.  And nodes that are not what their kinds require let an
allocation change a number or a text that is a root, or give a permanent node away. -/
theorem not_allocates :
    (hoarding.InUse 60 ∧ hoarding.bottom ≤ 60 ∧ ¬ Reach hoarding.words (hoarding.building ++ []) 60 ∧
      ∃ k, allocate .number 2 noRoots hoarding = .error .heapExhausted k) ∧
    (stuffed.InUse 50 ∧ stuffed.Live [50, 60] 50 ∧
      (leaves (allocate .number 2 ⟨fun _ => [50, 60]⟩) stuffed).word 50 1 ≠ stuffed.word 50 1) ∧
    (textless.InUse 50 ∧ textless.Live [50] 50 ∧
      (leaves (allocate .number 2 ⟨fun _ => [50]⟩) textless).text? 50 ≠ textless.text? 50) ∧
    0 < slotless.bottom ∧ ∃ k, allocate .number 2 noRoots slotless = .ok 0 k := by
  have hhoarding : hoarding.words.size = 70 ∧ hoarding.tag 60 ≠ .free ∧ hoarding.bottom ≤ 60 ∧
      hoarding.building = [] ∧ (match allocate .number 2 noRoots hoarding with
        | .ok .. => false
        | .error e _ => decide (e = .heapExhausted)) = true := by
    decide +kernel
  have hstuffed : stuffed.words.size = 80 ∧ stuffed.tag 50 ≠ .free ∧
      (leaves (allocate .number 2 ⟨fun _ => [50, 60]⟩) stuffed).word 50 1 ≠ stuffed.word 50 1 := by
    decide +kernel
  have htextless : textless.words.size = 70 ∧ textless.tag 50 ≠ .free ∧
      (leaves (allocate .number 2 ⟨fun _ => [50]⟩) textless).text? 50 ≠ textless.text? 50 := by
    decide +kernel
  obtain ⟨hsize, htag, hbottom, hbuilding, hfails⟩ := hhoarding
  refine ⟨⟨⟨⟨by decide, by rw [hsize]; decide⟩, htag⟩, hbottom, fun hreach => ?_, ?_⟩,
    ⟨⟨⟨by decide, by rw [hstuffed.1]; decide⟩, hstuffed.2.1⟩, .root (by simp), hstuffed.2.2⟩,
    ⟨⟨⟨by decide, by rw [htextless.1]; decide⟩, htextless.2.1⟩, .root (by simp), htextless.2.2⟩,
    by decide +kernel, exists_eq_ok (by decide +kernel)⟩
  · rw [hbuilding] at hreach
    have hnone : ∀ {a : Address}, ¬ Reach hoarding.words ([] ++ []) a := fun {a} h => by
      induction h with
      | pending hmem => cases hmem
      | child _ _ ih => exact ih
    exact hnone hreach
  · split at hfails
    next => cases hfails
    next heq => exact ⟨_, of_decide_eq_true hfails ▸ heq⟩

end ChannelMachine.Heap

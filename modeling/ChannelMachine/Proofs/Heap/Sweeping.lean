import ChannelMachine.Proofs.Heap.Sound

/-!
# Sweeping

`Swept h live now n l` is the state of a sweep that has come down to the node with index `n`: the
nodes below are as they were, those from `n` on have lost their mark or are free, and `l` is the
list of the free ones, which also says what the texts have lost and how many nodes were freed.
`swept_sweep` takes it down to zero.

A string node that is freed gives up its text first.  In between, the node has no text but is not
free yet; `InternedBut` is the state of the texts at that moment.
-/

namespace ChannelMachine.Heap

/-! ## Texts -/

/-- Each string node but one has a text, and each text has one node. -/
structure InternedBut (h : Heap) (a : Address) : Prop where
  /-- The text of another node has this node. -/
  text : ∀ b, h.IsBlock b → b ≠ a → h.tag b = .string →
    ∃ s, h.texts[h.word b 1]? = some s ∧ h.strings[s]? = some b
  /-- The node of a text is another string node that has this text. -/
  node : ∀ s b, h.strings[s]? = some b →
    b ≠ a ∧ h.IsBlock b ∧ h.tag b = .string ∧ h.texts[h.word b 1]? = some s
  /-- The number of the next text is not taken. -/
  next : ∀ n s, h.texts[n]? = some s → n < h.nextText

/-- A node of another kind has no text. -/
theorem Interned.but {h : Heap} (hi : h.Interned) {a : Address} (ha : h.tag a ≠ .string) :
    h.InternedBut a := by
  refine ⟨fun b hb _ => hi.text b hb, ?_, hi.next⟩
  intro s b hs
  obtain ⟨hb, htag, htext⟩ := hi.node s b hs
  refine ⟨?_, hb, htag, htext⟩
  rintro rfl
  exact ha htag

theorem InternedBut.congr {h k : Heap} {a : Address} (hi : h.InternedBut a)
    (hwords : k.words = h.words) (hstrings : k.strings = h.strings) (htexts : k.texts = h.texts)
    (hnext : k.nextText = h.nextText) : k.InternedBut a := by
  have hword : ∀ b i, k.word b i = h.word b i := by
    intro b i
    rw [word, word, hwords]
  have htag : ∀ b, k.tag b = h.tag b := by
    intro b
    rw [tag, tag, header, header, hword]
  have hblock : ∀ b, k.IsBlock b ↔ h.IsBlock b :=
    fun b => IsBlock.congr (congrArg Array.size hwords)
  refine ⟨?_, ?_, ?_⟩
  · intro b hb hne hstring
    rw [hstrings, htexts, hword]
    exact hi.text b ((hblock b).1 hb) hne (htag b ▸ hstring)
  · intro s b hs
    rw [hblock, hstrings, htexts, hword, htag] at *
    exact hi.node s b hs
  · rw [htexts, hnext]
    exact hi.next

/-- The texts of the other nodes depend on the other nodes only. -/
theorem InternedBut.others {h k : Heap} {a : Address} (hi : h.InternedBut a)
    (hstrings : k.strings = h.strings) (htexts : k.texts = h.texts)
    (hnext : k.nextText = h.nextText) (hsize : k.words.size = h.words.size)
    (hsame : ∀ b, h.IsBlock b → b ≠ a → SameNode h k b) : k.InternedBut a := by
  refine ⟨?_, ?_, ?_⟩
  · intro b hb hne htag
    have hb' := (IsBlock.congr hsize).1 hb
    have same := hsame b hb' hne
    rw [hstrings, htexts, same.word 1 (by decide) (by decide)]
    exact hi.text b hb' hne (same.tag ▸ htag)
  · intro s b hs
    rw [hstrings] at hs
    obtain ⟨hne, hb, htag, htext⟩ := hi.node s b hs
    have same := hsame b hb hne
    rw [htexts, same.word 1 (by decide) (by decide), same.tag]
    exact ⟨hne, (IsBlock.congr hsize).2 hb, htag, htext⟩
  · rw [htexts, hnext]
    exact hi.next

/-- Once the node is of another kind, all string nodes have a text. -/
theorem InternedBut.interned {h k : Heap} {a : Address} (hi : h.InternedBut a)
    (hstrings : k.strings = h.strings) (htexts : k.texts = h.texts)
    (hnext : k.nextText = h.nextText) (hsize : k.words.size = h.words.size)
    (hsame : ∀ b, h.IsBlock b → b ≠ a → SameNode h k b) (ha : k.tag a ≠ .string) :
    k.Interned := by
  have others := hi.others hstrings htexts hnext hsize hsame
  refine ⟨fun b hb htag => others.text b hb ?_ htag, fun s b hs => (others.node s b hs).2, others.next⟩
  rintro rfl
  exact ha htag

/-- Texts depend on the kinds of the nodes and on the second words only. -/
theorem Interned.congr {h k : Heap} (hi : h.Interned) (hstrings : k.strings = h.strings)
    (htexts : k.texts = h.texts) (hnext : k.nextText = h.nextText)
    (hsize : k.words.size = h.words.size)
    (htag : ∀ a, h.IsBlock a → k.tag a = h.tag a)
    (hword : ∀ a, h.IsBlock a → k.tag a = .string → k.word a 1 = h.word a 1) : k.Interned := by
  refine ⟨?_, ?_, ?_⟩
  · intro b hb hstring
    have hb' := (IsBlock.congr hsize).1 hb
    rw [hstrings, htexts, hword b hb' hstring]
    exact hi.text b hb' (htag b hb' ▸ hstring)
  · intro s b hs
    rw [hstrings] at hs
    obtain ⟨hb, hstring, htext⟩ := hi.node s b hs
    have hstring' := (htag b hb).trans hstring
    rw [htexts, hword b hb hstring']
    exact ⟨(IsBlock.congr hsize).2 hb, hstring', htext⟩
  · rw [htexts, hnext]
    exact hi.next

theorem evict_eq (h : Heap) (a : Address) :
    h.evict a = { h with texts := (h.evict a).texts, strings := (h.evict a).strings } := by
  cases ht : h.texts[h.word a 1]? with
  | none => simp only [evict, ht]
  | some t => simp only [evict, ht]

/-- A string node has a text, which it forgets. -/
theorem Interned.exists_evict {h : Heap} (hi : h.Interned) {a : Address} (ha : h.IsBlock a)
    (htag : h.tag a = .string) : ∃ t, h.texts[h.word a 1]? = some t ∧ h.strings[t]? = some a ∧
      h.evict a =
        { h with texts := h.texts.erase (h.word a 1), strings := h.strings.erase t } := by
  obtain ⟨t, ht, hnode⟩ := hi.text a ha htag
  exact ⟨t, ht, hnode, by simp only [Heap.evict, ht, hnode, if_true]⟩

/-- Forgetting the text of a node forgets the text with its number. -/
theorem Interned.texts_evict {h : Heap} (hi : h.Interned) {a : Address} (ha : h.IsBlock a)
    (htag : h.tag a = .string) (n : Nat) (s : String) :
    (h.evict a).texts[n]? = some s ↔ h.texts[n]? = some s ∧ h.word a 1 ≠ n := by
  obtain ⟨t, -, -, heq⟩ := hi.exists_evict ha htag
  simp only [heq, Std.TreeMap.getElem?_erase, Std.LawfulEqCmp.compare_eq_iff_eq]
  split <;> simp_all

/-- Forgetting the text of a node forgets that node. -/
theorem Interned.strings_evict {h : Heap} (hi : h.Interned) {a : Address} (ha : h.IsBlock a)
    (htag : h.tag a = .string) (s : String) (b : Address) :
    (h.evict a).strings[s]? = some b ↔ h.strings[s]? = some b ∧ b ≠ a := by
  obtain ⟨t, ht, hnode, heq⟩ := hi.exists_evict ha htag
  simp only [heq, Std.TreeMap.getElem?_erase, Std.LawfulEqCmp.compare_eq_iff_eq]
  split
  next hst =>
    subst hst
    refine ⟨(fun h => nomatch h), fun ⟨hb, hne⟩ => absurd ?_ hne⟩
    exact Option.some.inj (hb.symm.trans hnode)
  next hst =>
    refine ⟨fun hb => ⟨hb, ?_⟩, And.left⟩
    rintro rfl
    exact hst (Option.some.inj (ht.symm.trans (hi.node s b hb).2.2))

/-- A string node without its text. -/
theorem Interned.evict {h : Heap} (hi : h.Interned) {a : Address} (ha : h.IsBlock a)
    (htag : h.tag a = .string) : (h.evict a).InternedBut a := by
  obtain ⟨t, ht, hnode, heq⟩ := hi.exists_evict ha htag
  rw [heq]
  refine ⟨?_, ?_, ?_⟩
  · intro b hb hne hstring
    obtain ⟨s, hs, hb'⟩ := hi.text b ⟨hb.aligned, hb.inside⟩ hstring
    have hst : t ≠ s := by
      rintro rfl
      exact hne (Option.some.inj (hb'.symm.trans hnode))
    have hnumber : h.word a 1 ≠ h.word b 1 := by
      intro hw
      rw [hw, hs] at ht
      exact hst (Option.some.inj ht).symm
    refine ⟨s, ?_, by simpa [Std.TreeMap.getElem?_erase, hst] using hb'⟩
    change (h.texts.erase (h.word a 1))[h.word b 1]? = some s
    simpa only [Std.TreeMap.getElem?_erase, Std.LawfulEqCmp.compare_eq_iff_eq, if_neg hnumber]
      using hs
  · intro s b hs
    simp only [Std.TreeMap.getElem?_erase, Std.LawfulEqCmp.compare_eq_iff_eq] at hs
    split at hs
    · cases hs
    next hst =>
      obtain ⟨hb, hstring, htext⟩ := hi.node s b hs
      have hne : b ≠ a := by
        rintro rfl
        rw [ht] at htext
        exact hst (Option.some.inj htext)
      have hnumber : h.word a 1 ≠ h.word b 1 := by
        intro hw
        rw [hw, htext] at ht
        exact hst (Option.some.inj ht).symm
      refine ⟨hne, ⟨hb.aligned, hb.inside⟩, hstring, ?_⟩
      change (h.texts.erase (h.word a 1))[h.word b 1]? = some s
      simpa only [Std.TreeMap.getElem?_erase, Std.LawfulEqCmp.compare_eq_iff_eq, if_neg hnumber]
        using htext
  · intro n s hs
    simp only [Std.TreeMap.getElem?_erase] at hs
    split at hs
    · cases hs
    · exact hi.next n s hs

/-! ## Nodes that become free -/

section Release

variable {h : Heap} {a b : Address} {l : List Nat}

/-- The node is counted, and it is the first one. -/
def released (h : Heap) (a : Address) : Heap :=
  { h with free := UInt32.ofNat (a / nodeSize), freeCount := h.freeCount + 1 }

theorem isBlock_released (h : Heap) (a : Address) : (h.released a).IsBlock b ↔ h.IsBlock b :=
  IsBlock.congr (h := h) (k := h.released a) rfl

/-- Then its header is written. -/
theorem writes_release (ha : h.IsBlock a) : Writes (h.released a) (h.release a) a :=
  writes_setHeader ((isBlock_released h a).2 ha) _

theorem header_release (ha : h.IsBlock a) (hb : h.IsBlock b) :
    (h.release a).header b = if b = a then ⟨.free, 0, 0, h.free⟩ else h.header b :=
  header_setHeader ((isBlock_released h a).2 ha) ((isBlock_released h a).2 hb) _

/-- Behind its header the node stays as it is. -/
theorem word_release (ha : h.IsBlock a) (hb : h.IsBlock b) {i : Nat} (hpos : 1 ≤ i)
    (hi : i < nodeSize) : (h.release a).word b i = h.word b i :=
  word_setHeader ((isBlock_released h a).2 ha) ((isBlock_released h a).2 hb) hpos hi _

theorem packed_release (ha : h.IsBlock a) (hb : h.IsBlock b)
    (hother : b ≠ a → h.word b 0 = (h.header b).pack) :
    (h.release a).word b 0 = ((h.release a).header b).pack :=
  packed_setHeader ((isBlock_released h a).2 ha) ((isBlock_released h a).2 hb) _ hother

/-- The node is linked to those that were free before. -/
theorem Chain.release {i : Nat} (c : Chain h h.free l) (hcount : h.nodeCount ≤ noNode.toNat)
    (hi : i < h.nodeCount) (hnot : i ∉ l) :
    Chain (h.release (addressOf i)) (h.release (addressOf i)).free (i :: l) := by
  have hb := isBlock_addressOf.2 hi
  have w := writes_release hb
  have hindex : (UInt32.ofNat (addressOf i / nodeSize)).toNat = i := by
    rw [div_addressOf]
    exact toNat_ofNat_of_lt hcount hi
  have hrest : Chain (h.release (addressOf i)) h.free l := by
    refine Chain.congr (h := h) (k := h.release (addressOf i)) w.nodeCount c fun j hj => ?_
    rw [payload, payload, header_release hb (isBlock_addressOf.2 (c.lt j hj)), if_neg]
    rintro heq
    exact hnot (addressOf_inj heq ▸ hj)
  have hchain : Chain (h.release (addressOf i)) (UInt32.ofNat (addressOf i / nodeSize))
      ((UInt32.ofNat (addressOf i / nodeSize)).toNat :: l) := by
    refine .cons (by rw [hindex]; exact w.nodeCount ▸ hi) ?_
    rw [hindex, payload, header_release hb hb, if_pos rfl]
    exact hrest
  rw [hindex] at hchain
  exact w.free ▸ hchain

end Release

/-! ## The state in between -/

/-- A sweep of the heap `h` that keeps the addresses in `live` has come down to the node with index
`n`, and `l` are the nodes that it has made free. -/
structure Swept (h : Heap) (live : Address → Prop) (now : Heap) (n : Nat) (l : List Nat) :
    Prop where
  /-- What a sweep does not touch. -/
  eq : now = { h with
    words := now.words, free := now.free, freeCount := now.freeCount, strings := now.strings,
    texts := now.texts, lastFreed := now.lastFreed }
  /-- The arena has its size. -/
  size : now.words.size = h.words.size
  /-- Behind their headers all nodes are as they were. -/
  word : ∀ a, h.IsBlock a → ∀ i, 1 ≤ i → i < nodeSize → now.word a i = h.word a i
  /-- What is live has its header, and a mark before it is swept. -/
  kept : ∀ i, i < h.nodeCount → live (addressOf i) →
    now.header (addressOf i) = { h.header (addressOf i) with mark := if i < n then 1 else 0 }
  /-- What is not live has its header before it is swept, and in the permanent region. -/
  pending : ∀ i, i < h.nodeCount → ¬ live (addressOf i) → (i < n ∨ addressOf i < h.bottom) →
    now.header (addressOf i) = h.header (addressOf i)
  /-- Behind the permanent region it is free once it is swept. -/
  freed : ∀ i, i < h.nodeCount → ¬ live (addressOf i) → h.bottom ≤ addressOf i → n ≤ i →
    now.tag (addressOf i) = .free ∧ (now.header (addressOf i)).mark = 0
  /-- What is swept has a header that was written. -/
  packed : ∀ i, i < h.nodeCount → n ≤ i →
    now.word (addressOf i) 0 = (now.header (addressOf i)).pack
  /-- The free nodes are linked. -/
  chain : Chain now now.free l
  /-- They are in ascending order. -/
  sorted : l.Pairwise (· < ·)
  /-- They are the nodes behind the permanent region that are not live. -/
  mem_iff : ∀ i, i ∈ l ↔ n ≤ i ∧ i < h.nodeCount ∧ h.bottom ≤ addressOf i ∧ ¬ live (addressOf i)
  /-- They are counted. -/
  count : now.freeCount = l.length
  /-- Those that were in use are counted, too. -/
  lastFreed : now.lastFreed = l.countP fun i => h.tag (addressOf i) ≠ .free
  /-- The string nodes have their texts. -/
  interned : now.Interned
  /-- No free node is the node of a text, and all others are. -/
  strings : ∀ (t : String) (a : Address), now.strings[t]? = some a ↔
    h.strings[t]? = some a ∧ ∀ i ∈ l, addressOf i ≠ a
  /-- The numbers of the string nodes that are free now have no text, and all others have. -/
  texts : ∀ (m : Nat) (t : String), now.texts[m]? = some t ↔
    h.texts[m]? = some t ∧ ∀ i ∈ l, h.tag (addressOf i) = .string → h.word (addressOf i) 1 ≠ m

namespace Swept

theorem bottom {h now : Heap} {live : Address → Prop} {n : Nat} {l : List Nat}
    (s : Swept h live now n l) : now.bottom = h.bottom := by rw [s.eq]

theorem nextText {h now : Heap} {live : Address → Prop} {n : Nat} {l : List Nat}
    (s : Swept h live now n l) : now.nextText = h.nextText := by rw [s.eq]

theorem building {h now : Heap} {live : Address → Prop} {n : Nat} {l : List Nat}
    (s : Swept h live now n l) : now.building = h.building := by rw [s.eq]

theorem nodeCount {h now : Heap} {live : Address → Prop} {n : Nat} {l : List Nat}
    (s : Swept h live now n l) : now.nodeCount = h.nodeCount := by
  rw [Heap.nodeCount, Heap.nodeCount, s.size]

/-- A node that is live or permanent loses its mark, if it has one. -/
theorem keep {h now : Heap} {live : Address → Prop} {n : Nat} {l : List Nat} (hi : h.Whole)
    (s : Swept h live now (n + 1) l) (hn : n < h.nodeCount)
    (hkept : live (addressOf n) ∨ addressOf n < h.bottom) :
    Swept h live
      (now.setHeader (addressOf n) { now.header (addressOf n) with mark := 0 }) n l := by
  have hb := isBlock_addressOf.2 hn
  have hb' := (IsBlock.congr s.size).2 hb
  have hw := writes_setHeader hb' { now.header (addressOf n) with mark := 0 }
  have hnot : n ∉ l := fun hmem => Nat.not_succ_le_self n ((s.mem_iff n).1 hmem).1
  have hother : ∀ i, i < h.nodeCount → i ≠ n →
      (now.setHeader (addressOf n) { now.header (addressOf n) with mark := 0 }).header
        (addressOf i) = now.header (addressOf i) := by
    intro i hlt hne
    have hbi := (IsBlock.congr s.size).2 (isBlock_addressOf.2 hlt)
    rw [header_setHeader hb' hbi, if_neg fun heq => hne (addressOf_inj heq)]
  have hkeptOf : ∀ i, ¬ live (addressOf i) → h.bottom ≤ addressOf i → i ≠ n := by
    rintro i hnotlive hbottom rfl
    exact hkept.elim hnotlive (Nat.not_lt.2 hbottom)
  refine ⟨?_, hw.size.trans s.size, ?_, ?_, ?_, ?_, ?_, ?_, s.sorted, ?_,
    hw.freeCount.trans s.count, ?_, ?_, ?_, ?_⟩
  · rw [hw.eq, s.eq]
  · intro a ha i hpos hlt
    rw [word_setHeader hb' ((IsBlock.congr s.size).2 ha) hpos hlt, s.word a ha i hpos hlt]
  · intro i hlt hlive
    rcases Nat.lt_trichotomy i n with hin | rfl | hin
    · rw [hother i hlt (by omega), s.kept i hlt hlive, if_pos (by omega), if_pos hin]
    · rw [header_setHeader hb' hb', if_pos rfl, s.kept i hlt hlive, if_neg (Nat.lt_irrefl i)]
    · rw [hother i hlt (by omega), s.kept i hlt hlive, if_neg (by omega), if_neg (by omega)]
  · intro i hlt hnotlive hin
    have hpending := s.pending i hlt hnotlive (hin.imp_left (by omega))
    by_cases hne : i = n
    · -- What is not live had no mark.
      subst hne
      rw [header_setHeader hb' hb', if_pos rfl, hpending, ← hi.mark _ hb]
    · rw [hother i hlt hne, hpending]
  · intro i hlt hnotlive hbottom hin
    have hne := hkeptOf i hnotlive hbottom
    rw [Heap.tag, hother i hlt hne]
    exact s.freed i hlt hnotlive hbottom (by omega)
  · intro i hlt hin
    have hbi := (IsBlock.congr s.size).2 (isBlock_addressOf.2 hlt)
    refine packed_setHeader hb' hbi _ fun hne => s.packed i hlt ?_
    have hne' : i ≠ n := fun heq => hne (heq ▸ rfl)
    omega
  · refine s.chain.congr hw.nodeCount fun i hmem => ?_
    have hlt := ((s.mem_iff i).1 hmem).2.1
    rw [payload, payload, hother i hlt fun heq => hnot (heq ▸ hmem)]
  · intro i
    rw [s.mem_iff i]
    constructor
    · rintro ⟨hle, hrest⟩
      exact ⟨by omega, hrest⟩
    · rintro ⟨hle, hlt, hbottom, hnotlive⟩
      have hne := hkeptOf i hnotlive hbottom
      exact ⟨by omega, hlt, hbottom, hnotlive⟩
  · rw [hw.eq]
    exact s.lastFreed
  · refine s.interned.congr hw.strings hw.texts hw.nextText hw.size ?_ ?_
    · intro a ha
      rw [tag, tag, header_setHeader hb' ha]
      split
      next heq => rw [heq]
      next => rfl
    · intro a ha _
      exact word_setHeader hb' ha (by decide) (by decide) _
  · rw [hw.strings]
    exact s.strings
  · rw [hw.texts]
    exact s.texts

/-- A node without a text becomes the first free node. -/
theorem release {h now k : Heap} {live : Address → Prop} {n : Nat} {l : List Nat}
    (hi : h.Whole) (s : Swept h live now (n + 1) l) (hn : n < h.nodeCount)
    (hlive : ¬ live (addressOf n)) (hbottom : h.bottom ≤ addressOf n)
    (hk : k = { now with
      strings := k.strings, texts := k.texts, lastFreed := k.lastFreed })
    (hinterned : k.InternedBut (addressOf n))
    (hlast : k.lastFreed = now.lastFreed + if h.tag (addressOf n) ≠ .free then 1 else 0)
    (hstrings : ∀ (t : String) (a : Address), k.strings[t]? = some a ↔
      now.strings[t]? = some a ∧ addressOf n ≠ a)
    (htexts : ∀ (m : Nat) (t : String), k.texts[m]? = some t ↔ now.texts[m]? = some t ∧
      (h.tag (addressOf n) = .string → h.word (addressOf n) 1 ≠ m)) :
    Swept h live (k.release (addressOf n)) n (n :: l) := by
  have hwords : k.words = now.words := by rw [hk]
  have hsize : k.words.size = h.words.size := by rw [hwords, s.size]
  have hword : ∀ a i, k.word a i = now.word a i := by
    intro a i
    rw [Heap.word, Heap.word, hwords]
  have hheader : ∀ a, k.header a = now.header a := fun a => congrArg Header.unpack (hword a 0)
  have hblock : ∀ {a : Nat}, h.IsBlock a → k.IsBlock a := fun ha => (IsBlock.congr hsize).2 ha
  have hnodes : k.nodeCount = h.nodeCount := congrArg (· / nodeSize) hsize
  have hb := hblock (isBlock_addressOf.2 hn)
  have hw := writes_release hb
  have hnot : n ∉ l := fun hmem => Nat.not_succ_le_self n ((s.mem_iff n).1 hmem).1
  have hself : (k.release (addressOf n)).header (addressOf n) = ⟨.free, 0, 0, k.free⟩ := by
    rw [header_release hb hb, if_pos rfl]
  have hother : ∀ i, i < h.nodeCount → i ≠ n →
      (k.release (addressOf n)).header (addressOf i) = now.header (addressOf i) := by
    intro i hlt hne
    rw [header_release hb (hblock (isBlock_addressOf.2 hlt)), if_neg fun heq => hne (addressOf_inj heq)]
    exact hheader _
  have hchain : Chain k k.free l := by
    rw [show k.free = now.free by rw [hk]]
    exact s.chain.congr (hnodes.trans s.nodeCount.symm) fun i _ => congrArg Header.payload (hheader _)
  refine ⟨?_, hw.size.trans hsize, ?_, ?_, ?_, ?_, ?_, ?_, ?_, ?_, ?_, ?_, ?_, ?_, ?_⟩
  · rw [hw.eq]
    simp only [released]
    rw [hk, s.eq]
  · intro a ha i hpos hlt
    exact ((word_release hb (hblock ha) hpos hlt).trans (hword a i)).trans (s.word a ha i hpos hlt)
  · intro i hlt hkept
    have hne : i ≠ n := by
      rintro rfl
      exact hlive hkept
    rw [hother i hlt hne, s.kept i hlt hkept]
    by_cases hin : i < n
    · rw [if_pos (by omega), if_pos hin]
    · rw [if_neg (by omega), if_neg hin]
  · intro i hlt hnotlive hin
    have hne : i ≠ n := by
      rintro rfl
      exact hin.elim (Nat.lt_irrefl i) (Nat.not_lt.2 hbottom)
    rw [hother i hlt hne, s.pending i hlt hnotlive (hin.imp_left (by omega))]
  · intro i hlt hnotlive hle hin
    by_cases hne : i = n
    · rw [hne, tag, hself]
      exact ⟨rfl, rfl⟩
    · rw [tag, hother i hlt hne]
      exact s.freed i hlt hnotlive hle (by omega)
  · intro i hlt hin
    refine packed_release hb (hblock (isBlock_addressOf.2 hlt)) fun hne => ?_
    have hne' : i ≠ n := fun heq => hne (heq ▸ rfl)
    rw [hword, hheader]
    exact s.packed i hlt (by omega)
  · exact hchain.release (hnodes ▸ hi.count) (hnodes ▸ hn) hnot
  · refine List.pairwise_cons.2 ⟨?_, s.sorted⟩
    intro i hmem
    exact ((s.mem_iff i).1 hmem).1
  · intro i
    rw [List.mem_cons, s.mem_iff i]
    constructor
    · rintro (rfl | ⟨hle, hrest⟩)
      · exact ⟨Nat.le_refl i, hn, hbottom, hlive⟩
      · exact ⟨by omega, hrest⟩
    · rintro ⟨hle, hrest⟩
      rcases Nat.lt_or_eq_of_le hle with hgt | rfl
      · exact .inr ⟨hgt, hrest⟩
      · exact .inl rfl
  · rw [hw.freeCount, List.length_cons, ← s.count]
    simp only [released]
    rw [hk]
  · rw [hw.eq, List.countP_cons, ← s.lastFreed]
    refine hlast.trans ?_
    simp only [decide_eq_true_eq]
  · have hbut : (k.released (addressOf n)).InternedBut (addressOf n) := hinterned.congr rfl rfl rfl rfl
    refine hbut.interned hw.strings hw.texts hw.nextText hw.size (fun b hb' => hw.same hb') ?_
    rw [tag, hself]
    exact (by decide : Tag.free ≠ .string)
  · intro t a
    rw [hw.strings, List.forall_mem_cons]
    exact (hstrings t a).trans (by rw [s.strings, and_assoc, and_comm (a := addressOf n ≠ a)])
  · intro m t
    rw [hw.texts, List.forall_mem_cons]
    exact (htexts m t).trans
      (by rw [s.texts, and_assoc, and_comm (b := h.tag (addressOf n) = .string → _)])

/-- A node that is neither live nor permanent is made free. -/
theorem reclaim {h now : Heap} {live : Address → Prop} {n : Nat} {l : List Nat} (hi : h.Whole)
    (s : Swept h live now (n + 1) l) (hn : n < h.nodeCount) (hlive : ¬ live (addressOf n))
    (hbottom : h.bottom ≤ addressOf n) :
    Swept h live (now.reclaim (addressOf n)) n (n :: l) := by
  have hb := isBlock_addressOf.2 hn
  have hb' := (IsBlock.congr s.size).2 hb
  have htag : now.tag (addressOf n) = h.tag (addressOf n) :=
    congrArg Header.tag (s.pending n hn hlive (.inl (Nat.lt_succ_self n)))
  have hword := s.word _ hb 1 (by decide) (by decide)
  -- Only string nodes are nodes of texts.
  have hnode : now.tag (addressOf n) ≠ .string → ∀ (t : String) (a : Address),
      now.strings[t]? = some a ↔ now.strings[t]? = some a ∧ addressOf n ≠ a := by
    refine fun hstring t a => ⟨fun ht => ⟨ht, ?_⟩, And.left⟩
    rintro rfl
    exact hstring (s.interned.node t _ ht).2.1
  have hnumber : now.tag (addressOf n) ≠ .string → ∀ (m : Nat) (t : String),
      now.texts[m]? = some t ↔ now.texts[m]? = some t ∧
        (h.tag (addressOf n) = .string → h.word (addressOf n) 1 ≠ m) :=
    fun hstring m t => ⟨fun ht => ⟨ht, fun heq => absurd (htag.trans heq) hstring⟩, And.left⟩
  unfold Heap.reclaim
  split
  next hfree =>
    have hstring : now.tag (addressOf n) ≠ .string := by simp [hfree]
    refine s.release hi hn hlive hbottom rfl (s.interned.but hstring) ?_ (hnode hstring)
      (hnumber hstring)
    rw [if_neg (Classical.not_not.2 (htag.symm.trans hfree)), Nat.add_zero]
  next hstring =>
    refine s.release hi hn hlive hbottom ?_ ?_ ?_ (fun t a => ?_) fun m t => ?_
    · rw [countFreed, evict_eq]
    · exact (s.interned.evict hb' hstring).congr rfl rfl rfl rfl
    · rw [if_pos (by rw [← htag, hstring]; decide), countFreed, evict_eq]
    · exact (s.interned.strings_evict hb' hstring t a).trans (and_congr_right fun _ => ne_comm)
    · refine (s.interned.texts_evict hb' hstring m t).trans (and_congr_right fun _ => ?_)
      rw [hword, ← htag]
      exact ⟨fun hne _ => hne, fun hne => hne hstring⟩
  next hfree hstring =>
    refine s.release hi hn hlive hbottom rfl ?_ ?_ (hnode hstring) (hnumber hstring)
    · exact (s.interned.but hstring).congr rfl rfl rfl rfl
    · rw [if_pos (by rw [← htag]; exact hfree)]
      rfl

/-- The sweep of one node. -/
theorem node {h now : Heap} {live : Address → Prop} {n : Nat} {l : List Nat} (hi : h.Whole)
    (s : Swept h live now (n + 1) l) (hn : n < h.nodeCount) :
    ∃ l', Swept h live (now.sweepNode (addressOf n)) n l' := by
  have hpermanent : now.isPermanent (addressOf n) = decide (addressOf n < h.bottom) := by
    rw [isPermanent, s.bottom]
  by_cases hlive : live (addressOf n)
  · refine ⟨l, ?_⟩
    have hmark : ((now.header (addressOf n)).mark != 0) = true := by
      rw [s.kept n hn hlive, if_pos (Nat.lt_succ_self n)]
      rfl
    rw [sweepNode, hmark, Bool.or_true, if_pos rfl]
    exact s.keep hi hn (.inl hlive)
  · have hmark : ((now.header (addressOf n)).mark != 0) = false := by
      rw [s.pending n hn hlive (.inl (Nat.lt_succ_self n)), hi.mark _ (isBlock_addressOf.2 hn)]
      rfl
    rw [sweepNode, hmark, Bool.or_false, hpermanent]
    by_cases hbottom : addressOf n < h.bottom
    · rw [if_pos (decide_eq_true hbottom)]
      exact ⟨l, s.keep hi hn (.inr hbottom)⟩
    · rw [if_neg (by simpa using hbottom)]
      exact ⟨n :: l, s.reclaim hi hn hlive (Nat.not_lt.1 hbottom)⟩

end Swept

/-- A sweep takes the state in between down to the start of the arena. -/
theorem swept_sweep {h : Heap} {live : Address → Prop} (hi : h.Whole) (n : Nat) :
    ∀ {now : Heap} {l : List Nat}, n ≤ h.nodeCount → Swept h live now n l →
      ∃ l', Swept h live (now.sweep n) 0 l' := by
  induction n with
  | zero => exact fun _ s => ⟨_, s⟩
  | succ n ih =>
    intro now l hle s
    obtain ⟨l', s'⟩ := s.node hi hle
    exact ih (Nat.le_of_succ_le hle) s'

/-! ## The end of a sweep -/

namespace Swept

variable {h k : Heap} {live : Address → Prop} {l : List Nat} {a : Address} (s : Swept h live k 0 l)
include s

/-- What is live or permanent is as it was. -/
theorem same (hw : h.Whole) (ha : h.IsBlock a) (hkept : live a ∨ a < h.bottom) : SameNode h k a := by
  obtain ⟨i, hi, rfl⟩ := ha.exists_index
  refine ⟨?_, s.word _ ha⟩
  by_cases hlive : live (addressOf i)
  · rw [s.kept i hi hlive, if_neg (Nat.not_lt_zero i), ← hw.mark _ ha]
  · exact s.pending i hi hlive (.inr (hkept.resolve_left hlive))

/-- All other nodes are free. -/
theorem tag_mark (ha : h.IsBlock a) (hlive : ¬ live a) (hbottom : h.bottom ≤ a) :
    k.tag a = .free ∧ (k.header a).mark = 0 := by
  obtain ⟨i, hi, rfl⟩ := ha.exists_index
  exact s.freed i hi hlive hbottom (Nat.zero_le i)

theorem word_zero (ha : h.IsBlock a) : k.word a 0 = (k.header a).pack := by
  obtain ⟨i, hi, rfl⟩ := ha.exists_index
  exact s.packed i hi (Nat.zero_le i)

/-- No node is marked. -/
theorem whole (hw : h.Whole) : k.Whole where
  size := by
    rw [s.size, s.nodeCount]
    exact hw.size
  count := by
    rw [s.nodeCount]
    exact hw.count
  mark := by
    intro a ha
    have ha := (IsBlock.congr s.size).1 ha
    by_cases hkept : live a ∨ a < h.bottom
    · rw [(s.same hw ha hkept).header]
      exact hw.mark a ha
    · have hnot := not_or.1 hkept
      exact (s.tag_mark ha hnot.1 (Nat.not_lt.1 hnot.2)).2

end Swept

end ChannelMachine.Heap

import ChannelMachine.Proofs.Heap.Formed

/-!
# What a collection reclaims

A collection of a formed heap frees exactly the nodes that cannot be reached (`Formed.reclaims_collect`), where
the roots may be any nodes: some twice, permanent ones, and nodes that are free.  What is free and a
root is not put on the list of free nodes.

The loop that marks ends on every arena, whatever its words are (`acc_markStep`): it marks a header that
had no mark or takes an address off its list.
-/

namespace ChannelMachine.Heap

/-! ## The loop that marks -/

/-- What one pass of the loop does to the words and to the pending addresses. -/
inductive MarkStep : Array Nat × List Address → Array Nat × List Address → Prop where
  /-- A header without a mark gets one, and the children are pending. -/
  | visit {words : Array Nat} {a : Address} {rest : List Address} (ha : a < words.size)
      (unmarked : Header.isMarked words[a] = false) :
      MarkStep (words, a :: rest)
        (words.set a (Header.marked words[a]), (children words a).reverse ++ rest)
  /-- Another address is taken off the list. -/
  | skip {words : Array Nat} {a : Address} {rest : List Address}
      (marked : (ha : a < words.size) → Header.isMarked words[a] = true) :
      MarkStep (words, a :: rest) (words, rest)

/-- The passes of the loop lead to the same words. -/
theorem MarkStep.mark_eq {s t : Array Nat × List Address} (step : MarkStep s t) :
    mark s.1 s.2 = mark t.1 t.2 := by
  cases step with
  | visit ha unmarked =>
    rw [mark]
    simp only [dif_pos ha, dif_pos unmarked]
  | @skip words a rest marked =>
    rw [mark]
    by_cases ha : a < words.size
    · simp [dif_pos ha, marked ha]
    · simp only [dif_neg ha]

/-- While addresses are pending there is a pass. -/
theorem MarkStep.exists (words : Array Nat) (a : Address) (rest : List Address) :
    ∃ s, MarkStep (words, a :: rest) s := by
  by_cases h : ∃ ha : a < words.size, Header.isMarked words[a] = false
  · obtain ⟨ha, unmarked⟩ := h
    exact ⟨_, .visit ha unmarked⟩
  · refine ⟨_, .skip fun ha => ?_⟩
    simpa using fun unmarked => h ⟨ha, unmarked⟩

/-- The loop ends from every state. -/
theorem acc_markStep (words : Array Nat) (pending : List Address) :
    Acc (fun t s => MarkStep s t) (words, pending) := by
  fun_induction mark words pending with
  | case1 =>
    refine .intro _ fun _ step => ?_
    cases step
  | case2 words a rest ha unmarked pending ih =>
    refine .intro _ fun _ step => ?_
    cases step with
    | visit => exact ih
    | skip marked => rw [marked ha] at unmarked; cases unmarked
  | case3 words a rest ha marked ih =>
    refine .intro _ fun _ step => ?_
    cases step with
    | visit _ unmarked => exact absurd unmarked marked
    | skip => exact ih
  | case4 words a rest ha ih =>
    refine .intro _ fun _ step => ?_
    cases step with
    | visit h => exact absurd h ha
    | skip => exact ih

/-! ## The law -/

/-- A collection of the heap `h` that leaves the heap `k` frees exactly what cannot be reached. -/
structure Reclaims (h k : Heap) (roots : List Address) : Prop where
  /-- The loop that marks ends. -/
  ends : Acc (fun t s => MarkStep s t)
    (h.words, h.permanentRoots.reverse ++ h.building ++ roots.reverse)
  /-- All words of what can be reached are as before. -/
  kept : ∀ a, h.Live roots a → ∀ i < nodeSize, k.word a i = h.word a i
  /-- No node is marked. -/
  mark : ∀ a, h.IsBlock a → (k.header a).mark = 0
  /-- The list of free nodes ascends, is counted, and has the nodes behind the permanent region that
  cannot be reached.  Those of them that were in use are counted, too. -/
  free : ∃ l, Chain k k.free l ∧ l.Pairwise (· < ·) ∧ k.freeCount = l.length ∧
    (∀ i, i ∈ l ↔ i < h.nodeCount ∧ h.bottom ≤ addressOf i ∧ ¬ h.Live roots (addressOf i)) ∧
    k.lastFreed = l.countP fun i => h.tag (addressOf i) ≠ .free
  /-- Everything else that cannot be reached was free and permanent. -/
  permanent : ∀ a, h.IsBlock a → a < h.bottom → ¬ h.Live roots a → h.tag a = .free
  /-- The texts lose the string nodes that cannot be reached. -/
  strings : ∀ (t : String) (a : Address),
    k.strings[t]? = some a ↔ h.strings[t]? = some a ∧ h.Live roots a
  /-- They lose the numbers of these nodes. -/
  texts : ∀ (n : Nat) (t : String), k.texts[n]? = some t ↔ h.texts[n]? = some t ∧
    ∀ a, h.IsBlock a → h.tag a = .string → h.word a 1 = n → h.Live roots a

variable {h k : Heap} {a : Address} {roots : List Address}

namespace Formed

/-- The children of nodes are nodes. -/
theorem unmarked (hf : h.Formed) : Unmarked h.words h.IsBlock where
  aligned := fun _ ha => ha.aligned
  inside := fun _ ha => ha.inside
  range := fun _ ha => (hf.nodeFormed ha).range
  mark := by
    intro a ha
    rw [isMarked_word, hf.mark a ha]
    rfl
  child := by
    intro a c ha hc
    obtain ⟨hv, i, hle, hlt, -, hword⟩ := mem_children.1 hc
    rcases (hf.nodeFormed ha).child i hle hlt with ⟨-, hvacant⟩ | hb
    · exact absurd (hword.symm.trans hvacant) hv
    · exact hword ▸ hb

theorem isBlock_of_live (hf : h.Formed) (hroots : ∀ a ∈ roots, h.IsBlock a) (ha : h.Live roots a) :
    h.IsBlock a := by
  refine hf.unmarked.of_reach (fun b hb => ?_) ha
  rw [List.mem_append, List.mem_append, List.mem_reverse, List.mem_reverse] at hb
  rcases hb with (hb | hb) | hb
  · exact (hf.mem_permanentRoots.1 hb).1
  · exact hf.building b hb
  · exact hroots b hb

/-- Permanent nodes that are in use can be reached. -/
theorem live_permanent (hf : h.Formed) (ha : h.IsBlock a) (hlt : a < h.bottom)
    (hfree : h.tag a ≠ .free) : h.Live roots a :=
  .pending (by simp [hf.mem_permanentRoots.2 ⟨ha, hlt, hfree⟩])

/-- The state of the sweep at the end of a collection. -/
theorem exists_swept (hf : h.Formed) (hroots : ∀ a ∈ roots, h.IsBlock a) :
    ∃ k l reports, Swept h (h.Live roots) k 0 l ∧
      h.collect roots = { k with collections := k.collections + 1, reports } :=
  Heap.exists_swept hf.unmarked hf.toWhole hf.toInterned fun _ => hf.isBlock_of_live hroots

section Swept

variable {l : List Nat} (hf : h.Formed) (hroots : ∀ a ∈ roots, h.IsBlock a)
  (s : Swept h (h.Live roots) k 0 l)
include hf s

/-- What is in use afterwards could be reached. -/
theorem live_of_swept (ha : h.IsBlock a) (hfree : k.tag a ≠ .free) : h.Live roots a := by
  refine Classical.byContradiction fun hlive => ?_
  rcases Nat.lt_or_ge a h.bottom with hlt | hge
  · rw [(s.same hf.toWhole ha (.inr hlt)).tag] at hfree
    exact hlive (hf.live_permanent ha hlt hfree)
  · exact hfree (s.tag_mark ha hlive hge).1

/-- A sweep leaves a formed heap. -/
theorem of_swept : k.Formed := by
  have hblock : ∀ {b : Nat}, k.IsBlock b ↔ h.IsBlock b := IsBlock.congr s.size
  have hunassigned := hf.isBlock_unassigned
  have hpermanent : Heap.unassigned < h.bottom := Nat.lt_of_lt_of_le (by decide) hf.constants_le
  refine ⟨⟨s.whole hf.toWhole, ?_, ?_, ?_, ?_, ?_, ?_, ?_, ?_⟩, s.interned⟩
  · exact fun b hb => s.word_zero (hblock.1 hb)
  · rw [s.bottom]
    exact hf.bottom_mod
  · rw [s.bottom, s.size]
    exact hf.bottom_le
  · rw [s.bottom]
    exact hf.constants_le
  · exact (s.same hf.toWhole hunassigned (.inr hpermanent)).tag.trans hf.unassigned
  · intro b hb
    rw [s.building] at hb
    exact hblock.2 (hf.building b hb)
  · refine ⟨l, ⟨s.chain, s.sorted, fun i hi => ?_, fun i hi => ?_, s.count⟩, fun _ _ => id⟩
    all_goals obtain ⟨-, hlt, hbottom, hlive⟩ := (s.mem_iff i).1 hi
    · rw [s.bottom]
      exact hbottom
    · exact (s.freed i hlt hlive hbottom (Nat.zero_le i)).1
  · intro b hb _
    by_cases hfree : k.tag b = .free
    · exact .of_free hfree
    · have hb' := hblock.1 hb
      have hlive := hf.live_of_swept s hb' hfree
      have hn := hf.nodeFormed hb'
      refine hn.congr (s.same hf.toWhole hb' (.inl hlive)) s.size fun hgroup => ?_
      -- The counter of a wait-group can be reached from it.
      have hrange : (h.header b).childRange = (1, 2) := childRange_of_tag hgroup
      have hcounter := hn.isBlock_counter hgroup
      have hinside := hb'.inside
      have hchild : h.word b 1 ∈ children h.words b :=
        mem_children.2 ⟨hf.ne_vacant hcounter, 1, Nat.le_of_eq (congrArg Prod.fst hrange),
          Nat.lt_of_lt_of_eq Nat.one_lt_two (congrArg Prod.snd hrange).symm,
          Nat.lt_of_lt_of_le (Nat.add_lt_add_left (by decide) b) hinside, rfl⟩
      exact (s.same hf.toWhole hcounter (.inl (.child hlive hchild))).tag

include hroots

theorem reclaims_of_swept : Reclaims h k roots := by
  have hlist : ∀ {a : Nat}, h.IsBlock a → h.tag a = .string →
      ((∀ i ∈ l, addressOf i ≠ a) ↔ h.Live roots a) := by
    intro a ha hstring
    obtain ⟨i, hi, rfl⟩ := ha.exists_index
    constructor
    · intro hnot
      refine Classical.byContradiction fun hlive => ?_
      refine hnot i ((s.mem_iff i).2 ⟨Nat.zero_le i, hi, Nat.not_lt.1 fun hlt => ?_, hlive⟩) rfl
      exact hlive (hf.live_permanent ha hlt (by rw [hstring]; decide))
    · rintro hlive j hj heq
      rw [addressOf_inj heq] at hj
      exact ((s.mem_iff i).1 hj).2.2.2 hlive
  refine ⟨acc_markStep _ _, fun a hlive i hi => ?_, fun a ha => (s.whole hf.toWhole).mark a ((IsBlock.congr s.size).2 ha),
    ⟨l, s.chain, s.sorted, s.count, fun i => ?_, s.lastFreed⟩, fun a ha hlt hlive => ?_, fun t a => ?_,
    fun n t => ?_⟩
  · have ha := hf.isBlock_of_live hroots hlive
    have same := s.same hf.toWhole ha (.inl hlive)
    cases i with
    | zero => rw [s.word_zero ha, same.header, hf.packed a ha]
    | succ i => exact same.word (i + 1) (Nat.succ_le_succ (Nat.zero_le i)) hi
  · rw [s.mem_iff]
    exact ⟨fun h => h.2, fun h => ⟨Nat.zero_le i, h⟩⟩
  · exact Classical.byContradiction fun hfree => hlive (hf.live_permanent ha hlt hfree)
  · rw [s.strings]
    refine and_congr_right fun ht => ?_
    obtain ⟨ha, hstring, -⟩ := hf.node t a ht
    exact hlist ha hstring
  · rw [s.texts]
    refine and_congr_right fun _ => ⟨fun hnot a ha hstring hn => ?_, fun hall i hi hstring hn => ?_⟩
    · refine (hlist ha hstring).1 ?_
      rintro i hi rfl
      exact hnot i hi hstring hn
    · obtain ⟨-, hlt, -, hlive⟩ := (s.mem_iff i).1 hi
      exact hlive (hall _ (isBlock_addressOf.2 hlt) hstring hn)

end Swept

/-- A collection leaves a formed heap. -/
theorem collect (hf : h.Formed) (hroots : ∀ a ∈ roots, h.IsBlock a) : (h.collect roots).Formed := by
  obtain ⟨k, l, reports, s, heq⟩ := hf.exists_swept hroots
  have hk := hf.of_swept s
  rw [heq]
  exact hk.alike ⟨⟨rfl, rfl, rfl, rfl⟩, rfl, rfl, rfl⟩ hk.building

/-- A collection frees exactly the nodes that cannot be reached. -/
theorem reclaims_collect (hf : h.Formed) (hroots : ∀ a ∈ roots, h.IsBlock a) :
    Reclaims h (h.collect roots) roots := by
  obtain ⟨k, l, reports, s, heq⟩ := hf.exists_swept hroots
  have r := hf.reclaims_of_swept hroots s
  have arena : SameArena k { k with collections := k.collections + 1, reports } :=
    ⟨rfl, rfl, rfl, rfl⟩
  rw [heq]
  obtain ⟨l, hchain, hrest⟩ := r.free
  exact ⟨r.ends, r.kept, r.mark, ⟨l, hchain.congr arena.nodeCount fun _ _ => (arena.same _).payload,
    hrest⟩, r.permanent, r.strings, r.texts⟩

end Formed

end ChannelMachine.Heap

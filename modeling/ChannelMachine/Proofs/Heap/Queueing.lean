import Mathlib.Data.List.Nodup
import Mathlib.Data.List.Perm.Subperm
import ChannelMachine.Proofs.Heap.Keeping

/-!
# Channels as queues

A channel is used through its operations, while other nodes are allocated and garbage is collected.
`Queue` says what happened, beside the values that a queue would hold.  The channel behaves as this queue
(`Queue.queueing`): it is bounded, what is first in is first out, and a collection keeps what is in it.
-/

namespace ChannelMachine.Heap

variable {h k : Heap} {a v c : Address} {values : List Address} {capacity : Nat} {roots : Roots}

/-! ## What is in the slots -/

/-- From the slot that is read next on, every slot comes once. -/
theorem perm_ringSlots (hread : h.readSlot a < h.channelSlots a) :
    ((List.range (h.channelSlots a)).map (h.ringSlot a)).Perm (List.range (h.channelSlots a)) := by
  have hnodup : ((List.range (h.channelSlots a)).map (h.ringSlot a)).Nodup := by
    refine List.Nodup.map_on (fun i hi j hj heq => ?_) List.nodup_range
    exact (ringSlot_inj hread (List.mem_range.1 hi) (List.mem_range.1 hj)).1 heq
  refine (hnodup.subperm fun i hi => ?_).perm_of_length_le (by simp)
  obtain ⟨j, -, rfl⟩ := List.mem_map.1 hi
  exact List.mem_range.2 (ringSlot_lt hread j)

namespace Ring

variable (ring : Ring h a values)
include ring

/-- In the order of the slots, the values come in another order than in the queue. -/
theorem perm_slots : ((List.range (h.channelSlots a)).map (h.channelSlot a)).Perm
    (values ++ .replicate (h.channelSlots a - values.length) vacant) := by
  rw [← ring.map_slots]
  have hperm := (perm_ringSlots ring.read).symm.map (h.channelSlot a)
  rwa [List.map_map] at hperm

theorem mem_iff : c ∈ values ↔ c ≠ vacant ∧ ∃ i < h.channelSlots a, h.channelSlot a i = c := by
  have hmem := ring.perm_slots.mem_iff (a := c)
  simp only [List.mem_map, List.mem_range, List.mem_append, List.mem_replicate] at hmem
  rw [hmem]
  constructor
  · exact fun hc => ⟨ring.taken c hc, .inl hc⟩
  · rintro ⟨hne, hc | ⟨-, heq⟩⟩
    · exact hc
    · exact absurd heq hne

theorem channelLength_eq (ha : h.IsBlock a) (hle : ringStart + h.channelSlots a ≤ nodeSize) :
    h.channelLength a = values.length := by
  have htaken : values.countP (· != vacant) = values.length :=
    List.countP_eq_length.2 fun w hw => bne_iff_ne.2 (ring.taken w hw)
  have hvacant : (List.replicate (h.channelSlots a - values.length) vacant).countP (· != vacant) = 0 := by
    simp [List.countP_replicate]
  have hinside := ha.inside
  calc h.channelLength a
      = (List.range (h.channelSlots a)).countP (fun i => h.channelSlot a i != vacant) :=
        Heap.channelLength_eq (by omega)
    _ = ((List.range (h.channelSlots a)).map (h.channelSlot a)).countP (· != vacant) := by
        rw [List.countP_map]
        rfl
    _ = values.length := by
        rw [ring.perm_slots.countP_eq, List.countP_append, htaken, hvacant, Nat.add_zero]

end Ring

/-! ## Queues -/

/-- What happened to a channel since it was made, and the values that a queue would hold now. -/
inductive Queue (capacity : Nat) (a : Address) : Heap → List Address → Prop where
  /-- The channel is new. -/
  | made {h k : Heap} {roots : Roots} (handled : Handled h) (hroots : ∀ b ∈ roots.get, h.InUse b)
      (hmade : newChannel capacity roots h = .ok a k) : Queue capacity a k []
  /-- A value is put into the channel, which is not full. -/
  | push {h : Heap} {values : List Address} {v : Address} (queue : Queue capacity a h values)
      (hroom : h.isFull a = false) (hv : h.InUse v) :
      Queue capacity a (h.channelPush a v) (values ++ [v])
  /-- A value is taken out of the channel, which is not empty. -/
  | pop {h : Heap} {values : List Address} (queue : Queue capacity a h values)
      (hsome : h.isEmpty a = false) : Queue capacity a (h.channelPop a) values.tail
  /-- An element kind is recorded. -/
  | setElementKind {h : Heap} {values : List Address} (kind : Tag) (queue : Queue capacity a h values) :
      Queue capacity a (h.setElementKind a kind) values
  /-- Something is allocated, or garbage is collected.  The channel is kept. -/
  | take {h k : Heap} {values : List Address} {roots : Roots} (queue : Queue capacity a h values)
      (hroots : ∀ b ∈ roots.get, h.InUse b) (hlive : h.Live roots.get a) (takes : Takes h roots k) :
      Queue capacity a k values

/-- A channel with these values in its ring. -/
structure Queued (capacity : Nat) (a : Address) (h : Heap) (values : List Address) : Prop where
  /-- The heap is formed. -/
  formed : h.Formed
  /-- What is in use leads to nodes in use. -/
  closed : h.Closed
  /-- The channel is in use. -/
  inUse : h.InUse a
  /-- It is a channel. -/
  tag : h.tag a = .channel
  /-- It has its slots. -/
  slots : h.channelSlots a = max capacity 1
  /-- It is unbuffered if it was made so. -/
  unbuffered : h.isUnbuffered a = (capacity == 0)
  /-- The values are in its slots. -/
  ring : Ring h a values

namespace Queued

section Facts

variable (queued : Queued capacity a h values)
include queued

theorem bounds : ringStart + h.channelSlots a ≤ nodeSize ∧ h.size a = ringStart + h.channelSlots a ∧
    h.writeSlot a < h.channelSlots a ∧ h.readSlot a < h.channelSlots a := by
  have node := queued.formed.nodeFormed queued.inUse.toIsBlock
  obtain ⟨hsize, hbounds⟩ := node.ring queued.tag
  have hrange := node.range
  rw [childRange_channel queued.tag] at hrange
  exact ⟨hsize ▸ hrange, hsize, hbounds⟩

/-- A collection finds the values, and nothing else. -/
theorem mem_children : c ∈ children h.words a ↔ c ∈ values := by
  obtain ⟨hle, hsize, -⟩ := queued.bounds
  have hinside := queued.inUse.inside
  have hrange : (Header.unpack (h.words.getD a 0)).childRange = (ringStart, h.size a) :=
    childRange_channel queued.tag
  rw [Heap.mem_children, queued.ring.mem_iff, hrange, hsize]
  refine and_congr_right fun _ => ⟨?_, ?_⟩
  · rintro ⟨i, hlo, hhi, -, heq⟩
    refine ⟨i - ringStart, by omega, ?_⟩
    rw [channelSlot, word, Nat.add_sub_cancel' hlo, heq]
  · rintro ⟨i, hi, heq⟩
    exact ⟨ringStart + i, Nat.le_add_right .., Nat.add_lt_add_left hi _, by omega, heq⟩

theorem inUse_value (hv : v ∈ values) : h.InUse v :=
  queued.closed.child a queued.inUse v (queued.mem_children.2 hv)

/-- A channel that is kept keeps its values, and what they lead to. -/
theorem live_value {roots : List Address} (hlive : h.Live roots a) (hv : h.Live values v) :
    h.Live roots v := by
  refine Reach.trans hv fun b hb => ?_
  simp only [List.mem_append, List.mem_reverse] at hb
  rcases hb with (hb | hb) | hb
  · exact .pending (by simp [hb])
  · exact Live.building hb
  · exact .child hlive (queued.mem_children.2 hb)

end Facts

/-! ## Steps -/

theorem of_made (handled : Handled h) (hroots : ∀ b ∈ roots.get, h.InUse b)
    (hmade : newChannel capacity roots h = .ok a k) : Queued capacity a k [] := by
  obtain ⟨hf, hc⟩ := handled.formed_closed
  have made := (hc.keeps_newChannel hf hroots capacity).of_ok hmade
  obtain ⟨-, hin, htag, hslots, ring, hunbuffered⟩ := made
  have hformed := (hf.ensures_newChannel (fun b hb => (hroots b hb).toIsBlock) capacity).of_ok hmade
  have hclosed := (hc.ensures_newChannel hf hroots capacity).of_ok hmade
  exact ⟨hformed, hclosed, hin, htag, hslots, hunbuffered, ring⟩

section Steps

variable (queued : Queued capacity a h values)
include queued

/-- An operation that leaves the kind of the node, the number of slots and the flag as they are. -/
theorem next {later : List Address} (hf : k.Formed) (hc : k.Closed) (hsize : k.words.size = h.words.size)
    (htag : k.tag a = h.tag a) (hunbuffered : k.isUnbuffered a = h.isUnbuffered a)
    (hslots : k.channelSlots a = h.channelSlots a) (ring : Ring k a later) :
    Queued capacity a k later :=
  ⟨hf, hc, (InUse.congr hsize htag).2 queued.inUse, htag.trans queued.tag, hslots.trans queued.slots,
    hunbuffered.trans queued.unbuffered, ring⟩

/-- One that leaves the header as it is. -/
theorem handle {later : List Address} (handles : Handles h k) (hsize : k.words.size = h.words.size)
    (hheader : k.header a = h.header a) (hslots : k.channelSlots a = h.channelSlots a)
    (ring : Ring k a later) : Queued capacity a k later :=
  queued.next ((handles.operates queued.closed queued.formed).formed queued.formed)
    (handles.closed queued.closed queued.formed) hsize (congrArg Header.tag hheader)
    (isUnbuffered_congr hheader) hslots ring

theorem push (hroom : h.isFull a = false) (hv : h.InUse v) :
    Queued capacity a (h.channelPush a v) (values ++ [v]) := by
  obtain ⟨hle, -, hwrite, -⟩ := queued.bounds
  have ha := queued.inUse.toIsBlock
  have hlt : values.length < h.channelSlots a :=
    Nat.lt_of_le_of_ne queued.ring.fits (queued.ring.isFull_iff.not.1 (by simp [hroom]))
  obtain ⟨hslots, ring⟩ := queued.ring.push ha hle hlt (queued.formed.ne_vacant hv.toIsBlock)
  exact queued.handle (.channelPush a v queued.inUse queued.tag hv)
      ((size_words_setWord ..).trans (size_words_setWord ..))
    (header_channelPush ha (by omega) v) hslots ring

theorem pop (hsome : h.isEmpty a = false) : Queued capacity a (h.channelPop a) values.tail := by
  obtain ⟨hle, -, -, hread⟩ := queued.bounds
  have ha := queued.inUse.toIsBlock
  match values, queued with
  | [], queued => simp [queued.ring.isEmpty_iff.2 rfl] at hsome
  | v :: rest, queued =>
    obtain ⟨hslots, ring⟩ := queued.ring.pop ha hle
    exact queued.handle (.channelPop a queued.inUse queued.tag)
      ((size_words_setWord ..).trans (size_words_setWord ..))
      (header_channelPop ha (by omega)) hslots ring

theorem setElementKind (kind : Tag) : Queued capacity a (h.setElementKind a kind) values := by
  have ha := queued.inUse.toIsBlock
  have hslots : (h.setElementKind a kind).channelSlots a = h.channelSlots a :=
    word_setElementKind ha kind (by decide) (by decide)
  have htag : (h.setElementKind a kind).tag a = h.tag a := by
    rw [Heap.tag, Heap.setElementKind, header_setPayload ha]
    rfl
  exact queued.next (queued.formed.setPayload ha queued.inUse.tag_ne _)
    (queued.closed.setPayload queued.inUse _) (writes_setPayload ha _).size htag
    (isUnbuffered_setElementKind ha kind) hslots (queued.ring.setElementKind ha queued.bounds.1 kind)

theorem take (hroots : ∀ b ∈ roots.get, h.InUse b) (hlive : h.Live roots.get a) (takes : Takes h roots k) :
    Queued capacity a k values := by
  have keeps := takes.keeps queued.closed queued.formed hroots
  have same := keeps.node a hlive
  exact queued.handle (takes.handles hroots) keeps.size same.header (same.word 1 (by decide) (by decide))
    (queued.ring.same queued.bounds.1 same)

end Steps

end Queued

theorem Queue.queued (queue : Queue capacity a h values) : Queued capacity a h values := by
  induction queue with
  | made handled hroots hmade => exact .of_made handled hroots hmade
  | push _ hroom hv ih => exact ih.push hroom hv
  | pop _ hsome ih => exact ih.pop hsome
  | setElementKind kind _ ih => exact ih.setElementKind kind
  | take _ hroots hlive takes ih => exact ih.take hroots hlive takes

/-! ## The law -/

/-- The channel behaves as a queue of these values. -/
structure Queueing (capacity : Nat) (a : Address) (h : Heap) (values : List Address) : Prop where
  /-- There are not more than it may have. -/
  bounded : values.length ≤ max capacity 1
  /-- They are counted. -/
  length : h.channelLength a = values.length
  /-- It is full when there are as many as it may have. -/
  full : h.isFull a = true ↔ values.length = max capacity 1
  /-- It is empty when there are none. -/
  empty : h.isEmpty a = true ↔ values.length = 0
  /-- The oldest one is taken out first. -/
  front : ∀ v rest, values = v :: rest → h.channelFront a = v
  /-- Its capacity is the one it was made with. -/
  slots : h.channelSlots a = max capacity 1
  /-- It is unbuffered if it was made so. -/
  unbuffered : h.isUnbuffered a = (capacity == 0)
  /-- A collection finds the values in it, and nothing else. -/
  children : ∀ v, v ∈ Heap.children h.words a ↔ v ∈ values
  /-- The values are in use. -/
  inUse : ∀ v ∈ values, h.InUse v
  /-- As long as the channel is kept, allocations and collections change neither the values nor what
  they lead to. -/
  intact : ∀ roots k, (∀ b ∈ roots.get, h.InUse b) → h.Live roots.get a → Takes h roots k →
    Keeps h k (h.Live values)

/-- Whatever happened to a channel, it behaves as the queue. -/
theorem Queue.queueing (queue : Queue capacity a h values) : Queueing capacity a h values := by
  have queued := queue.queued
  have hslots := queued.slots
  have hfits := queued.ring.fits
  refine ⟨hslots ▸ hfits, ?_, ?_, ?_, ?_, hslots, queued.unbuffered, fun v => queued.mem_children,
    fun v => queued.inUse_value, ?_⟩
  · exact queued.ring.channelLength_eq queued.inUse.toIsBlock queued.bounds.1
  · rw [queued.ring.isFull_iff, hslots]
  · rw [queued.ring.isEmpty_iff, List.length_eq_zero_iff]
  · rintro v rest rfl
    exact queued.ring.front rfl
  · intro roots k hroots hlive takes
    exact (takes.keeps queued.closed queued.formed hroots).mono fun v => queued.live_value hlive

/-- A channel is kept. -/
def kept : Roots := ⟨fun _ => [50]⟩

/-- Two numbers are in a channel for two.  The first one was taken out and put in again. -/
def turned : Heap :=
  let made := leaves (newChannel 2 noRoots) ten
  let first := leaves (newNumber ⟨0x3ff0000000000000⟩ kept) made
  let second := leaves (newNumber ⟨0x4000000000000000⟩ kept) (first.channelPush 50 60)
  (((second.channelPush 50 70).channelPop 50).channelPush 50 60).collect [50]

theorem queue_turned : Queue 2 50 turned [70, 60] := by
  have hten : Handled ten := .create (create_eq (by decide +kernel))
  have hnone : ∀ b ∈ noRoots.get, ten.InUse b := fun b hb => nomatch hb
  have hroots {h : Heap} (hin : h.InUse 50) : ∀ b ∈ kept.get, h.InUse b := by
    intro b hb
    obtain rfl := List.mem_singleton.1 hb
    exact hin
  have hlive {h : Heap} : h.Live kept.get 50 := .root (List.mem_singleton_self 50)
  have made : Queue 2 50 _ [] := .made hten hnone (eq_ok_leaves (by decide +kernel))
  have first := made.take (hroots made.queued.inUse) hlive (.newNumber ⟨0x3ff0000000000000⟩)
  have pushed := first.push (v := 60) (by decide +kernel)
    ⟨⟨by decide, by decide +kernel⟩, by decide +kernel⟩
  have second := pushed.take (hroots pushed.queued.inUse) hlive (.newNumber ⟨0x4000000000000000⟩)
  have both := second.push (v := 70) (by decide +kernel)
    ⟨⟨by decide, by decide +kernel⟩, by decide +kernel⟩
  have again := (both.pop (by decide +kernel)).push (v := 60) (by decide +kernel)
    ⟨⟨by decide, by decide +kernel⟩, by decide +kernel⟩
  exact again.take (hroots again.queued.inUse) hlive .collect

theorem queueing_turned : Queue 2 50 turned [70, 60] ∧ Queueing 2 50 turned [70, 60] :=
  ⟨queue_turned, queue_turned.queueing⟩

end ChannelMachine.Heap

import ChannelMachine.Proofs.Heap.Updating
import ChannelMachine.Proofs.Machine.Actions

/-!
# Sound machines

A machine is sound if its heap is, if nothing is being built, and if the registers of all threads
hold what they should: values on the stack, an environment, and frames to return to, all of them
nodes in use.  A sound machine stays sound when its heap grows, because the registers of all
threads are roots, and when a node is updated.
-/

namespace ChannelMachine

/-- A value in use. -/
def Heap.IsValue (h : Heap) (a : Address) : Prop := h.InUse a ∧ (h.tag a).isValue = true

/-- The registers of a thread hold what they should. -/
structure Registers.Sound (r : Registers) (h : Heap) : Prop where
  /-- The operands are values. -/
  stack : ∀ a ∈ r.stack, h.IsValue a
  /-- The environment is in use. -/
  inUse : h.InUse r.environment
  /-- The environment is one. -/
  tag : h.tag r.environment = .environment
  /-- The frames to return to are block frames and call frames. -/
  frames : ∀ a ∈ r.frames, h.InUse a ∧ (h.tag a = .blockframe ∨ h.tag a = .callframe)

namespace Registers

theorem mem_roots {r : Registers} {a : Address} :
    a ∈ r.roots ↔ a ∈ r.stack ∨ a = r.environment ∨ a ∈ r.frames := by
  simp [roots]

theorem Sound.inUse_root {r : Registers} {h : Heap} (hr : r.Sound h) :
    ∀ a ∈ r.roots, h.InUse a := by
  intro a ha
  rcases mem_roots.1 ha with ha | rfl | ha
  · exact (hr.stack a ha).1
  · exact hr.inUse
  · exact (hr.frames a ha).1

/-- Registers are sound in any heap in which their nodes are still in use and of their kinds. -/
theorem Sound.transport {r : Registers} {h k : Heap} (hr : r.Sound h)
    (hroots : ∀ a ∈ r.roots, k.InUse a ∧ k.tag a = h.tag a) : r.Sound k where
  stack := by
    intro a ha
    obtain ⟨hin, htag⟩ := hroots a (mem_roots.2 (.inl ha))
    exact ⟨hin, htag.symm ▸ (hr.stack a ha).2⟩
  inUse := (hroots _ (mem_roots.2 (.inr (.inl rfl)))).1
  tag := (hroots _ (mem_roots.2 (.inr (.inl rfl)))).2.trans hr.tag
  frames := by
    intro a ha
    obtain ⟨hin, htag⟩ := hroots a (mem_roots.2 (.inr (.inr ha)))
    exact ⟨hin, htag.symm ▸ (hr.frames a ha).2⟩

end Registers

/-- The registers of the threads that do not run hold what they should. -/
def ThreadTable.Sound (threads : ThreadTable) (h : Heap) : Prop :=
  ∀ (t : ThreadId) (r : Registers), threads[t]? = some r → r.Sound h

/-- The roots of a machine are those of the registers and those of the threads. -/
theorem mem_threadRoots {registers : Registers} {threads : ThreadTable} {a : Address} :
    a ∈ threadRoots registers threads ↔
      a ∈ registers.roots ∨ ∃ (t : ThreadId) (r : Registers), threads[t]? = some r ∧ a ∈ r.roots := by
  simp only [threadRoots, List.mem_append, List.mem_flatMap, Prod.exists,
    Std.TreeMap.mem_toList_iff_getElem?_eq_some]

namespace Machine

/-- The heap and the registers of the threads that do not run are sound. -/
structure Resting (m : Machine) : Prop where
  /-- The heap. -/
  heap : m.heap.Sound
  /-- Nothing is being built. -/
  building : m.heap.building = []
  /-- The registers of the threads that do not run. -/
  threads : m.threads.Sound m.heap

/-- The heap and the registers of all threads are sound. -/
structure Sound (m : Machine) : Prop extends Resting m where
  /-- The registers of the running thread. -/
  registers : m.registers.Sound m.heap

/-- The roots stay what they are in a heap that has grown. -/
theorem withHeap_root {m : Machine} (hroots : ∀ a ∈ m.roots, m.heap.InUse a) {k : Heap}
    (g : Heap.Grows m.heap k m.roots) {a : Address} (ha : a ∈ m.roots) :
    (m.withHeap k).heap.InUse a ∧ (m.withHeap k).heap.tag a = m.heap.tag a := by
  have alike := alike_withHeap m k
  exact ⟨alike.inUse.2 (g.inUse_root hroots ha),
    (alike.tag a).trans (g.toKeeps.tag (.root ha))⟩

namespace Resting

variable {m : Machine}

/-- A machine is sound on any sound heap in which the roots are still in use and of their
kinds. -/
theorem transport {k : Machine} (hm : m.Resting) (hheap : k.heap.Sound)
    (hbuilding : k.heap.building = []) (hthreads : k.threads = m.threads)
    (hroots : ∀ a ∈ m.roots, k.heap.InUse a ∧ k.heap.tag a = m.heap.tag a) : k.Resting where
  heap := hheap
  building := hbuilding
  threads := by
    intro t r hr
    rw [hthreads] at hr
    exact (hm.threads t r hr).transport fun a ha =>
      hroots a (mem_threadRoots.2 (.inr ⟨t, r, hr, ha⟩))

theorem withHeap (hm : m.Resting) (hroots : ∀ a ∈ m.roots, m.heap.InUse a) {k : Heap}
    (g : Heap.Grows m.heap k m.roots) : (m.withHeap k).Resting := by
  have hbuilding : (m.withHeap k).heap.building = [] :=
    (building_withHeap m k).trans (g.building.trans hm.building)
  refine hm.transport (g.sound.alike (alike_withHeap m k) ?_) hbuilding rfl fun a ha =>
    withHeap_root hroots g ha
  rw [hbuilding]
  exact fun _ h => nomatch h

end Resting

namespace Sound

variable {m : Machine}

theorem inUse_root (hm : m.Sound) : ∀ a ∈ m.roots, m.heap.InUse a := by
  intro a ha
  rcases mem_threadRoots.1 ha with ha | ⟨t, r, hr, ha⟩
  · exact hm.registers.inUse_root a ha
  · exact (hm.threads t r hr).inUse_root a ha

theorem inUse_roots (hm : m.Sound) :
    ∀ a ∈ Thunk.get (threadRoots m.registers m.threads : Roots), m.heap.InUse a :=
  hm.inUse_root

/-- Only the heap, the registers and the thread table count. -/
theorem congr {k : Machine} (hm : m.Sound) (hheap : k.heap = m.heap)
    (hregisters : k.registers = m.registers) (hthreads : k.threads = m.threads) : k.Sound := by
  refine ⟨⟨hheap ▸ hm.heap, hheap ▸ hm.building, ?_⟩, ?_⟩
  · rw [hheap, hthreads]
    exact hm.threads
  · rw [hheap, hregisters]
    exact hm.registers

/-- A machine is sound on any sound heap in which the roots are still in use and of their
kinds. -/
theorem transport {k : Machine} (hm : m.Sound) (hheap : k.heap.Sound)
    (hbuilding : k.heap.building = []) (hregisters : k.registers = m.registers)
    (hthreads : k.threads = m.threads)
    (hroots : ∀ a ∈ m.roots, k.heap.InUse a ∧ k.heap.tag a = m.heap.tag a) : k.Sound where
  toResting := hm.toResting.transport hheap hbuilding hthreads hroots
  registers := by
    rw [hregisters]
    exact hm.registers.transport fun a ha => hroots a (mem_threadRoots.2 (.inl ha))

theorem withHeap (hm : m.Sound) {k : Heap} (g : Heap.Grows m.heap k m.roots) :
    (m.withHeap k).Sound where
  toResting := hm.toResting.withHeap hm.inUse_root g
  registers := hm.registers.transport fun _ ha =>
    withHeap_root hm.inUse_root g (mem_threadRoots.2 (.inl ha))

theorem updated (hm : m.Sound) {k : Heap} {a : Address} (u : Heap.Updated m.heap k a) :
    ({ m with heap := k } : Machine).Sound := by
  refine hm.transport u.sound (u.toWrites.building.trans hm.building) rfl rfl fun b hb => ?_
  have hin := hm.inUse_root b hb
  exact ⟨u.inUse hin, u.tag hin.toIsBlock⟩

theorem withHeap_updated (hm : m.Sound) {k : Heap} {a : Address}
    (u : Heap.Updated m.heap k a) : (m.withHeap k).Sound := by
  have alike := alike_withHeap m k
  have hbuilding : (m.withHeap k).heap.building = [] :=
    (building_withHeap m k).trans (u.toWrites.building.trans hm.building)
  refine hm.transport (u.sound.alike alike ?_) hbuilding rfl rfl fun b hb => ?_
  · rw [hbuilding]
    exact fun _ h => nomatch h
  · have hin := hm.inUse_root b hb
    exact ⟨alike.inUse.2 (u.inUse hin), (alike.tag b).trans (u.tag hin.toIsBlock)⟩

theorem withRegisters (hm : m.Sound) {r : Registers} (hr : r.Sound m.heap) :
    (m.withRegisters r).Sound :=
  ⟨⟨hm.heap, hm.building, hm.threads⟩, hr⟩

theorem noted (hm : m.Sound) (e : Event) : (m.note e).Sound := by
  unfold Machine.note
  split
  · exact hm.congr rfl rfl rfl
  · exact hm

theorem moved (hm : m.Sound) (pc : Nat) :
    (m.withRegisters { m.registers with pc }).Sound :=
  hm.withRegisters ⟨hm.registers.stack, hm.registers.inUse, hm.registers.tag, hm.registers.frames⟩

theorem pushed (hm : m.Sound) {a : Address} (ha : m.heap.IsValue a) :
    (m.withRegisters { m.registers with stack := a :: m.registers.stack }).Sound := by
  refine hm.withRegisters ⟨?_, hm.registers.inUse, hm.registers.tag, hm.registers.frames⟩
  intro b hb
  rcases List.mem_cons.1 hb with rfl | hb
  · exact ha
  · exact hm.registers.stack b hb

theorem replaced (hm : m.Sound) (n : Nat) {a : Address} (ha : m.heap.IsValue a) :
    (m.withRegisters { m.registers with stack := a :: m.registers.stack.drop n }).Sound := by
  refine hm.withRegisters ⟨?_, hm.registers.inUse, hm.registers.tag, hm.registers.frames⟩
  intro b hb
  rcases List.mem_cons.1 hb with rfl | hb
  · exact ha
  · exact hm.registers.stack b (List.mem_of_mem_drop hb)

/-- The nodes that live in the heap of a sound machine are in use. -/
theorem inUse_of_live (hm : m.Sound) {a : Address} (ha : m.heap.Live m.roots a) :
    m.heap.InUse a :=
  hm.heap.inUse_of_live hm.inUse_root ha

theorem live_root {a : Address} (ha : a ∈ m.registers.roots) : m.heap.Live m.roots a :=
  .root (mem_threadRoots.2 (.inl ha))

theorem live_stack {a : Address} (ha : a ∈ m.registers.stack) : m.heap.Live m.roots a :=
  live_root (Registers.mem_roots.2 (.inl ha))

theorem live_environment : m.heap.Live m.roots m.registers.environment :=
  live_root (Registers.mem_roots.2 (.inr (.inl rfl)))

end Sound

end Machine

/-! ## Constants -/

namespace Heap

theorem Intact.isValue_boolean {h : Heap} (hi : h.Intact) (b : Bool) : h.IsValue (boolean b) := by
  cases b
  · exact ⟨hi.constant_inUse (i := 0) rfl, by rw [hi.tag_boolean]; rfl⟩
  · exact ⟨hi.constant_inUse (i := 1) rfl, by rw [hi.tag_boolean]; rfl⟩

theorem Intact.isValue_null {h : Heap} (hi : h.Intact) : h.IsValue null :=
  ⟨hi.constant_inUse (i := 2) rfl, by rw [hi.tag_null]; rfl⟩

theorem Intact.isValue_undefined {h : Heap} (hi : h.Intact) : h.IsValue undefined :=
  ⟨hi.constant_inUse (i := 4) rfl, by rw [hi.tag_undefined]; rfl⟩

/-- The child of a block or call frame is an environment. -/
theorem Sound.word_block {h : Heap} (hs : h.Sound) {a : Nat} (ha : h.InUse a)
    (htag : h.tag a = .blockframe ∨ h.tag a = .callframe) :
    h.InUse (h.word a 1) ∧ h.tag (h.word a 1) = .environment := by
  have hrange : (h.header a).childRange = (1, 2) := by
    rcases htag with htag | htag
    · exact childRange_of_tag htag
    · exact childRange_of_tag htag
  have hchild := (hs.typed a ha).child 1 (Nat.le_of_eq (congrArg Prod.fst hrange))
    (by rw [hrange]; decide)
  rcases htag with htag | htag
  all_goals
    rw [htag] at hchild
    rcases hchild with ⟨hchannel, -⟩ | ⟨hin, hadmits⟩
    · cases hchannel
    · exact ⟨hin, hadmits⟩

/-- The environment of a frame to return to is live if the frame is. -/
theorem Sound.live_block {h : Heap} (hs : h.Sound) {roots : List Address} {a : Address}
    (ha : h.InUse a) (htag : h.tag a = .blockframe ∨ h.tag a = .callframe) (hlive : h.Live roots a) :
    h.Live roots (h.word a 1) := by
  have hrange : (h.header a).childRange = (1, 2) := by
    rcases htag with htag | htag
    · exact childRange_of_tag htag
    · exact childRange_of_tag htag
  refine .child hlive (mem_children_of_inUse hs.toIntact (hs.typed a ha) ha.toIsBlock ?_ ?_
    (hs.word_block ha htag).1)
  · exact Nat.le_of_eq (congrArg Prod.fst hrange)
  · rw [hrange]
    decide

/-- The environment that a function keeps is one, and is live if the function is. -/
theorem Sound.word_closure {h : Heap} (hs : h.Sound) {a : Nat} (ha : h.InUse a)
    (htag : h.tag a = .closure) :
    h.tag (h.word a 2) = .environment ∧
      ∀ roots : List Address, h.Live roots a → h.Live roots (h.word a 2) := by
  have hrange : (h.header a).childRange = (2, 3) := childRange_of_tag htag
  have hlo : (h.header a).childRange.1 ≤ 2 := Nat.le_of_eq (congrArg Prod.fst hrange)
  have hhi : 2 < (h.header a).childRange.2 := by
    rw [hrange]
    decide
  have hchild := (hs.typed a ha).child 2 hlo hhi
  rw [htag] at hchild
  rcases hchild with ⟨hchannel, -⟩ | ⟨hin, hadmits⟩
  · cases hchannel
  · exact ⟨hadmits, fun roots hl => .child hl
      (mem_children_of_inUse hs.toIntact (hs.typed a ha) ha.toIsBlock hlo hhi hin)⟩

end Heap

end ChannelMachine

import ChannelMachine.Proofs.Machine.Safety
import ChannelMachine.Proofs.Pairing.Frames
import ChannelMachine.Proofs.Pairing.Making
import ChannelMachine.Proofs.Pairing.Writing

/-!
# Machines that differ in addresses

Two machines are twins under a pairing if their heaps are matched, if the registers of their
threads hold partners, and if everything else that a program can see is the same.  The queues of
channels and wait-groups are kept by address, so only those of partners have to agree.  The return
stacks of the running threads are compared on a footing, and the first one may have spent frames.

The larger heap belongs to the second machine.
-/

namespace ChannelMachine

open Heap (Pairing Partners)

/-- Two threads at the same instruction whose registers hold partners. -/
structure Registers.Matches (ρ : Pairing) (r s : Registers) : Prop where
  stack : Partners ρ r.stack s.stack
  pc : s.pc = r.pc
  environment : ρ r.environment s.environment
  frames : Partners ρ r.frames s.frames

/-- Two threads at the same instruction whose registers hold partners, but for spent frames of the
first one. -/
structure Registers.Follows (f : Footing) (ρ : Pairing) (h : Heap) (r s : Registers) : Prop where
  stack : Partners ρ r.stack s.stack
  pc : s.pc = r.pc
  environment : ρ r.environment s.environment
  frames : f.Stands ρ h r.frames s.frames

/-- What an instruction means for two threads is the same. -/
def Progress.Matches (ρ : Pairing) : Progress → Progress → Prop
  | .finished a, .finished b => ρ a b
  | p, q => q = p

namespace Registers.Matches

variable {ρ σ : Pairing} {r s : Registers}

theorem imp (hrs : r.Matches ρ s) (h : ∀ a b, b ∈ s.roots → ρ a b → σ a b) : r.Matches σ s where
  stack := hrs.stack.imp fun a b hb => h a b (mem_roots.2 (.inl hb))
  pc := hrs.pc
  environment := h _ _ (mem_roots.2 (.inr (.inl rfl))) hrs.environment
  frames := hrs.frames.imp fun a b hb => h a b (mem_roots.2 (.inr (.inr hb)))

theorem covers (hrs : r.Matches ρ s) : ρ.Covers r.roots s.roots := by
  intro b hb
  rcases mem_roots.1 hb with hb | rfl | hb
  · obtain ⟨a, ha, hab⟩ := hrs.stack.covers b hb
    exact ⟨a, mem_roots.2 (.inl ha), hab⟩
  · exact ⟨_, mem_roots.2 (.inr (.inl rfl)), hrs.environment⟩
  · obtain ⟨a, ha, hab⟩ := hrs.frames.covers b hb
    exact ⟨a, mem_roots.2 (.inr (.inr ha)), hab⟩

theorem follows (hrs : r.Matches ρ s) (h : Heap) : r.Follows .plain ρ h s :=
  ⟨hrs.stack, hrs.pc, hrs.environment, Footing.stands_of_partners hrs.frames⟩

end Registers.Matches

namespace Registers.Follows

variable {f : Footing} {ρ σ : Pairing} {h k : Heap} {r s : Registers}

theorem imp (hrs : r.Follows f ρ h s) (hρ : ∀ a b, b ∈ s.roots → ρ a b → σ a b)
    (same : h.SameFrames k r.frames) : r.Follows f σ k s where
  stack := hrs.stack.imp fun a b hb => hρ a b (mem_roots.2 (.inl hb))
  pc := hrs.pc
  environment := hρ _ _ (mem_roots.2 (.inr (.inl rfl))) hrs.environment
  frames := hrs.frames.imp (fun a b hb => hρ a b (mem_roots.2 (.inr (.inr hb)))) same

theorem covers (hrs : r.Follows f ρ h s) : ρ.Covers r.roots s.roots := by
  intro b hb
  rcases mem_roots.1 hb with hb | rfl | hb
  · obtain ⟨a, ha, hab⟩ := hrs.stack.covers b hb
    exact ⟨a, mem_roots.2 (.inl ha), hab⟩
  · exact ⟨_, mem_roots.2 (.inr (.inl rfl)), hrs.environment⟩
  · obtain ⟨a, ha, hab⟩ := hrs.frames.covers b hb
    exact ⟨a, mem_roots.2 (.inr (.inr ha)), hab⟩

theorem matches_plain (hrs : r.Follows .plain ρ h s) : r.Matches ρ s :=
  ⟨hrs.stack, hrs.pc, hrs.environment, hrs.frames.partners⟩

end Registers.Follows

namespace Machine

/-- Two machines that a program cannot tell apart, but for spent frames. -/
structure Twins (f : Footing) (ρ : Pairing) (m k : Machine) : Prop extends
    Heap.Matched ρ m.heap k.heap where
  count : m.heap.nodeCount ≤ k.heap.nodeCount
  registers : m.registers.Follows f ρ m.heap k.registers
  threads : ∀ t : ThreadId, Option.Rel (Registers.Matches ρ) m.threads[t]? k.threads[t]?
  current : k.current = m.current
  nextThread : k.nextThread = m.nextThread
  channels : ∀ a b, ρ a b → m.heap.tag a = .channel → k.channels.get b = m.channels.get a
  groups : ∀ a b, ρ a b → m.heap.tag a = .waitGroup → k.groups.get b = m.groups.get a
  runnable : k.runnable = m.runnable
  builtins : k.builtins = m.builtins
  output : k.output = m.output
  typedChannels : k.typedChannels = m.typedChannels

namespace Twins

variable {f : Footing} {ρ σ new : Pairing} {m k : Machine}

theorem covers (t : Twins f ρ m k) : ρ.Covers m.roots k.roots := by
  intro b hb
  rcases mem_threadRoots.1 hb with hb | ⟨u, s, hs, hb⟩
  · obtain ⟨a, ha, hab⟩ := t.registers.covers b hb
    exact ⟨a, mem_threadRoots.2 (.inl ha), hab⟩
  · have hrel := t.threads u
    rw [hs] at hrel
    generalize hr : m.threads[u]? = r at hrel
    cases hrel with
    | some hrs =>
      obtain ⟨a, ha, hab⟩ := hrs.covers b hb
      exact ⟨a, mem_threadRoots.2 (.inr ⟨u, _, hr, ha⟩), hab⟩

theorem paired (t : Twins f ρ m k) (hm : m.Resting) (hroots : ∀ a ∈ m.roots, m.heap.InUse a)
    (hk : k.Resting) : Heap.Paired ρ m.heap k.heap m.roots k.roots where
  toMatched := t.toMatched
  left := hm.heap
  right := hk.heap
  left_roots := hroots
  roots := t.covers
  building := by
    rw [hk.building]
    exact fun b hb => absurd hb List.not_mem_nil

theorem mem_stack (t : Twins f ρ m k) {a b : Address} (ha : a ∈ m.registers.stack) (hab : ρ a b) :
    b ∈ k.registers.stack := by
  obtain ⟨b', hb', hab'⟩ := t.registers.stack.exists_right ha
  obtain rfl := t.right_unique a b b' hab hab'
  exact hb'

/-! ## Steps of twins -/

/-- Twins stay twins under any pairing that keeps their roots and knows no other channels and
wait-groups. -/
theorem transport {m' k' : Machine} (t : Twins f ρ m k) (hheap : Heap.Matched σ m'.heap k'.heap)
    (hcount : m'.heap.nodeCount ≤ k'.heap.nodeCount) (hm : m' = { m with
      heap := m'.heap, channels := m'.channels, groups := m'.groups, journal := m'.journal })
    (hk : k' = { k with
      heap := k'.heap, channels := k'.channels, groups := k'.groups, journal := k'.journal })
    (hroots : ∀ a b, b ∈ k.roots → ρ a b → σ a b)
    (same : m.heap.SameFrames m'.heap m.registers.frames)
    (hchannels : ∀ a b, σ a b → m'.heap.tag a = .channel →
      k'.channels.get b = m'.channels.get a)
    (hgroups : ∀ a b, σ a b → m'.heap.tag a = .waitGroup → k'.groups.get b = m'.groups.get a) :
    Twins f σ m' k' where
  toMatched := hheap
  count := hcount
  registers := by
    have hregisters := t.registers.imp (fun a b hb => hroots a b (mem_threadRoots.2 (.inl hb))) same
    rw [hm, hk]
    exact hregisters
  threads := by
    intro u
    rw [hm, hk]
    have hrel := t.threads u
    change Option.Rel (Registers.Matches σ) m.threads[u]? k.threads[u]?
    generalize m.threads[u]? = r at hrel ⊢
    generalize hs : k.threads[u]? = s at hrel ⊢
    cases hrel with
    | none => exact .none
    | some hrs =>
      exact .some (hrs.imp fun a b hb => hroots a b (mem_threadRoots.2 (.inr ⟨u, _, hs, hb⟩)))
  current := by
    rw [hm, hk]
    exact t.current
  nextThread := by
    rw [hm, hk]
    exact t.nextThread
  channels := hchannels
  groups := hgroups
  runnable := by
    rw [hm, hk]
    exact t.runnable
  builtins := by
    rw [hm, hk]
    exact t.builtins
  output := by
    rw [hm, hk]
    exact t.output
  typedChannels := by
    rw [hm, hk]
    exact t.typedChannels

theorem nodeCount_withHeap (m : Machine) (h : Heap) :
    (m.withHeap h).heap.nodeCount = h.nodeCount :=
  (alike_withHeap m h).nodeCount

/-- The pairs of channels are old ones, so their queues still agree. -/
theorem old_of_waits {h h' k k' : Heap} {roots roots' : List Address}
    (e : Heap.Evolves ρ σ h h' k k' roots roots' .none) {a b : Address} (hab : σ a b)
    (hwaits : (h'.tag a).waits = true) : ρ a b ∧ h.tag a = h'.tag a := by
  rcases e.old a b hab with ⟨hρ, htag, -⟩ | hnot | hnone
  · exact ⟨hρ, htag.symm⟩
  · rw [hnot] at hwaits
    cases hwaits
  · exact hnone.elim

theorem mem_roots_of_frames {a : Address} (ha : a ∈ m.registers.frames) : a ∈ m.roots :=
  mem_threadRoots.2 (.inl (Registers.mem_roots.2 (.inr (.inr ha))))

/-- What is live stays the same, the frames of the running thread among it. -/
theorem sameFrames_of_grows {h : Heap} (g : Heap.Grows m.heap h m.roots) :
    m.heap.SameFrames (m.withHeap h).heap m.registers.frames := by
  exact Heap.SameFrames.trans (.of_same fun a ha => g.node a (.root (mem_roots_of_frames ha)))
    (.of_arena (alike_withHeap m h).toSameArena)

theorem evolved (t : Twins f ρ m k) {h h' : Heap}
    (e : Heap.Evolves ρ σ m.heap h k.heap h' m.roots k.roots .none) :
    Twins f σ (m.withHeap h) (k.withHeap h') := by
  have left := alike_withHeap m h
  have right := alike_withHeap k h'
  refine t.transport (e.paired.toMatched.alike left right) ?_ rfl rfl
    (fun a b hb hab => e.keep a b hab (.root hb)) (sameFrames_of_grows e.left) ?_ ?_
  · rw [nodeCount_withHeap, nodeCount_withHeap, e.left.toKeeps.nodeCount,
      e.right.toKeeps.nodeCount]
    exact t.count
  · intro a b hab htag
    rw [left.tag] at htag
    obtain ⟨hρ, hold⟩ := old_of_waits e hab (htag ▸ rfl)
    exact t.channels a b hρ (hold.trans htag)
  · intro a b hab htag
    rw [left.tag] at htag
    obtain ⟨hρ, hold⟩ := old_of_waits e hab (htag ▸ rfl)
    exact t.groups a b hρ (hold.trans htag)

/-- A new channel or wait-group starts with empty queues, whatever thread once waited for a node
at its address. -/
theorem evolved_waiter (t : Twins f ρ m k) {h h' : Heap} {x y : Address}
    (e : Heap.Evolves ρ σ m.heap h k.heap h' m.roots k.roots (.only x y)) :
    (h.tag x ≠ .waitGroup →
      Twins f σ { m.withHeap h with channels := m.channels.reset x }
        { k.withHeap h' with channels := k.channels.reset y }) ∧
    (h.tag x ≠ .channel →
      Twins f σ { m.withHeap h with groups := m.groups.reset x }
        { k.withHeap h' with groups := k.groups.reset y }) := by
  have left := alike_withHeap m h
  have right := alike_withHeap k h'
  have hold : ∀ a b, σ a b → (h.tag a).waits = true →
      (ρ a b ∧ m.heap.tag a = h.tag a ∧ x ≠ a ∧ y ≠ b) ∨ (a = x ∧ b = y) := by
    intro a b hab hwaits
    rcases e.old a b hab with ⟨hρ, htag, hne⟩ | hnot | hxy
    · obtain ⟨hx, hy⟩ := hne x y ⟨rfl, rfl⟩
      exact .inl ⟨hρ, htag.symm, hx.symm, hy.symm⟩
    · rw [hnot] at hwaits
      cases hwaits
    · exact .inr hxy
  have hmatched := e.paired.toMatched.alike left right
  have hcount : (m.withHeap h).heap.nodeCount ≤ (k.withHeap h').heap.nodeCount := by
    rw [nodeCount_withHeap, nodeCount_withHeap, e.left.toKeeps.nodeCount,
      e.right.toKeeps.nodeCount]
    exact t.count
  have hroots : ∀ a b, b ∈ k.roots → ρ a b → σ a b := fun a b hb hab => e.keep a b hab (.root hb)
  have same := sameFrames_of_grows e.left
  constructor
  · intro hx
    refine t.transport hmatched hcount rfl rfl hroots same ?_ ?_
    · intro a b hab htag
      have htag' : h.tag a = .channel := (left.tag a).symm.trans htag
      rcases hold a b hab (htag' ▸ rfl) with ⟨hρ, hsame, hxa, hyb⟩ | ⟨rfl, rfl⟩
      · rw [ChannelWaiters.get_reset_of_ne _ hxa, ChannelWaiters.get_reset_of_ne _ hyb]
        exact t.channels a b hρ (hsame.trans htag')
      · rw [ChannelWaiters.get_reset_self, ChannelWaiters.get_reset_self]
    · intro a b hab htag
      have htag' : h.tag a = .waitGroup := (left.tag a).symm.trans htag
      rcases hold a b hab (htag' ▸ rfl) with ⟨hρ, hsame, -⟩ | ⟨rfl, rfl⟩
      · exact t.groups a b hρ (hsame.trans htag')
      · exact absurd htag' hx
  · intro hx
    refine t.transport hmatched hcount rfl rfl hroots same ?_ ?_
    · intro a b hab htag
      have htag' : h.tag a = .channel := (left.tag a).symm.trans htag
      rcases hold a b hab (htag' ▸ rfl) with ⟨hρ, hsame, -⟩ | ⟨rfl, rfl⟩
      · exact t.channels a b hρ (hsame.trans htag')
      · exact absurd htag' hx
    · intro a b hab htag
      have htag' : h.tag a = .waitGroup := (left.tag a).symm.trans htag
      rcases hold a b hab (htag' ▸ rfl) with ⟨hρ, hsame, hxa, hyb⟩ | ⟨rfl, rfl⟩
      · rw [GroupWaiters.get_reset_of_ne _ hxa, GroupWaiters.get_reset_of_ne _ hyb]
        exact t.groups a b hρ (hsame.trans htag')
      · rw [GroupWaiters.get_reset_self, GroupWaiters.get_reset_self]

/-- A write into a node and into its partner. -/
theorem rewritten (t : Twins f ρ m k) (hm : ∀ a ∈ m.roots, m.heap.InUse a) {h h' : Heap}
    (r : Heap.Rewrites ρ m.heap h k.heap h' m.roots k.roots) :
    Twins f ρ { m with heap := h } { k with heap := h' } := by
  have htag : ∀ a b, ρ a b → h.tag a = m.heap.tag a := fun a b hab => r.tag a (t.left_inUse a b hab)
  have same : m.heap.SameFrames h m.registers.frames := fun a ha => by
    have hin := hm a (mem_roots_of_frames ha)
    exact ⟨r.tag a hin, r.payload a hin⟩
  refine t.transport r.toMatched ?_ rfl rfl (fun a b _ hab => hab) same ?_ ?_
  · rw [r.left_count, r.right_count]
    exact t.count
  · exact fun a b hab hchannel => t.channels a b hab ((htag a b hab).symm.trans hchannel)
  · exact fun a b hab hgroup => t.groups a b hab ((htag a b hab).symm.trans hgroup)

/-- What is reported meanwhile makes no difference. -/
theorem withHeap_rewritten (t : Twins f ρ m k) (hm : ∀ a ∈ m.roots, m.heap.InUse a)
    {h h' : Heap} (r : Heap.Rewrites ρ m.heap h k.heap h' m.roots k.roots) :
    Twins f ρ (m.withHeap h) (k.withHeap h') := by
  have u := t.rewritten hm r
  have left := alike_withHeap m h
  refine u.transport (u.toMatched.alike left (alike_withHeap k h')) ?_ rfl rfl
    (fun a b _ hab => hab) (.of_arena left.toSameArena) ?_ ?_
  · rw [nodeCount_withHeap, nodeCount_withHeap]
    exact u.count
  · exact fun a b hab hchannel => u.channels a b hab ((left.tag a).symm.trans hchannel)
  · exact fun a b hab hgroup => u.groups a b hab ((left.tag a).symm.trans hgroup)

end Twins

end Machine

end ChannelMachine

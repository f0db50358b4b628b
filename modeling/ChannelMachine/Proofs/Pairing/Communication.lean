import ChannelMachine.Proofs.Machine.Queues
import ChannelMachine.Proofs.Pairing.Calling

/-!
# Twins wait for the same threads

Channels and wait-groups of twins are in step: a thread waits for a node of one machine if and only
if it waits for the partner, and it is woken in both.
-/

namespace ChannelMachine

open Heap (Pairing Partners)

namespace Machine

variable {f : Footing} {ρ σ : Pairing} {m k : Machine}

/-! ## Queues -/

namespace Twins

/-- The queues of two partners change in the same way. -/
theorem withChannels (t : Twins f ρ m k) {a b : Address} (hab : ρ a b) {w w' : ChannelWaiters}
    (hself : w'.get b = w.get a) (hleft : ∀ c, a ≠ c → w.get c = m.channels.get c)
    (hright : ∀ d, b ≠ d → w'.get d = k.channels.get d) :
    Twins f ρ { m with channels := w } { k with channels := w' } := by
  refine t.transport t.toMatched t.count rfl rfl (fun _ _ _ hab => hab)
    (.of_same fun a _ => .refl _ a) ?_ t.groups
  intro c d hcd htag
  by_cases hca : a = c
  · obtain rfl : b = d := t.right_unique a b d hab (hca ▸ hcd)
    exact hself.trans (congrArg w.get hca)
  · have hdb : b ≠ d := by
      rintro rfl
      exact hca (t.left_unique a c b hab hcd)
    exact ((hright d hdb).trans (t.channels c d hcd htag)).trans (hleft c hca).symm

theorem withGroups (t : Twins f ρ m k) {a b : Address} (hab : ρ a b) {w w' : GroupWaiters}
    (hself : w'.get b = w.get a) (hleft : ∀ c, a ≠ c → w.get c = m.groups.get c)
    (hright : ∀ d, b ≠ d → w'.get d = k.groups.get d) :
    Twins f ρ { m with groups := w } { k with groups := w' } := by
  refine t.transport t.toMatched t.count rfl rfl (fun _ _ _ hab => hab)
    (.of_same fun a _ => .refl _ a) t.channels ?_
  intro c d hcd htag
  by_cases hca : a = c
  · obtain rfl : b = d := t.right_unique a b d hab (hca ▸ hcd)
    exact hself.trans (congrArg w.get hca)
  · have hdb : b ≠ d := by
      rintro rfl
      exact hca (t.left_unique a c b hab hcd)
    exact ((hright d hdb).trans (t.groups c d hcd htag)).trans (hleft c hca).symm

theorem relates_waitAt (t : Twins f ρ m k) (side : Side) {a b : Address} (hab : ρ a b)
    (htag : m.heap.tag a = .channel) :
    Relates (waitAt side a) (waitAt side b) m k (fun _ m _ k => Twins f ρ m k) SameOutput := by
  refine relates_update (t.withChannels hab ?_ (fun c hc => ?_) fun d hd => ?_)
  · rw [ChannelWaiters.get_enqueue_self, ChannelWaiters.get_enqueue_self, t.channels a b hab htag,
      t.current]
  · exact ChannelWaiters.get_enqueue_of_ne _ side _ hc
  · exact ChannelWaiters.get_enqueue_of_ne _ side _ hd

theorem heap_note (m : Machine) (e : Event) : (m.note e).heap = m.heap := by
  unfold note
  split <;> rfl

theorem relates_wake (t : Twins f ρ m k) (u : ThreadId) :
    Relates (wake u) (wake u) m k (fun _ m' _ k' => Twins f ρ m' k' ∧ m'.heap = m.heap)
      SameOutput := by
  have v : Twins f ρ { m with runnable := m.runnable ++ [u] } { k with runnable := k.runnable ++ [u] } :=
    ⟨t.toMatched, t.count, t.registers, t.threads, t.current, t.nextThread, t.channels, t.groups,
      congrArg (· ++ [u]) t.runnable, t.builtins, t.output, t.typedChannels⟩
  exact relates_update ⟨v.noted _ _, heap_note _ _⟩

theorem relates_wakeAll (us : List ThreadId) : ∀ {m k : Machine}, Twins f ρ m k →
    Relates (wakeAll us) (wakeAll us) m k (fun _ m _ k => Twins f ρ m k) SameOutput := by
  induction us with
  | nil => exact fun t => t
  | cons u rest ih => exact fun t => .bind ((t.relates_wake u).mono fun _ _ _ _ t => ih t.1)

theorem relates_wakeAt (t : Twins f ρ m k) (side : Side) {a b : Address} (hab : ρ a b)
    (htag : m.heap.tag a = .channel) :
    Relates (wakeAt side a) (wakeAt side b) m k
      (fun _ m' _ k' => Twins f ρ m' k' ∧ m'.heap = m.heap) SameOutput := by
  have hget := t.channels a b hab htag
  have u : Twins f ρ { m with channels := (m.channels.dequeue side a).2 }
      { k with channels := (k.channels.dequeue side b).2 } := by
    refine t.withChannels hab ?_ (fun c hc => ?_) fun d hd => ?_
    · rw [ChannelWaiters.get_dequeue_self, ChannelWaiters.get_dequeue_self, hget]
    · exact ChannelWaiters.get_dequeue_of_ne _ side hc
    · exact ChannelWaiters.get_dequeue_of_ne _ side hd
  have hfirst : (k.channels.dequeue side b).1 = (m.channels.dequeue side a).1 := by
    rw [ChannelWaiters.dequeue_fst, ChannelWaiters.dequeue_fst, hget]
  refine .bind (.modifyGet ?_)
  dsimp only
  rw [hfirst]
  cases (m.channels.dequeue side a).1 with
  | some v => exact u.relates_wake v
  | none => exact .pure ⟨u, rfl⟩

end Twins

/-- Blocking and going on are the same for both threads. -/
theorem Twins.progress (t : Twins f ρ m k) {p : Progress} (hp : p.Matches ρ p) :
    LeavesProgress f (pure p) (pure p) m k := .pure ⟨ρ, .even t, hp⟩

/-! ## Channels -/

section

variable (hm : m.Sound) (hk : k.Sound) (t : Twins f ρ m k)
include hm hk t

theorem twins_newChannel (capacity : Nat) :
    LeavesTwins f (newChannel capacity) (newChannel capacity) m k := by
  have p : Heap.Paired ρ m.heap k.heap (Thunk.get (threadRoots m.registers m.threads : Roots))
      (Thunk.get (threadRoots k.registers k.threads : Roots)) :=
    t.paired hm.toResting hm.inUse_root hk.toResting
  refine .bind (relates_onHeap (((p.relates_newChannel t.count capacity).with_left
    (hm.heap.newChannel_ensures hm.inUse_roots capacity)).mono ?_) fun _ _ => t.output)
  rintro a h b h' ⟨⟨-, made⟩, σ, e, hab⟩
  have hne : h.tag a ≠ .waitGroup := by
    rw [made.toHolds.tag]
    exact Tag.noConfusion
  exact .bind (relates_update (((t.evolved_waiter e).1 hne).leaves_push_advance hab))

omit hm hk in
theorem relates_needChannel {a b : Address} (hab : ρ a b)
    {good : Unit → Machine → Unit → Machine → Prop}
    (h : m.heap.tag a = .channel → good () m () k) :
    Relates (needChannel a) (needChannel b) m k good SameOutput := by
  refine .bind (relates_readHeap (t.similar a b hab).tag ?_)
  by_cases htag : m.heap.tag a = .channel
  · simp only [htag, ne_eq, not_true_eq_false, if_false]
    exact .pure (h htag)
  · simp only [htag, ne_eq, not_false_eq_true, if_true]
    exact .throw t.output

theorem relates_checkElement {a b v w : Address} (hab : ρ a b) (htag : m.heap.tag a = .channel)
    (hvw : ρ v w) :
    Relates (checkElement a v) (checkElement b w) m k (fun _ m _ k => Twins f ρ m k) SameOutput := by
  have p := t.paired hm.toResting hm.inUse_root hk.toResting
  have s := t.similar a b hab
  have hgot := congrArg elementType (t.similar v w hvw).tag
  refine .bind (relates_readHeap (t.similar v w hvw).tag (.bind (relates_readHeap
    (s.elementKind? htag) ?_)))
  cases m.heap.elementKind? a with
  | none => exact relates_updateHeap (t.rewritten hm.inUse_root (p.setElementKind hab htag _))
  | some expected =>
    dsimp only
    split
    · exact .throw t.output
    · exact .pure t

/-- What a send does once the element was checked. -/
theorem twins_sendChecked {a b v w : Address} (hab : ρ a b) (htag : m.heap.tag a = .channel)
    (hvw : ρ v w) (hvalue : (m.heap.tag v).isValue = true) :
    LeavesProgress f
      (do
        if ← readHeap (·.isFull a) then
          waitAt .writer a
          return Progress.blocked
        updateHeap (·.channelPush a v)
        replace 2 Heap.undefined
        advance
        wakeAt .reader a
        if ← readHeap (·.isUnbuffered a) then
          waitAt .sender a
          return .blocked
        return .advanced)
      (do
        if ← readHeap (·.isFull b) then
          waitAt .writer b
          return Progress.blocked
        updateHeap (·.channelPush b w)
        replace 2 Heap.undefined
        advance
        wakeAt .reader b
        if ← readHeap (·.isUnbuffered b) then
          waitAt .sender b
          return .blocked
        return .advanced) m k := by
  have p := t.paired hm.toResting hm.inUse_root hk.toResting
  have s := t.similar a b hab
  refine .bind (relates_readHeap (p.isFull hab htag) ?_)
  split
  · exact .bind ((t.relates_waitAt .writer hab htag).mono fun _ _ _ _ t => t.progress rfl)
  · have r := p.channelPush hab htag hvw hvalue
    have u := t.rewritten hm.inUse_root r
    have hu : (m.heap.channelPush a v).tag a = .channel :=
      (r.tag a (t.left_inUse a b hab)).trans htag
    have hundefined := t.undefined hm.toResting
    refine .bind (relates_updateHeap (.bind (relates_setRegisters (.bind (relates_setRegisters ?_)))))
    have moved := u.withRegisters (r := { m.registers with
        stack := Heap.undefined :: m.registers.stack.drop 2, pc := m.registers.pc + 1 })
      (s := { k.registers with
        stack := Heap.undefined :: k.registers.stack.drop 2, pc := k.registers.pc + 1 })
      ⟨.cons hundefined (t.registers.stack.drop 2), congrArg (· + 1) t.registers.pc,
        t.registers.environment, u.registers.frames⟩
    refine .bind ((moved.relates_wakeAt .reader hab hu).mono ?_)
    rintro - m' - k' ⟨t', hheap⟩
    have htag' : m'.heap.tag a = .channel := by
      rw [hheap]
      exact hu
    refine .bind (relates_readHeap ((t'.similar a b hab).isUnbuffered htag') ?_)
    split
    · exact .bind ((t'.relates_waitAt .sender hab htag').mono fun _ _ _ _ t => t.progress rfl)
    · exact t'.progress rfl

theorem twins_send : LeavesProgress f send send m k := by
  refine .bind (t.relates_peek fun v w hv hvw => ?_)
  refine .bind (t.relates_peek fun a b ha hab => ?_)
  have hvalue := hm.isValue_stack hv
  have hchannel := hm.isValue_stack ha
  refine .bind (relates_needChannel t hab fun htag => .bind (.get ?_))
  rw [t.typedChannels]
  by_cases htyped : m.typedChannels = true
  · simp only [if_pos htyped]
    have hb : k.heap.tag b = .channel := (t.similar a b hab).tag.trans htag
    refine .bind (((relates_checkElement hm hk t hab htag hvw).with_both
      (hm.ensures_checkElement hchannel.1 htag v)
      (hk.ensures_checkElement (t.right_inUse a b hab) hb w)).mono ?_)
    rintro - m' - k' ⟨⟨hm', hregisters, htag'⟩, ⟨hk', -, -⟩, t'⟩
    exact twins_sendChecked hm' hk' t' hab htag' hvw (hm'.isValue_stack (hregisters ▸ hv)).2
  · simp only [if_neg htyped]
    exact twins_sendChecked hm hk t hab htag hvw hvalue.2

theorem twins_receive : LeavesProgress f receive receive m k := by
  have p := t.paired hm.toResting hm.inUse_root hk.toResting
  refine .bind (t.relates_peek fun a b ha hab => ?_)
  refine .bind (relates_needChannel t hab fun htag => .bind (relates_readHeap (p.isEmpty hab htag) ?_))
  split
  · exact .bind ((t.relates_waitAt .reader hab htag).mono fun _ _ _ _ t => t.progress rfl)
  next hempty =>
    have hfront := p.channelFront hab htag hempty
    have r := p.channelPop hab htag
    have u := t.rewritten hm.inUse_root r
    have hu : (m.heap.channelPop a).tag a = .channel :=
      (r.tag a (t.left_inUse a b hab)).trans htag
    refine .bind (relates_readPair (.bind (relates_updateHeap (.bind (relates_setRegisters
      (.bind (relates_setRegisters ?_)))))))
    have moved := u.withRegisters (r := { m.registers with
        stack := m.heap.channelFront a :: m.registers.stack.drop 1, pc := m.registers.pc + 1 })
      (s := { k.registers with
        stack := k.heap.channelFront b :: k.registers.stack.drop 1, pc := k.registers.pc + 1 })
      ⟨.cons hfront (t.registers.stack.drop 1), congrArg (· + 1) t.registers.pc,
        t.registers.environment, u.registers.frames⟩
    have hlast : ∀ {m' k' : Machine}, Twins f ρ m' k' → m'.heap.tag a = .channel →
        LeavesProgress f (do wakeAt .writer a; return Progress.advanced)
          (do wakeAt .writer b; return Progress.advanced) m' k' := fun t' htag' =>
      .bind ((t'.relates_wakeAt .writer hab htag').mono fun _ _ _ _ t => t.1.progress rfl)
    refine .bind (relates_readHeap ((moved.similar a b hab).isUnbuffered hu) ?_)
    split
    · refine .bind ((moved.relates_wakeAt .sender hab hu).mono ?_)
      rintro - m' - k' ⟨t', hheap⟩
      refine hlast t' ?_
      rw [hheap]
      exact hu
    · exact hlast moved hu

/-! ## Wait-groups -/

theorem twins_newWaitGroup : LeavesTwins f newWaitGroup newWaitGroup m k := by
  have p : Heap.Paired ρ m.heap k.heap (Thunk.get (threadRoots m.registers m.threads : Roots))
      (Thunk.get (threadRoots k.registers k.threads : Roots)) :=
    t.paired hm.toResting hm.inUse_root hk.toResting
  refine .bind (relates_onHeap (((p.relates_newWaitGroup t.count).with_left
    (hm.heap.newWaitGroup_ensures hm.inUse_roots)).mono ?_) fun _ _ => t.output)
  rintro a h b h' ⟨⟨counter, -, made⟩, σ, e, hab⟩
  have hne : h.tag a ≠ .channel := by
    rw [made.toHolds.tag]
    exact Tag.noConfusion
  exact .bind (relates_update (((t.evolved_waiter e).2 hne).leaves_push_advance hab))

omit hm hk in
theorem relates_needWaitGroup {a b : Address} (hab : ρ a b)
    {good : Unit → Machine → Unit → Machine → Prop}
    (h : m.heap.tag a = .waitGroup → good () m () k) :
    Relates (needWaitGroup a) (needWaitGroup b) m k good SameOutput := by
  refine .bind (relates_readHeap (t.similar a b hab).tag ?_)
  by_cases htag : m.heap.tag a = .waitGroup
  · simp only [htag, ne_eq, not_true_eq_false, if_false]
    exact .pure (h htag)
  · simp only [htag, ne_eq, not_false_eq_true, if_true]
    exact .throw t.output

theorem relates_adjust {a b : Address} (hab : ρ a b) (htag : m.heap.tag a = .waitGroup)
    (delta : Number) :
    Relates (adjust a delta) (adjust b delta) m k (fun _ m _ k => Twins f ρ m k) SameOutput := by
  have p := t.paired hm.toResting hm.inUse_root hk.toResting
  refine .bind (.get ?_)
  rw [t.groups a b hab htag]
  generalize hwaiting : m.groups.get a = waiting
  have hrest : Relates
      (do
        let count := (← readHeap (·.groupCount a)).add delta
        if count.less .zero then throw .negativeWaitGroup
        updateHeap (·.setGroupCount a count)
        if count.same .zero then
          update fun m => { m with groups := m.groups.reset a }
          wakeAll waiting)
      (do
        let count := (← readHeap (·.groupCount b)).add delta
        if count.less .zero then throw .negativeWaitGroup
        updateHeap (·.setGroupCount b count)
        if count.same .zero then
          update fun m => { m with groups := m.groups.reset b }
          wakeAll waiting) m k (fun _ m _ k => Twins f ρ m k) SameOutput := by
    refine .bind (relates_readHeap (p.groupCount hab htag) ?_)
    dsimp only
    generalize (m.heap.groupCount a).add delta = count
    by_cases hnegative : count.less .zero = true
    · simp only [if_pos hnegative]
      exact .bind (.throw t.output)
    simp only [if_neg hnegative]
    have u := t.rewritten hm.inUse_root (p.setGroupCount hab htag count)
    refine .bind (relates_updateHeap ?_)
    by_cases hzero : count.same .zero = true
    · simp only [if_pos hzero]
      refine .bind (relates_update (Twins.relates_wakeAll _ (u.withGroups hab ?_ (fun c hc => ?_)
        fun d hd => ?_)))
      · rw [GroupWaiters.get_reset_self, GroupWaiters.get_reset_self]
      · exact GroupWaiters.get_reset_of_ne _ hc
      · exact GroupWaiters.get_reset_of_ne _ hd
    · simp only [if_neg hzero]
      exact .pure u
  by_cases hmisuse : Number.zero.less delta = true ∧ waiting ≠ []
  · simp only [if_pos hmisuse]
    exact .bind (.throw t.output)
  · simp only [if_neg hmisuse]
    exact hrest

theorem twins_groupAdd : LeavesTwins f groupAdd groupAdd m k := by
  have hundefined := t.undefined hm.toResting
  refine .bind (t.relates_peek fun v w hv hvw => ?_)
  refine .bind (t.relates_peek fun a b ha hab => ?_)
  have s := t.similar v w hvw
  refine .bind (relates_needWaitGroup t hab fun htag => .bind (relates_readHeap s.number? ?_))
  cases m.heap.number? v with
  | none => exact .bind (relates_readHeap s.tag (.throw t.output))
  | some x =>
    exact .bind ((relates_adjust hm hk t hab htag x).mono fun _ _ _ _ t =>
      t.leaves_replace_advance 2 hundefined)

theorem twins_groupDone : LeavesTwins f groupDone groupDone m k := by
  have hundefined := t.undefined hm.toResting
  refine .bind (t.relates_peek fun a b ha hab => ?_)
  exact .bind (relates_needWaitGroup t hab fun htag =>
    .bind ((relates_adjust hm hk t hab htag _).mono fun _ _ _ _ t =>
      t.leaves_replace_advance 1 hundefined))

theorem twins_groupWait : LeavesProgress f groupWait groupWait m k := by
  have p := t.paired hm.toResting hm.inUse_root hk.toResting
  have hundefined := t.undefined hm.toResting
  refine .bind (t.relates_peek fun a b ha hab => ?_)
  refine .bind (relates_needWaitGroup t hab fun htag =>
    .bind (relates_readHeap (p.groupCount hab htag) ?_))
  split
  · refine .bind (relates_update (.pure
      ⟨ρ, .even (t.withGroups hab ?_ (fun c hc => ?_) fun d hd => ?_), rfl⟩))
    · rw [GroupWaiters.get_enqueue_self, GroupWaiters.get_enqueue_self, t.groups a b hab htag,
        t.current]
    · exact GroupWaiters.get_enqueue_of_ne _ _ hc
    · exact GroupWaiters.get_enqueue_of_ne _ _ hd
  · have hrest := (t.leaves_replace_advance 1 hundefined).returns (p := .advanced) fun _ => rfl
    simpa only [LeavesProgress, bind_assoc] using hrest

end

end Machine

end ChannelMachine

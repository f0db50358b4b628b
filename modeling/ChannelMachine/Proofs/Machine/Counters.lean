import ChannelMachine.Proofs.Machine.Standing

/-!
# The counters of wait-groups

Wait-groups have counters of their own, and each instruction keeps it so.  Threads wait for a
wait-group while its counter is above zero: an instruction that counts to zero wakes all of them, and
one that counts below zero is refused.  Only NaN is neither above nor below zero nor equal to it, and
a wait-group with that counter is never left.  `Tallies` lists what an instruction can do to one
wait-group.
-/

namespace ChannelMachine

/-- A number that is neither NaN nor less than zero nor zero is above zero. -/
theorem Number.zero_less {x : Number} (hnan : x.isNaN = false) (hless : x.less .zero = false)
    (hsame : x.same .zero = false) : Number.zero.less x = true := by
  have hzero : Number.zero.isNaN = false := by decide
  simp only [less, same, hnan, hzero, Bool.not_false, Bool.true_and, decide_eq_false_iff_not,
    beq_eq_false_iff_ne, decide_eq_true_eq] at hless hsame ⊢
  exact UInt64.lt_of_le_of_ne (UInt64.not_lt.1 hless) hsame.symm

/-- A number that is not below zero is above it if it is neither zero nor NaN, and only then. -/
theorem Number.zero_less_eq {x : Number} (hless : x.less .zero = false) :
    Number.zero.less x = !(x.same .zero || x.isNaN) := by
  cases hnan : x.isNaN with
  | true => simp [less, hnan]
  | false =>
    cases hsame : x.same .zero with
    | false => rw [zero_less hnan hless hsame]; rfl
    | true =>
      simp only [same, hnan, Bool.not_false, Bool.true_and, Bool.and_eq_true, beq_iff_eq] at hsame
      simp [less, hsame.2]

namespace Machine

variable {m k : Machine} {program : Program} {p : Progress} {d : Option Deal}

/-- The heap after an instruction that is about a channel. -/
theorem Sound.spares_updated (hm : m.Sound) {a : Address} (htag : m.heap.tag a = .channel)
    (u : Heap.Updated m.heap k.heap a) : m.heap.Spares k.heap m.roots (· = a) :=
  .of_updated hm.heap hm.inUse_root u (by simp [htag])

/-- Wait-groups keep counters of their own. -/
theorem Acts.distinctCounters (acts : Acts program m k p d) (hm : m.Sound)
    (distinct : m.heap.DistinctCounters) : k.heap.DistinctCounters := by
  have hupdated : ∀ a, m.heap.tag a = .channel → Heap.Updated m.heap k.heap a →
      m.heap.InUse a → k.heap.DistinctCounters := by
    intro a htag u hin
    refine (hm.spares_updated htag u).distinctCounters distinct ?_
    rintro b - hb rfl
    rw [u.kind, htag] at hb
    cases hb
  cases acts with
  | apart _ _ _ _ apart => exact apart.heap.distinctCounters distinct fun _ _ _ => id
  | started _ heap => exact heap ▸ distinct
  | madeChannel _ _ _ _ heap _ holds =>
    refine heap.distinctCounters distinct ?_
    rintro b - hb rfl
    rw [holds.tag] at hb
    cases hb
  | @sent v a _ _ _ stack tag _ _ check heap =>
    have hin := hm.inUse_below stack
    exact hupdated a tag (heap ▸ (hm.updated_sent stack tag check).1) hin
  | @full v a _ _ stack tag _ _ check =>
    have hin := hm.inUse_below stack
    exact hupdated a tag (check.updated hm.heap hin tag) hin
  | @received a _ _ stack tag _ _ heap =>
    have hin := hm.inUse_top stack
    exact hupdated a tag (heap ▸ hm.heap.channelPop hin tag) hin
  | empty _ _ _ _ _ heap => exact heap ▸ distinct
  | @madeGroup a _ _ _ heap inUse tag own =>
    -- The new counter is its own, and the others are distinct as they were.
    intro b c hb hbtag hc hctag heq
    by_cases hba : b = a
    · subst hba
      exact (own c hc hctag heq.symm).symm
    by_cases hca : c = a
    · subst hca
      exact own b hb hbtag heq
    have hold : ∀ e, k.heap.InUse e → k.heap.tag e = .waitGroup → e ≠ a → m.heap.InUse e ∧
        m.heap.tag e = .waitGroup ∧ k.heap.word e 1 = m.heap.word e 1 := by
      intro e he hetag hne
      obtain ⟨hin, same⟩ := heap.old e he (Heap.isMeeting_of_tag hetag rfl) hne
      exact ⟨hin, same.tag.symm.trans hetag, same.word 1 (by decide) (by decide)⟩
    obtain ⟨hb', hbtag', hbword⟩ := hold b hb hbtag hba
    obtain ⟨hc', hctag', hcword⟩ := hold c hc hctag hca
    exact distinct b c hb' hbtag' hc' hctag' (by rw [← hbword, ← hcword, heq])
  | counted _ inUse tag _ _ heap =>
    rw [heap]
    exact distinct.setGroupCount hm.heap inUse tag _
  | waits _ _ _ _ _ heap => exact heap ▸ distinct

/-- What an instruction does to a wait-group and to the threads that wait for it. -/
inductive Tallies (m k : Machine) (g : Address) : Prop where
  /-- Nothing. -/
  | stays (inUse : m.heap.InUse g) (tag : m.heap.tag g = .waitGroup)
      (count : k.heap.groupCount g = m.heap.groupCount g)
      (queue : k.queue (.group g) = m.queue (.group g)) : Tallies m k g
  /-- It is made. -/
  | made (notLive : ¬ m.heap.Live m.roots g) (count : k.heap.groupCount g = .zero)
      (queue : k.queue (.group g) = []) (runnable : k.runnable = m.runnable) : Tallies m k g
  /-- It is counted up or down, and at zero all threads that wait are woken. -/
  | counted (inUse : m.heap.InUse g) (tag : m.heap.tag g = .waitGroup)
      (nonneg : (k.heap.groupCount g).less .zero = false)
      (queue : k.queue (.group g) =
        if (k.heap.groupCount g).same .zero then [] else m.queue (.group g))
      (runnable : k.runnable = m.runnable ++
        if (k.heap.groupCount g).same .zero then m.queue (.group g) else []) : Tallies m k g
  /-- The running thread waits, since it is above zero. -/
  | waits (inUse : m.heap.InUse g) (tag : m.heap.tag g = .waitGroup)
      (above : Number.zero.less (m.heap.groupCount g) = true)
      (count : k.heap.groupCount g = m.heap.groupCount g)
      (queue : k.queue (.group g) = m.queue (.group g) ++ [m.current]) : Tallies m k g

/-- All wait-groups that there are after an instruction. -/
theorem Acts.tallies (acts : Acts program m k p d) (hm : m.Sound)
    (distinct : m.heap.DistinctCounters) {g : Address} (hin : k.heap.InUse g)
    (htag : k.heap.tag g = .waitGroup) : Tallies m k g := by
  have hnone : (none : Option Place) ≠ some (.group g) := (Option.some_ne_none _).symm
  have hspares : ∀ {but : Address → Prop}, m.heap.Spares k.heap m.roots but → ¬ but g →
      k.queue (.group g) = m.queue (.group g) → Tallies m k g := by
    intro but spares hbut hqueue
    obtain ⟨hin', same⟩ := spares.old g hin (Heap.isMeeting_of_tag htag rfl) hbut
    exact .stays hin' (same.tag.symm.trans htag) (spares.groupCount hin htag hbut) hqueue
  have hsame : k.heap = m.heap → k.queue (.group g) = m.queue (.group g) → Tallies m k g :=
    fun heq hqueue => .stays (heq ▸ hin) (heq ▸ htag) (by rw [heq]) hqueue
  have hchannel : ∀ a, m.heap.tag a = .channel → Heap.Updated m.heap k.heap a →
      k.queue (.group g) = m.queue (.group g) → Tallies m k g := by
    intro a ha u
    refine hspares (hm.spares_updated ha u) ?_
    rintro rfl
    rw [u.kind, ha] at htag
    cases htag
  cases acts with
  | apart _ _ _ _ apart =>
    exact hspares apart.heap id (queue_congr apart.channels apart.groups _)
  | started _ heap _ _ _ _ requeues => exact hsame heap (requeues.queue_of_stay rfl hnone)
  | @madeChannel a _ _ _ _ _ heap _ holds requeues =>
    refine hspares heap ?_ (requeues.queue_of_stay (by simp [allFrom, Place.ofChannel]) hnone)
    rintro rfl
    rw [holds.tag] at htag
    cases htag
  | @sent v a _ _ _ stack tag _ _ check heap _ requeues =>
    refine hchannel a tag (heap ▸ (hm.updated_sent stack tag check).1)
      (requeues.queue_of_stay (by simp [oneFrom]) ?_)
    split <;> simp
  | @full v a _ _ stack tag _ _ check _ requeues =>
    have hain := hm.inUse_below stack
    exact hchannel a tag (check.updated hm.heap hain tag) (requeues.queue_of_stay rfl (by simp))
  | @received a _ _ stack tag _ _ heap _ requeues =>
    have hain := hm.inUse_top stack
    refine hchannel a tag (heap ▸ hm.heap.channelPop hain tag) (requeues.queue_of_stay ?_ hnone)
    cases m.heap.isUnbuffered a <;> simp [oneFrom]
  | empty _ _ _ _ _ heap _ requeues => exact hsame heap (requeues.queue_of_stay rfl (by simp))
  | @madeGroup a _ _ notLive heap _ _ _ requeues count =>
    by_cases heq : g = a
    · subst heq
      exact .made notLive count (requeues.queue_of_all (List.mem_singleton.2 rfl))
        (requeues.runnable.trans (List.append_nil _))
    · exact hspares heap heq (requeues.queue_of_stay (by simp [allFrom, heq]) hnone)
  | @counted a count _ inUse tag nonneg _ heap requeues =>
    by_cases heq : g = a
    · subst heq
      have hcount : k.heap.groupCount g = count := by
        rw [heap, hm.heap.groupCount_setGroupCount inUse tag]
      refine .counted inUse tag (hcount ▸ nonneg) ?_ ?_
      all_goals
        rw [hcount]
        split at requeues
      · rw [if_pos ‹_›, requeues.queue_of_all (List.mem_singleton.2 rfl)]
      · rw [if_neg ‹_›, requeues.queue_of_stay rfl hnone]
      · rw [if_pos ‹_›, requeues.runnable]
      · rw [if_neg ‹_›, requeues.runnable]
    · have spares : m.heap.Spares k.heap m.roots (· = a) := by
        rw [heap]
        exact .of_setGroupCount hm.heap hm.inUse_root distinct inUse tag count
      refine hspares spares heq ?_
      split at requeues
      next => exact requeues.queue_of_stay (by simp [allFrom, heq]) hnone
      next => exact requeues.queue_of_stay rfl hnone
  | @waits a _ _ stack tag above _ heap _ requeues =>
    by_cases heq : g = a
    · subst heq
      refine .waits (hm.inUse_top stack) tag above (by rw [heap]) ?_
      rw [requeues.queue, if_pos rfl]
      rfl
    · exact hsame heap (requeues.queue_of_stay rfl (by simp [Ne.symm heq]))

/-- No counter is below zero. -/
theorem Tallies.nonneg {g : Address} (tallies : Tallies m k g)
    (h : m.heap.InUse g → m.heap.tag g = .waitGroup → (m.heap.groupCount g).less .zero = false) :
    (k.heap.groupCount g).less .zero = false := by
  cases tallies with
  | stays inUse tag count => exact count ▸ h inUse tag
  | made _ count =>
    rw [count]
    decide
  | counted _ _ nonneg => exact nonneg
  | waits inUse tag _ count => exact count ▸ h inUse tag

/-- As long as threads wait for a wait-group, its counter is above zero, unless it is NaN. -/
theorem Tallies.above {g : Address} (tallies : Tallies m k g) (hqueue : k.queue (.group g) ≠ [])
    (h : m.queue (.group g) ≠ [] → Number.zero.less (m.heap.groupCount g) = true ∨
      (m.heap.groupCount g).isNaN = true) :
    Number.zero.less (k.heap.groupCount g) = true ∨ (k.heap.groupCount g).isNaN = true := by
  cases tallies with
  | stays _ _ count queue => exact count ▸ h (queue ▸ hqueue)
  | made _ _ queue => exact absurd queue hqueue
  | counted _ _ nonneg queue =>
    rw [queue] at hqueue
    split at hqueue
    next => exact absurd rfl hqueue
    next hzero =>
      cases hnan : (k.heap.groupCount g).isNaN with
      | true => exact .inr rfl
      | false => exact .inl (Number.zero_less hnan nonneg (Bool.eq_false_iff.2 hzero))
  | waits _ _ above count => exact .inl (count ▸ above)

end Machine

end ChannelMachine

import ChannelMachine.Heap.WaitGroup
import ChannelMachine.Proofs.Heap.Inheriting
import ChannelMachine.Proofs.Heap.Ring

/-!
# Channels and wait-groups from one heap to the next

`Spares h k roots but` collects what the rest of the development needs to know of two heaps in a row.
What was live is still in use and of its kind, and every channel and every wait-group in use, but for
the exceptions, was in use before with the same words; for a wait-group the same holds of its counter.
An allocation spares all of them, and a write to a channel spares the others.

A number node is never shared between wait-groups, so a write to one counter is seen by one wait-group
only; `DistinctCounters` says so.
-/

namespace ChannelMachine.Heap

/-- What was live is still there, and channels and wait-groups are as they were, with exceptions. -/
structure Spares (h k : Heap) (roots : List Address) (but : Address → Prop) : Prop where
  /-- What was live is in use and of its kind. -/
  live : ∀ a, h.Live roots a → k.InUse a ∧ k.tag a = h.tag a
  /-- A channel or a wait-group was there before. -/
  old : ∀ a, k.InUse a → (k.tag a).isMeeting = true → ¬ but a → h.InUse a ∧ SameNode h k a
  /-- The counter of a wait-group is the same. -/
  counter : ∀ a, k.InUse a → k.tag a = .waitGroup → ¬ but a → SameNode h k (k.word a 1)

/-- Two wait-groups have two counters. -/
def DistinctCounters (h : Heap) : Prop :=
  ∀ a b, h.InUse a → h.tag a = .waitGroup → h.InUse b → h.tag b = .waitGroup →
    h.word a 1 = h.word b 1 → a = b

theorem isMeeting_of_tag {h : Heap} {a : Address} {t : Tag} (htag : h.tag a = t)
    (ht : t.isMeeting = true) : (h.tag a).isMeeting = true := by
  rw [htag, ht]

namespace Spares

variable {h k l : Heap} {roots : List Address} {but : Address → Prop}

theorem refl (hs : h.Sound) (hroots : ∀ a ∈ roots, h.InUse a) :
    Spares h h roots fun _ => False where
  live := fun _ ha => ⟨hs.inUse_of_live hroots ha, rfl⟩
  old := fun a ha _ _ => ⟨ha, .refl h a⟩
  counter := fun _ _ _ _ => .refl h _

/-- Only the arena of the second heap counts. -/
theorem congr (spares : Spares h k roots but) (arena : SameArena k l) : Spares h l roots but where
  live := by
    intro a ha
    obtain ⟨hin, htag⟩ := spares.live a ha
    exact ⟨arena.inUse.2 hin, (arena.tag a).trans htag⟩
  old := by
    intro a ha hmeeting hnot
    rw [arena.tag] at hmeeting
    obtain ⟨hin, same⟩ := spares.old a (arena.inUse.1 ha) hmeeting hnot
    exact ⟨hin, same.trans (arena.same a)⟩
  counter := by
    intro a ha htag hnot
    rw [arena.tag] at htag
    rw [arena.word]
    exact (spares.counter a (arena.inUse.1 ha) htag hnot).trans (arena.same _)

/-- A heap that grew spares all channels and wait-groups that are not new. -/
theorem of_inherits {new : Address → Prop} (hs : h.Sound) (hroots : ∀ a ∈ roots, h.InUse a)
    (g : Grows h k roots) (inherits : Inherits h k new)
    (hnew : ∀ a, k.InUse a → new a → (k.tag a).isMeeting = true → but a) :
    Spares h k roots but where
  live := fun _ ha => ⟨g.inUse hs hroots ha, g.toKeeps.tag ha⟩
  old := fun a ha hmeeting hnot => inherits.old a ha fun h' => hnot (hnew a ha h' hmeeting)
  counter := by
    intro a ha htag hnot
    have hmeeting : (k.tag a).isMeeting = true := isMeeting_of_tag htag rfl
    have hold : ¬ new a := fun h' => hnot (hnew a ha h' hmeeting)
    have hrange : (k.header a).childRange = (1, 2) := childRange_of_tag htag
    have hchild := inherits.child a ha hold 1 (Nat.le_of_eq (congrArg Prod.fst hrange))
      (by rw [hrange]; decide)
    exact (inherits.old _ (g.sound.counter ha htag).1 hchild).2

/-- A heap to which plain nodes were added spares all channels and wait-groups. -/
theorem of_addsPlain {values : Address → Prop} (hs : h.Sound) (hroots : ∀ a ∈ roots, h.InUse a)
    (g : Grows h k roots) (adds : AddsPlain h k values) : Spares h k roots fun _ => False := by
  obtain ⟨new, inherits, hplain⟩ := adds
  refine of_inherits hs hroots g inherits fun a ha hnew hmeeting => ?_
  rw [Tag.isMeeting_of_isPlain (hplain a ha hnew).kind] at hmeeting
  cases hmeeting

/-- A write into a node that is no counter spares the others. -/
theorem of_updated {a : Address} (hs : h.Sound) (hroots : ∀ b ∈ roots, h.InUse b)
    (u : Updated h k a) (hnumber : h.tag a ≠ .number) : Spares h k roots (· = a) where
  live := by
    intro b hb
    have hin := hs.inUse_of_live hroots hb
    exact ⟨u.inUse hin, u.tag hin.toIsBlock⟩
  old := by
    intro b hb _ hne
    have same := u.toWrites.same (u.toWrites.isBlock.1 hb.toIsBlock) hne
    exact ⟨(InUse.congr u.toWrites.size same.tag).1 hb, same⟩
  counter := by
    intro b hb htag _
    obtain ⟨hin, hcounter⟩ := u.sound.counter hb htag
    have hblock := u.toWrites.isBlock.1 hin.toIsBlock
    refine u.toWrites.same hblock fun heq => hnumber ?_
    rw [← u.kind, ← heq]
    exact hcounter

/-- A write into a plain node that is no counter spares all channels and wait-groups. -/
theorem of_updated_plain {a : Address} (hs : h.Sound) (hroots : ∀ b ∈ roots, h.InUse b)
    (u : Updated h k a) (hnumber : h.tag a ≠ .number) (hplain : (h.tag a).isMeeting = false) : Spares h k roots fun _ => False := by
  have spares := of_updated hs hroots u hnumber
  have hne : ∀ b, (k.tag b).isMeeting = true → b ≠ a := by
    rintro b hmeeting rfl
    rw [u.kind, hplain] at hmeeting
    cases hmeeting
  exact ⟨spares.live, fun b hb hmeeting _ => spares.old b hb hmeeting (hne b hmeeting),
    fun b hb htag _ => spares.counter b hb htag (hne b (isMeeting_of_tag htag rfl))⟩

theorem groupCount (spares : Spares h k roots but) {a : Address} (ha : k.InUse a)
    (htag : k.tag a = .waitGroup) (hnot : ¬ but a) : k.groupCount a = h.groupCount a := by
  have same := (spares.old a ha (isMeeting_of_tag htag rfl) hnot).2
  have hword : k.word a 1 = h.word a 1 := same.word 1 (by decide) (by decide)
  rw [Heap.groupCount, Heap.groupCount, (spares.counter a ha htag hnot).number?, hword]

/-- Counters stay distinct where no wait-group is new. -/
theorem distinctCounters (spares : Spares h k roots but) (hdistinct : h.DistinctCounters)
    (hbut : ∀ a, k.InUse a → k.tag a = .waitGroup → ¬ but a) : k.DistinctCounters := by
  have hold : ∀ a, k.InUse a → k.tag a = .waitGroup →
      h.InUse a ∧ h.tag a = .waitGroup ∧ k.word a 1 = h.word a 1 := by
    intro a ha htag
    obtain ⟨hin, same⟩ := spares.old a ha (isMeeting_of_tag htag rfl) (hbut a ha htag)
    exact ⟨hin, same.tag.symm.trans htag, same.word 1 (by decide) (by decide)⟩
  intro a b ha hatag hb hbtag heq
  obtain ⟨hain, hatag', haword⟩ := hold a ha hatag
  obtain ⟨hbin, hbtag', hbword⟩ := hold b hb hbtag
  exact hdistinct a b hain hatag' hbin hbtag' (by rw [← haword, ← hbword, heq])

end Spares

/-! ## New channels and wait-groups -/

section New

variable {h : Heap} {roots : Roots}

theorem Refused.ne_deadlock {k : Heap} {roots : List Address} {n : Nat} {e : Fault}
    (refused : Refused h k roots n e) : e ≠ .deadlock := by
  rcases refused.cause with ⟨rfl, -⟩ | ⟨rfl, -⟩ <;> simp

theorem Failed.ne_deadlock {k : Heap} {roots : List Address} {sizes : List Nat} {e : Fault}
    (failed : Failed h k roots sizes e) : e ≠ .deadlock := by
  rcases failed.cause with rfl | ⟨n, -, rfl, -⟩ <;> simp

/-- A new channel was not live, buffers nothing, and is all that was added. -/
theorem Sound.newChannel_spares (hs : h.Sound) (hroots : ∀ a ∈ roots.get, h.InUse a)
    (capacity : Nat) :
    Ensures (newChannel capacity roots) h
      (fun a k => capacity ≤ maxCapacity ∧ Spares h k roots.get (· = a) ∧
        Made h k roots.get a (channelHeader capacity) (emptyRing (max capacity 1)))
      (fun e k => e ≠ .deadlock ∧ Spares h k roots.get fun _ => False) := by
  refine ((hs.newChannel_ensures hroots capacity).and (hs.newChannel_inherits hroots capacity)).mono
    ?_ ?_
  · rintro a k ⟨⟨hle, made⟩, inherits⟩
    exact ⟨hle, .of_inherits hs hroots made.toGrows inherits fun _ _ heq _ => heq, made⟩
  · rintro e k ⟨⟨rfl, -, rfl⟩ | ⟨-, refused⟩, adds⟩
    · exact ⟨by simp, .refl hs hroots⟩
    · exact ⟨refused.ne_deadlock, .of_addsPlain hs hroots refused.toGrows adds⟩

/-- A new wait-group was not live, has a counter of its own at zero, and is all that was added. -/
theorem Sound.newWaitGroup_spares (hs : h.Sound) (hroots : ∀ a ∈ roots.get, h.InUse a) :
    Ensures (newWaitGroup roots) h
      (fun a k => Spares h k roots.get (· = a) ∧ ¬ h.Live roots.get a ∧ Grows h k roots.get ∧
        k.InUse a ∧ k.tag a = .waitGroup ∧
        (∀ b, k.InUse b → k.tag b = .waitGroup → k.word b 1 = k.word a 1 → b = a) ∧
        k.groupCount a = .zero)
      (fun e k => e ≠ .deadlock ∧ Spares h k roots.get fun _ => False) := by
  refine ((hs.newWaitGroup_ensures hroots).and (hs.newWaitGroup_inherits hroots)).mono ?_ ?_
  · rintro a k ⟨⟨counter, hcounter, made⟩, inherits⟩
    have hword : k.word a 1 = counter := made.toHolds.word 0 counter rfl
    have hnumber : k.tag (k.word a 1) = .number := hword ▸ hcounter.toHolds.tag
    refine ⟨.of_inherits hs hroots made.toGrows inherits ?_, made.not_live, made.toGrows,
      made.toInUse, made.toHolds.tag, ?_, ?_⟩
    · rintro b - (rfl | rfl) hmeeting
      · rw [hnumber] at hmeeting
        cases hmeeting
      · rfl
    · intro b hb htag heq
      refine Decidable.byContradiction fun hne => ?_
      have hrange : (k.header b).childRange = (1, 2) := childRange_of_tag htag
      have hold : ¬ (b = k.word a 1 ∨ b = a) := by
        rintro (rfl | rfl)
        · rw [hnumber] at htag
          cases htag
        · exact hne rfl
      exact inherits.child b hb hold 1 (Nat.le_of_eq (congrArg Prod.fst hrange))
        (by rw [hrange]; decide) (.inl heq)
    · rw [groupCount, number?, if_pos hnumber, hword, hcounter.toHolds.word 0 _ rfl]
      rfl
  · rintro e k ⟨failed, adds⟩
    exact ⟨failed.ne_deadlock, .of_addsPlain hs hroots failed.toGrows adds⟩

end New

/-! ## Counters -/

section Counters

variable {h : Heap} {g : Address}

theorem number?_setNumber {a : Address} (ha : h.IsBlock a) (htag : h.tag a = .number)
    (x : Number) : (h.setNumber a x).number? a = some x := by
  have htag' : (h.setNumber a x).tag a = h.tag a :=
    congrArg Header.tag (header_setWord ha ha (by decide) (by decide) _)
  have hword : (h.setNumber a x).word a 1 = x.bits.toNat := by
    rw [setNumber, word_setWord_block ha ha (by decide) (by decide), if_pos ⟨rfl, rfl⟩]
  rw [number?, if_pos (htag'.trans htag), hword, UInt64.ofNat_toNat]

/-- What happens to a wait-group whose counter is written. -/
theorem Sound.word_setGroupCount (hs : h.Sound) (hg : h.InUse g) (htag : h.tag g = .waitGroup)
    (x : Number) {a : Address} (ha : h.InUse a) (hatag : h.tag a = .waitGroup) :
    (h.setGroupCount g x).word a 1 = h.word a 1 := by
  have u := hs.setGroupCount hg htag x
  refine (u.toWrites.same ha.toIsBlock fun heq => ?_).word 1 (by decide) (by decide)
  rw [heq, (hs.counter hg htag).2] at hatag
  cases hatag

theorem SameArena.groupCount (arena : SameArena h k) (a : Address) :
    k.groupCount a = h.groupCount a := by
  rw [Heap.groupCount, Heap.groupCount, number?, number?, arena.word, arena.tag, arena.word]

theorem Sound.groupCount_setGroupCount (hs : h.Sound) (hg : h.InUse g)
    (htag : h.tag g = .waitGroup) (x : Number) : (h.setGroupCount g x).groupCount g = x := by
  obtain ⟨hin, hnumber⟩ := hs.counter hg htag
  rw [groupCount, hs.word_setGroupCount hg htag x hg htag, Heap.setGroupCount,
    number?_setNumber hin.toIsBlock hnumber, Option.getD_some]

/-- Where counters are distinct, a write to one of them spares the other wait-groups. -/
theorem Spares.of_setGroupCount {roots : List Address} (hs : h.Sound)
    (hroots : ∀ a ∈ roots, h.InUse a) (hdistinct : h.DistinctCounters) (hg : h.InUse g)
    (htag : h.tag g = .waitGroup) (x : Number) : Spares h (h.setGroupCount g x) roots (· = g) := by
  have u := hs.setGroupCount hg htag x
  obtain ⟨hin, hnumber⟩ := hs.counter hg htag
  have hback : ∀ a, (h.setGroupCount g x).InUse a → h.InUse a := fun a ha =>
    (InUse.congr u.toWrites.size (u.tag (u.toWrites.isBlock.1 ha.toIsBlock))).1 ha
  refine ⟨?_, ?_, ?_⟩
  · intro a ha
    have hain := hs.inUse_of_live hroots ha
    exact ⟨u.inUse hain, u.tag hain.toIsBlock⟩
  · intro a ha hmeeting _
    have hain := hback a ha
    refine ⟨hain, u.toWrites.same hain.toIsBlock fun heq => ?_⟩
    rw [u.tag hain.toIsBlock, heq, hnumber] at hmeeting
    cases hmeeting
  · intro a ha hatag hne
    have hain := hback a ha
    rw [u.tag hain.toIsBlock] at hatag
    rw [hs.word_setGroupCount hg htag x hain hatag]
    refine u.toWrites.same (hs.counter hain hatag).1.toIsBlock fun heq => hne ?_
    exact hdistinct a g hain hatag hg htag heq

/-- Counters stay distinct when one of them is written. -/
theorem DistinctCounters.setGroupCount (hdistinct : h.DistinctCounters) (hs : h.Sound)
    (hg : h.InUse g) (htag : h.tag g = .waitGroup) (x : Number) :
    (h.setGroupCount g x).DistinctCounters := by
  have u := hs.setGroupCount hg htag x
  have hback : ∀ a, (h.setGroupCount g x).InUse a → h.InUse a := fun a ha =>
    (InUse.congr u.toWrites.size (u.tag (u.toWrites.isBlock.1 ha.toIsBlock))).1 ha
  intro a b ha hatag hb hbtag heq
  have hain := hback a ha
  have hbin := hback b hb
  rw [u.tag hain.toIsBlock] at hatag
  rw [u.tag hbin.toIsBlock] at hbtag
  rw [hs.word_setGroupCount hg htag x hain hatag, hs.word_setGroupCount hg htag x hbin hbtag] at heq
  exact hdistinct a b hain hatag hbin hbtag heq

end Counters

end ChannelMachine.Heap

import ChannelMachine.Proofs.Machine.Counters
import ChannelMachine.Proofs.Machine.Hiding
import ChannelMachine.Proofs.Machine.Rereading
import ChannelMachine.Proofs.Machine.Resuming
import ChannelMachine.Proofs.Machine.Standing

/-!
# Turns that wait for one another

If two threads are independent, it makes no difference to what the instruction of one of them does whether
the other one has its turn before: the other one writes none of what the instruction reads
(`Settled.effect?_deferred`).  Neither do both of them write the same words
(`Settled.writes_apart`).

That counters are hidden is essential here: two numbers could be compared while a thread counts, but
neither of them is a counter.
-/

namespace ChannelMachine.Machine

variable {program : Program} {m k a b c : Machine} {i : Instruction} {t u : ThreadId} {e : Effect}
  {f : Nat → Address}

/-! ## Machines between instructions -/

/-- A machine of which no thread runs, and all of which is in order. -/
structure Settled (m : Machine) : Prop extends Run.AtRest m where
  /-- The counters of wait-groups are hidden. -/
  hides : m.heap.Hides
  /-- No thread has got hold of one. -/
  operands : ∀ (t : ThreadId) (r : Registers), m.threads[t]? = some r →
    ∀ x ∈ r.stack, ¬ m.heap.Counter x
  /-- No two wait-groups have the same one. -/
  distinct : m.heap.DistinctCounters
  /-- No thread waits to be made ready. -/
  runnable : m.runnable = []
  /-- The number of the next thread is new. -/
  thread : ∀ (t : ThreadId) (r : Registers), m.threads[t]? = some r → t < m.nextThread
  /-- The threads that wait have lower numbers, too. -/
  queued : ∀ p, ∀ t ∈ m.queue p, t < m.nextThread

/-- The number of a thread is not the next one. -/
theorem Settled.ne_next (hm : m.Settled) (hresume : m.resume t = some a) : t ≠ m.nextThread := by
  obtain ⟨r, hr, -⟩ := of_resume hresume
  exact Nat.ne_of_lt (hm.thread t r hr)

/-- A turn leaves all in order. -/
theorem Settled.turn (hm : m.Settled) {turn : Turn} (hturn : m.turn? program t = some turn) :
    turn.machine.Settled := by
  obtain ⟨l, k, hresume, hstep, -, hmachine⟩ := of_turn? hturn
  have hnext := hm.ne_next hresume
  have hl : l.Sound := hm.toResting.resume hresume
  have hk : k.Sound := (hl.leaves_step program).of_ok hstep
  have acts := (hl.does_step program).of_ok hstep
  obtain ⟨leave, woken, started, joins, shifts, -⟩ := acts.passes hl
  obtain ⟨r, hr, rfl⟩ := of_resume hresume
  have htable : ∀ {x : ThreadId} {s : Registers}, (m.threads.erase t)[x]? = some s →
      m.threads[x]? = some s := by
    intro x s hs
    rw [getElem?_erase_thread] at hs
    split at hs
    next => cases hs
    next => exact hs
  have hbound : t < k.nextThread := Nat.lt_of_lt_of_le (hm.thread t r hr) shifts.nextThread_le
  have hcurrent : k.current = t := shifts.current
  have hgone : k.threads[t]? = none :=
    (shifts.threads_eq hnext).trans ((getElem?_erase_thread m.threads t t).trans (if_pos rfl))
  have filed := hk.filed hcurrent hgone turn.progress
  rw [← hmachine] at filed
  have veiled : k.Veiled := ((hl.confined_step ⟨hm.hides, hm.operands t r hr,
    fun x s hs => hm.operands x s (htable hs)⟩ program).of_ok hstep).2
  refine {
    toAtRest := filed.rest
    hides := filed.heap ▸ veiled.heap
    operands := fun x s hs => ?_
    distinct := filed.heap ▸ acts.distinctCounters hl hm.distinct
    runnable := filed.runnable
    thread := fun x s hs => ?_
    queued := fun p x hx => ?_ }
  · rw [filed.heap]
    rw [filed.threads] at hs
    split at hs
    next =>
      split at hs
      next => cases hs
      next => exact Option.some.inj hs ▸ veiled.registers
    next => exact veiled.threads x s hs
  · rw [filed.nextThread]
    rw [filed.threads] at hs
    split at hs
    next hx => exact hx ▸ hbound
    next =>
      rcases shifts.isSome_threads.1 (Option.isSome_of_eq_some hs) with hstarted | hsome
      · obtain ⟨rfl, hnew⟩ := shifts.eq_of_started hstarted
        exact hnew ▸ Nat.lt_succ_self _
      · obtain ⟨s', hs'⟩ := Option.isSome_iff_exists.1 hsome
        exact Nat.lt_of_lt_of_le (hm.thread x s' (htable hs')) shifts.nextThread_le
  · rw [filed.nextThread]
    rw [filed.queue] at hx
    rcases shifts.requeues.mem hx with hold | ⟨-, rfl⟩
    · exact Nat.lt_of_lt_of_le (hm.queued p x (List.mem_of_mem_drop hold)) shifts.nextThread_le
    · exact hbound

/-- A machine, and another one that it can become if threads take turns, in whatever order. -/
inductive LeadsTo (program : Program) (m : Machine) : Machine → Prop where
  /-- No thread had a turn. -/
  | refl : LeadsTo program m m
  /-- One thread more had a turn. -/
  | turn {k : Machine} {t : ThreadId} {turn : Turn} (leads : LeadsTo program m k)
      (hturn : k.turn? program t = some turn) : LeadsTo program m turn.machine

/-- However threads take turns, all stays in order. -/
theorem Settled.leadsTo (hm : m.Settled) (leads : LeadsTo program m k) : k.Settled := by
  induction leads with
  | refl => exact hm
  | turn _ hturn ih => exact ih.turn hturn

/-! ## What an instruction works on is on the stack -/

theorem mem_of_channel? {x : Address} (hx : m.channel? i = some x) : x ∈ m.registers.stack := by
  unfold channel? at hx
  split at hx
  next => exact List.mem_of_getElem? hx
  next => exact List.mem_of_getElem? hx
  next n =>
    split at hx
    next =>
      have hhead := (Option.filter_eq_some_iff.1 hx).1
      exact List.mem_of_mem_take (List.mem_reverse.1 (List.mem_of_mem_head? hhead))
    next => cases hx
  next n =>
    split at hx
    next =>
      have hhead := (Option.filter_eq_some_iff.1 hx).1
      exact List.mem_of_mem_take (List.mem_reverse.1 (List.mem_of_mem_head? hhead))
    next => cases hx
  next => cases hx

theorem mem_of_group? {g : Address} (hg : m.group? i = some g) : g ∈ m.registers.stack := by
  unfold group? at hg
  split at hg
  next => exact List.mem_of_getElem? hg
  next => exact List.mem_of_getElem? hg
  next => exact List.mem_of_getElem? hg
  next => cases hg

/-- A place at which an instruction works is one of a live node. -/
theorem live_of_worksAt {p : Place} (works : m.WorksAt i p) : m.heap.Live m.roots p.address := by
  cases p with
  | channel side x => exact Sound.live_stack (mem_of_channel? works.1)
  | group g => exact Sound.live_stack (mem_of_group? works.1)

/-- What is written is a variable, a channel or a number. -/
theorem Sound.tag_of_worksOn (hm : m.Sound) {x : Address} {j : Nat} (works : m.WorksOn i x j) :
    m.heap.tag x = .frame ∨ m.heap.tag x = .channel ∨ m.heap.tag x = .number := by
  cases works with
  | slot _ _ tag => exact .inl tag
  | channel _ tag => exact .inr (.inl tag)
  | counter group tag =>
    exact .inr (.inr (hm.heap.counter (hm.registers.stack _ (mem_of_group? group)).1 tag).2)

/-- A channel that is written is the one that the instruction works on. -/
theorem Sound.channel_of_worksOn (hm : m.Sound) {x : Address} {j : Nat} (works : m.WorksOn i x j)
    (htag : m.heap.tag x = .channel) : m.channel? i = some x := by
  cases works with
  | slot _ _ tag =>
    rw [htag] at tag
    cases tag
  | channel channel _ => exact channel
  | counter group tag =>
    have hnumber := (hm.heap.counter (hm.registers.stack _ (mem_of_group? group)).1 tag).2
    rw [htag] at hnumber
    cases hnumber

/-- A number that is written is the counter of the wait-group that the instruction works on. -/
theorem Sound.counter_of_worksOn (hm : m.Sound) {x : Address} {j : Nat} (works : m.WorksOn i x j)
    (htag : m.heap.tag x = .number) : ∃ g, m.group? i = some g ∧ m.heap.InUse g ∧
      m.heap.tag g = .waitGroup ∧ x = m.heap.word g 1 := by
  cases works with
  | slot _ _ tag | channel _ tag =>
    rw [htag] at tag
    cases tag
  | counter group tag =>
    exact ⟨_, group, (hm.registers.stack _ (mem_of_group? group)).1, tag, rfl⟩

/-- A variable that is written is the one that the instruction assigns. -/
theorem Sound.slot_of_worksOn (hm : m.Sound) {x : Address} {j : Nat} (works : m.WorksOn i x j)
    (htag : m.heap.tag x = .frame) : assigns i = true ∧ m.slot? i = some (x, j) := by
  cases works with
  | slot assigns slot _ => exact ⟨assigns, slot⟩
  | channel _ tag =>
    rw [htag] at tag
    cases tag
  | counter group tag =>
    have hnumber := (hm.heap.counter (hm.registers.stack _ (mem_of_group? group)).1 tag).2
    rw [htag] at hnumber
    cases hnumber

/-- A variable is a word of a live frame. -/
theorem Sound.of_slot? (hm : m.Sound) {x : Address} {j : Nat} (hslot : m.slot? i = some (x, j)) :
    m.heap.Live m.roots x ∧ m.heap.tag x = .frame ∧ 1 ≤ j ∧ j < nodeSize := by
  obtain ⟨p, hslot⟩ : ∃ p, m.heap.slotOf? m.registers.environment p = some (x, j) := by
    unfold slot? at hslot
    split at hslot
    next p => exact ⟨p, hslot⟩
    next p => exact ⟨p, hslot⟩
    next => cases hslot
  obtain ⟨hlive, htag, hpos, hlt⟩ :=
    hm.heap.live_slotOf? hm.inUse_root live_environment hm.registers.tag hslot
  exact ⟨hlive, htag, hpos, Nat.lt_of_lt_of_le hlt (hm.heap.typed x (hm.inUse_of_live hlive)).le⟩

/-! ## Two threads -/

/-- Independent threads wait and wake at different places. -/
theorem Independent.places (independent : Independent program a b) {p : Place}
    (works : a.WorksAt (a.instruction program) p) : ¬ b.WorksAt (b.instruction program) p := by
  intro works'
  cases p with
  | channel side x => exact independent.channel x works.1 works'.1
  | group g => exact independent.group g works.1 works'.1

section Deferred

variable (hm : m.Settled) (hresume : m.resume t = some a) (hresume' : m.resume u = some b)
  (independent : Independent program a b)

include hm hresume hresume' independent

/-- Independent threads write different words. -/
theorem Settled.writes_apart {x : Address} {j : Nat} (works : a.WorksOn (a.instruction program) x j) :
    ¬ b.WorksOn (b.instruction program) x j := by
  intro works'
  have ha := hm.toResting.resume hresume
  have hb := hm.toResting.resume hresume'
  obtain ⟨r, -, rfl⟩ := of_resume hresume
  obtain ⟨s, -, rfl⟩ := of_resume hresume'
  rcases ha.tag_of_worksOn works with htag | htag | htag
  · obtain ⟨hassigns, hslot⟩ := ha.slot_of_worksOn works htag
    have hslot' := (hb.slot_of_worksOn works' htag).2
    exact Bool.noConfusion (hassigns.symm.trans (independent.slot _ hslot hslot').1)
  · exact independent.channel x (ha.channel_of_worksOn works htag) (hb.channel_of_worksOn works' htag)
  · obtain ⟨g, hg, hin, hgroup, rfl⟩ := ha.counter_of_worksOn works htag
    obtain ⟨g', hg', hin', hgroup', hword⟩ := hb.counter_of_worksOn works' htag
    obtain rfl := hm.distinct g g' hin hgroup hin' hgroup' hword
    exact independent.group g hg hg'

variable (htu : t ≠ u) (handles : Handles a (a.instruction program) e) (turned : Turned m k t e f)
  (hlater : k.resume u = some c)

include htu handles turned hlater

/-- After the turn of one thread, the other one finds all that its instruction reads as it was. -/
theorem Settled.repeats : Repeats b c (b.instruction program) := by
  have ha := hm.toResting.resume hresume
  have hb := hm.toResting.resume hresume'
  have hlive := live_resume hm.toAtRest hresume'
  have hu := hm.ne_next hresume'
  obtain ⟨r, hr, rfl⟩ := of_resume hresume
  obtain ⟨s, hs, rfl⟩ := of_resume hresume'
  obtain ⟨s', hs', rfl⟩ := of_resume hlater
  have hregisters : s' = s := by
    rw [turned.other u htu.symm fun h => absurd h hu, hs] at hs'
    exact (Option.some.inj hs').symm
  -- Nothing but what the first thread works on is written.
  have hwrites : ∀ {x j}, e.toChange.Writes x j → Machine.WorksOn _ _ x j := fun ⟨w, hw⟩ =>
    handles.writes _ _ w hw
  have hkind : ∀ {x}, m.heap.tag x ≠ .channel → ∀ t, e.kind ≠ some (x, t) := fun hne t ht =>
    hne (handles.kind _ t ht).2
  have hsame : ∀ x, m.heap.Live m.roots x → m.heap.tag x ≠ .frame → m.heap.tag x ≠ .channel →
      m.heap.tag x ≠ .number → Heap.SameNode m.heap k.heap x := by
    intro x hx hframe hchannel hnumber
    refine turned.heap.same hx (hkind hchannel) fun j hw => ?_
    rcases ha.tag_of_worksOn (hwrites hw) with h | h | h
    · exact hframe h
    · exact hchannel h
    · exact hnumber h
  refine {
    registers := hregisters
    builtins := turned.builtins
    typedChannels := turned.typedChannels
    inUse := fun x hx => turned.heap.inUse x ((hlive x).1 hx)
    header := fun x hx hne => turned.heap.header x ((hlive x).1 hx) (hkind hne)
    same := fun x hx => hsame x ((hlive x).1 hx)
    looks := fun x hx => ?_
    slot := fun x j hslot => ?_
    channel := fun x hx htag => ?_
    group := fun g hg htag => ?_
    queue := fun p works => ?_ }
  · have hxlive : m.heap.Live m.roots x := (hlive x).1 (Sound.live_stack hx)
    have htag := turned.heap.tag hxlive
    refine ⟨htag, ?_, turned.heap.text x hxlive, fun hne => congrArg Header.payload
      (turned.heap.header x hxlive (hkind hne))⟩
    change k.heap.number? x = m.heap.number? x
    rw [Heap.number?, Heap.number?, htag]
    by_cases hnumber : m.heap.tag x = .number
    · -- The only numbers that are written are counters, and an operand is none.
      have hnot : ¬ e.toChange.Writes x 1 := by
        intro hw
        obtain ⟨g, -, hin, hgroup, rfl⟩ := ha.counter_of_worksOn (hwrites hw) hnumber
        exact hm.operands u s hs _ hx ⟨g, hin, hgroup, rfl⟩
      rw [turned.heap.word_of_not hxlive (Nat.le_refl 1) (by decide) hnot]
    · rw [if_neg hnumber, if_neg hnumber]
  · obtain ⟨hxlive, htag, hpos, hlt⟩ := hb.of_slot? hslot
    refine turned.heap.word_of_not ((hlive x).1 hxlive) hpos hlt fun hw => ?_
    obtain ⟨hassigns, hslot'⟩ := ha.slot_of_worksOn (hwrites hw) htag
    exact Bool.noConfusion (hassigns.symm.trans (independent.slot _ hslot' hslot).1)
  · have hxlive : m.heap.Live m.roots x := (hlive x).1 (Sound.live_stack (mem_of_channel? hx))
    refine turned.heap.same hxlive (fun kind hk => ?_) fun j hw => ?_
    · exact independent.channel x (handles.kind x kind hk).1 hx
    · exact independent.channel x (ha.channel_of_worksOn (hwrites hw) htag) hx
  · have hglive : m.heap.Live m.roots g := (hlive g).1 (Sound.live_stack (mem_of_group? hg))
    have hin := (hb.registers.stack g (mem_of_group? hg)).1
    have htag' : m.heap.tag g = .waitGroup := htag
    have hcounter := (hm.heap.counter hin htag).2
    have hrange : (m.heap.header g).childRange = (1, 2) := Heap.childRange_of_tag htag
    have hclive : m.heap.Live m.roots (m.heap.word g 1) := by
      refine hm.heap.live_child hm.inUse_root hglive (by rw [htag']; decide) ?_ ?_
      all_goals simp [hrange]
    have hword : k.heap.word g 1 = m.heap.word g 1 :=
      (hsame g hglive (by rw [htag']; decide) (by rw [htag']; decide) (by rw [htag']; decide)).word 1
        (Nat.le_refl 1) (by decide)
    have hnot : ¬ e.toChange.Writes (m.heap.word g 1) 1 := by
      intro hw
      obtain ⟨g', hg', hin', hgroup', hsame⟩ := ha.counter_of_worksOn (hwrites hw) hcounter
      obtain rfl := hm.distinct g g' hin htag hin' hgroup' hsame
      exact independent.group g hg' hg
    change k.heap.groupCount g = m.heap.groupCount g
    rw [Heap.groupCount, Heap.groupCount, hword, Heap.number?, Heap.number?, turned.heap.tag hclive,
      turned.heap.word_of_not hclive (Nat.le_refl 1) (by decide) hnot]
  · have hleave : e.leave p = 0 := by
      by_contra hne
      exact independent.places (handles.leave p hne) works
    have hjoins : e.joins ≠ some p := fun hp => independent.places (handles.joins p hp) works
    change k.queue p = m.queue p
    rw [turned.queue p ((hlive _).1 (live_of_worksAt works)), hleave, if_neg hjoins, List.drop_zero,
      List.append_nil]

/-- The instruction of a thread does the same before and after the turn of an independent one. -/
theorem Settled.effect?_deferred : c.effect? program = b.effect? program := by
  have repeats := hm.repeats hresume hresume' independent htu handles turned hlater
  have hinstruction : c.instruction program = b.instruction program := by
    rw [instruction, instruction, repeats.registers]
  change c.effectOf? program (c.instruction program) = _
  rw [hinstruction]
  exact repeats.effectOf?_eq (hm.toResting.resume hresume')

end Deferred

end ChannelMachine.Machine

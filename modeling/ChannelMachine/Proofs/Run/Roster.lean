import ChannelMachine.Proofs.Machine.Standing
import ChannelMachine.Proofs.Run.Safety

/-!
# The roster of threads

Where a thread is is written down in four places: the scheduler knows which threads are ready, which
are blocked and which one runs, the machine keeps the registers of those that do not run, and the
blocked ones stand in the queues of channels and wait-groups.  `Roster m s joins` says that the four
agree.  In the middle of a turn the running thread may already stand in a queue; `joins` is the place
if it does.

A thread may be woken that waits nowhere, and then nothing happens to it (`Scheduler.makeReady`).  In a
roster this is never needed: only threads that wait are woken, and each of them once.
-/

namespace ChannelMachine

/-! ## The scheduler -/

namespace Scheduler

/-- No thread is listed twice. -/
structure Orderly (s : Scheduler) : Prop where
  /-- No thread is ready twice. -/
  ready : s.ready.Nodup
  /-- No thread is blocked twice. -/
  blocked : s.blocked.Nodup
  /-- No thread is both ready and blocked. -/
  disjoint : ∀ t, t ∈ s.ready → t ∉ s.blocked
  /-- The running thread is neither. -/
  running : ∀ t, s.running = some t → t ∉ s.ready ∧ t ∉ s.blocked

variable {s : Scheduler} {t u : ThreadId}

theorem running_makeReady (s : Scheduler) (t : ThreadId) : (s.makeReady t).running = s.running := by
  unfold makeReady
  split
  · rfl
  · rfl

theorem mem_ready_makeReady : u ∈ (s.makeReady t).ready ↔
    u ∈ s.ready ∨ (u = t ∧ s.running ≠ some t) := by
  unfold makeReady
  split
  next hor =>
    constructor
    · exact .inl
    · rintro (hu | ⟨rfl, hne⟩)
      · exact hu
      · exact hor.resolve_left hne
  next hnot =>
    obtain ⟨hrunning, -⟩ := not_or.1 hnot
    simp [hrunning]

theorem mem_blocked_makeReady (hs : s.Orderly) :
    u ∈ (s.makeReady t).blocked ↔ u ∈ s.blocked ∧ u ≠ t := by
  unfold makeReady
  split
  next hor =>
    constructor
    · intro hu
      refine ⟨hu, ?_⟩
      rintro rfl
      rcases hor with hrunning | hready
      · exact (hs.running _ hrunning).2 hu
      · exact hs.disjoint _ hready hu
    · exact fun hu => hu.1
  next => simp [List.mem_filter]

theorem Orderly.makeReady (hs : s.Orderly) (t : ThreadId) : (s.makeReady t).Orderly := by
  unfold Scheduler.makeReady
  split
  next => exact hs
  next hnot =>
    obtain ⟨hrunning, hready⟩ := not_or.1 hnot
    refine ⟨?_, hs.blocked.filter _, ?_, ?_⟩
    · rw [List.nodup_append]
      refine ⟨hs.ready, by simp, ?_⟩
      rintro u hu v hv rfl
      exact hready (List.mem_singleton.1 hv ▸ hu)
    · intro u hu hub
      simp only [List.mem_append, List.mem_singleton, List.mem_filter, decide_eq_true_eq] at hu hub
      rcases hu with hu | rfl
      · exact hs.disjoint u hu hub.1
      · exact hub.2 rfl
    · intro u hu
      simp only [List.mem_append, List.mem_singleton, List.mem_filter]
      refine ⟨?_, fun h => (hs.running u hu).2 h.1⟩
      rintro (h | rfl)
      · exact (hs.running u hu).1 h
      · exact hrunning hu

/-- The scheduler after several threads became ready. -/
def makeAllReady (s : Scheduler) (ts : List ThreadId) : Scheduler := ts.foldl makeReady s

theorem running_makeAllReady (s : Scheduler) (ts : List ThreadId) :
    (s.makeAllReady ts).running = s.running := by
  induction ts generalizing s with
  | nil => rfl
  | cons t rest ih => exact (ih (s.makeReady t)).trans (running_makeReady s t)

theorem Orderly.makeAllReady (hs : s.Orderly) (ts : List ThreadId) :
    (s.makeAllReady ts).Orderly := by
  induction ts generalizing s with
  | nil => exact hs
  | cons t rest ih => exact ih (hs.makeReady t)

theorem mem_ready_makeAllReady (ts : List ThreadId) :
    u ∈ (s.makeAllReady ts).ready ↔ u ∈ s.ready ∨ (u ∈ ts ∧ s.running ≠ some u) := by
  induction ts generalizing s with
  | nil => simp [makeAllReady]
  | cons t rest ih =>
    rw [makeAllReady, List.foldl_cons]
    refine ih.trans ?_
    rw [mem_ready_makeReady, running_makeReady, List.mem_cons]
    constructor
    · rintro ((h | ⟨rfl, h⟩) | ⟨h, h'⟩)
      · exact .inl h
      · exact .inr ⟨.inl rfl, h⟩
      · exact .inr ⟨.inr h, h'⟩
    · rintro (h | ⟨rfl | h, h'⟩)
      · exact .inl (.inl h)
      · exact .inl (.inr ⟨rfl, h'⟩)
      · exact .inr ⟨h, h'⟩

/-- Threads that are neither ready nor running become the last ready ones. -/
theorem ready_makeAllReady (ts : List ThreadId) (hnodup : ts.Nodup)
    (hnew : ∀ t ∈ ts, t ∉ s.ready ∧ s.running ≠ some t) :
    (s.makeAllReady ts).ready = s.ready ++ ts := by
  induction ts generalizing s with
  | nil => exact (List.append_nil _).symm
  | cons t rest ih =>
    obtain ⟨hready, hrunning⟩ := hnew t (List.mem_cons_self ..)
    obtain ⟨hnot, hrest⟩ := List.nodup_cons.1 hnodup
    have hmake : (s.makeReady t).ready = s.ready ++ [t] := by
      rw [makeReady, if_neg (not_or.2 ⟨hrunning, hready⟩)]
    rw [makeAllReady, List.foldl_cons]
    refine (ih hrest fun u hu => ?_).trans ?_
    · obtain ⟨huready, hurunning⟩ := hnew u (List.mem_cons_of_mem _ hu)
      rw [hmake, running_makeReady, List.mem_append, List.mem_singleton]
      refine ⟨not_or.2 ⟨huready, ?_⟩, hurunning⟩
      rintro rfl
      exact hnot hu
    · rw [hmake, List.append_assoc]
      rfl

theorem mem_blocked_makeAllReady (hs : s.Orderly) (ts : List ThreadId) :
    u ∈ (s.makeAllReady ts).blocked ↔ u ∈ s.blocked ∧ u ∉ ts := by
  induction ts generalizing s with
  | nil => simp [makeAllReady]
  | cons t rest ih =>
    rw [makeAllReady, List.foldl_cons]
    refine (ih (hs.makeReady t)).trans ?_
    rw [mem_blocked_makeReady hs, List.mem_cons, not_or, and_assoc]

/-- What the scheduler does to let a thread run. -/
theorem of_next {s' : Scheduler} (hnext : s.next = .ok (t, s')) :
    s.ready = t :: s'.ready ∧ s'.blocked = s.blocked ∧ s'.running = some t := by
  unfold next at hnext
  split at hnext
  next u rest hready =>
    simp only [Except.ok.injEq, Prod.mk.injEq] at hnext
    obtain ⟨rfl, rfl⟩ := hnext
    exact ⟨hready, rfl, rfl⟩
  next => cases hnext

theorem Orderly.next (hs : s.Orderly) {s' : Scheduler} (hnext : s.next = .ok (t, s')) : s'.Orderly := by
  obtain ⟨hready, hblocked, hrunning⟩ := of_next hnext
  obtain ⟨hnot, hnodup⟩ := List.nodup_cons.1 (hready ▸ hs.ready)
  refine ⟨hnodup, hblocked ▸ hs.blocked, fun u hu => ?_, fun u hu => ?_⟩
  · rw [hblocked]
    exact hs.disjoint u (hready ▸ List.mem_cons_of_mem t hu)
  · obtain rfl := Option.some.inj (hrunning.symm.trans hu)
    exact ⟨hnot, hblocked ▸ hs.disjoint t (hready ▸ List.mem_cons_self ..)⟩

theorem Orderly.suspend (hs : s.Orderly) : s.suspend.Orderly := by
  unfold Scheduler.suspend
  split
  next t hrunning =>
    obtain ⟨hready, hblocked⟩ := hs.running t hrunning
    refine ⟨?_, hs.blocked, fun u hu => ?_, nofun⟩
    · rw [List.nodup_append]
      refine ⟨hs.ready, by simp, ?_⟩
      rintro u hu v hv rfl
      exact hready (List.mem_singleton.1 hv ▸ hu)
    · rcases List.mem_append.1 hu with hu | hu
      · exact hs.disjoint u hu
      · exact List.mem_singleton.1 hu ▸ hblocked
  next => exact hs

theorem Orderly.block (hs : s.Orderly) : s.block.Orderly := by
  unfold Scheduler.block
  split
  next t hrunning =>
    obtain ⟨hready, hblocked⟩ := hs.running t hrunning
    refine ⟨hs.ready, ?_, fun u hu hin => ?_, nofun⟩
    · rw [List.insert_of_not_mem hblocked]
      exact List.nodup_cons.2 ⟨hblocked, hs.blocked⟩
    · rcases List.mem_insert_iff.1 hin with rfl | hin
      · exact hready hu
      · exact hs.disjoint u hu hin
  next => exact hs

theorem Orderly.kill (hs : s.Orderly) : s.kill.Orderly :=
  ⟨hs.ready, hs.blocked, hs.disjoint, nofun⟩

theorem exists_draw (s : Scheduler) : ∃ random, s.draw.2 = { s with random } := ⟨_, rfl⟩

/-- Drawing a quantum changes nothing else. -/
theorem draw_snd (s : Scheduler) :
    s.draw.2.ready = s.ready ∧ s.draw.2.blocked = s.blocked ∧ s.draw.2.running = s.running := by
  -- The number that is drawn stays a variable, or else it would be computed.
  obtain ⟨random, heq⟩ := s.exists_draw
  rw [heq]
  exact ⟨rfl, rfl, rfl⟩

end Scheduler

/-! ## Rosters -/

/-- The scheduler, the thread table and the queues agree. -/
structure Roster (m : Machine) (s : Scheduler) (joins : Option Place) : Prop
    extends s.Orderly where
  /-- No thread waits to be made ready. -/
  runnable : m.runnable = []
  /-- The thread table has the threads that are ready or blocked. -/
  table : ∀ t : ThreadId, m.threads[t]?.isSome ↔ t ∈ s.ready ∨ t ∈ s.blocked
  /-- The number of the next thread is new. -/
  bound : ∀ t, t ∈ s.ready ∨ t ∈ s.blocked ∨ s.running = some t → t < m.nextThread
  /-- The running thread has the registers. -/
  current : ∀ t, s.running = some t → t = m.current
  /-- The threads in a queue are blocked, or about to be. -/
  queued : ∀ p t, t ∈ m.queue p → t ∈ s.blocked ∨ (joins = some p ∧ s.running = some t)
  /-- No thread stands in a queue twice. -/
  nodup : ∀ p, (m.queue p).Nodup
  /-- No thread stands in two queues. -/
  unique : ∀ p q t, t ∈ m.queue p → t ∈ m.queue q → p = q

namespace Roster

variable {m k : Machine} {s s' : Scheduler} {joins : Option Place}

/-- What counts of the machine and of the scheduler. -/
theorem congr (roster : Roster m s joins) (hrunnable : k.runnable = m.runnable)
    (hthreads : k.threads = m.threads) (hnext : k.nextThread = m.nextThread)
    (hcurrent : k.current = m.current) (hqueue : ∀ p, k.queue p = m.queue p)
    (hready : s'.ready = s.ready) (hblocked : s'.blocked = s.blocked)
    (hrunning : s'.running = s.running) : Roster k s' joins := by
  refine ⟨⟨?_, ?_, ?_, ?_⟩, ?_, ?_, ?_, ?_, ?_, ?_, ?_⟩
  · exact hready ▸ roster.ready
  · exact hblocked ▸ roster.blocked
  · rw [hready, hblocked]
    exact roster.disjoint
  · rw [hready, hblocked, hrunning]
    exact roster.running
  · exact hrunnable.trans roster.runnable
  · rw [hthreads, hready, hblocked]
    exact roster.table
  · rw [hnext, hready, hblocked, hrunning]
    exact roster.bound
  · rw [hcurrent, hrunning]
    exact roster.current
  · intro p t ht
    rw [hblocked, hrunning]
    exact roster.queued p t (hqueue p ▸ ht)
  · exact fun p => (hqueue p).symm ▸ roster.nodup p
  · intro p q t hp hq
    exact roster.unique p q t (hqueue p ▸ hp) (hqueue q ▸ hq)

theorem noted (roster : Roster m s joins) (e : Event) : Roster (m.note e) s joins := by
  obtain ⟨core, hchannels, hgroups, hrunnable⟩ := Machine.sameCore_note m e
  exact roster.congr hrunnable core.threads core.nextThread core.current
    (Machine.queue_congr hchannels hgroups) rfl rfl rfl

theorem noteAll (roster : Roster m s joins) (e : Option Event) :
    Roster (Run.noteAll m e) s joins := by
  cases e with
  | none => exact roster
  | some e => exact roster.noted e

/-- A queued thread is blocked. -/
theorem blocked_of_mem (roster : Roster m s none) {p : Place} {t : ThreadId}
    (ht : t ∈ m.queue p) : t ∈ s.blocked :=
  (roster.queued p t ht).resolve_right fun h => Option.some_ne_none p h.1.symm

/-- The running thread is not in the table. -/
theorem table_running (roster : Roster m s joins) {t : ThreadId} (ht : s.running = some t) :
    m.threads[t]? = none := by
  obtain ⟨hready, hblocked⟩ := roster.running t ht
  rw [← Option.not_isSome_iff_eq_none, roster.table]
  exact not_or.2 ⟨hready, hblocked⟩

theorem table_next (roster : Roster m s joins) : m.threads[m.nextThread]? = none := by
  rw [← Option.not_isSome_iff_eq_none, roster.table]
  rintro (h | h)
  · exact Nat.lt_irrefl _ (roster.bound _ (.inl h))
  · exact Nat.lt_irrefl _ (roster.bound _ (.inr (.inl h)))

theorem isSome_insert {threads : ThreadTable} {t u : ThreadId} {r : Registers} :
    (threads.insert t r)[u]?.isSome ↔ u = t ∨ threads[u]?.isSome := by
  rw [Std.TreeMap.getElem?_insert]
  by_cases h : t = u
  · simp [h]
  · simp [h, Ne.symm h]

/-! ## An instruction -/

section Turn

variable {p : Progress} {leave : Place → Nat} {woken started : List ThreadId}
  (roster : Roster m s none) (hrunning : s.running = some m.current)
  (shifts : Machine.Shifts m k p leave woken started joins)

include roster shifts

/-- The threads that are started or woken. -/
theorem runnable_eq : k.runnable = woken ++ started := by
  rw [shifts.requeues.runnable, roster.runnable, List.nil_append]

/-- A thread that is woken was blocked. -/
theorem blocked_of_woken {t : ThreadId} (ht : t ∈ woken) : t ∈ s.blocked := by
  obtain ⟨q, hq⟩ := shifts.woken t ht
  exact roster.blocked_of_mem (List.mem_of_mem_take hq)

/-- A thread that is started or woken was blocked, or it has the next number. -/
theorem blocked_or_started {t : ThreadId} (ht : t ∈ k.runnable) :
    t ∈ s.blocked ∨ (t ∈ started ∧ t = m.nextThread) := by
  rw [roster.runnable_eq shifts] at ht
  exact (List.mem_append.1 ht).imp (roster.blocked_of_woken shifts)
    fun h => ⟨h, (shifts.eq_of_started h).1⟩

/-- A thread that stays in its queue is not woken. -/
theorem not_mem_runnable {q : Place} {t : ThreadId} (ht : t ∈ (m.queue q).drop (leave q)) :
    t ∉ k.runnable := by
  have hin := List.mem_of_mem_drop ht
  rw [roster.runnable_eq shifts, List.mem_append]
  rintro (hwoken | hstarted)
  · obtain ⟨q', hq'⟩ := shifts.woken t hwoken
    obtain rfl := roster.unique q q' t hin (List.mem_of_mem_take hq')
    have hnodup := roster.nodup q
    rw [← List.take_append_drop (leave q) (m.queue q), List.nodup_append] at hnodup
    exact hnodup.2.2 t hq' t ht rfl
  · have hlt := roster.bound t (.inr (.inl (roster.blocked_of_mem hin)))
    rw [(shifts.eq_of_started hstarted).1] at hlt
    exact Nat.lt_irrefl _ hlt

theorem table_turn (t : ThreadId) : k.threads[t]?.isSome ↔
    (t ∈ s.ready ∨ t ∈ k.runnable) ∨ (t ∈ s.blocked ∧ t ∉ k.runnable) := by
  rw [shifts.isSome_threads, roster.table]
  constructor
  · rintro (h | h | h)
    · refine .inl (.inr ?_)
      rw [roster.runnable_eq shifts]
      exact List.mem_append_right _ h
    · exact .inl (.inl h)
    · by_cases hin : t ∈ k.runnable
      · exact .inl (.inr hin)
      · exact .inr ⟨h, hin⟩
  · rintro ((h | h) | h)
    · exact .inr (.inl h)
    · exact (roster.blocked_or_started shifts h).elim (fun h => .inr (.inr h)) fun h => .inl h.1
    · exact .inr (.inr h.1)

theorem lt_of_runnable {t : ThreadId} (ht : t ∈ k.runnable) : t < k.nextThread := by
  rcases roster.blocked_or_started shifts ht with h | ⟨h, -⟩
  · exact Nat.lt_of_lt_of_le (roster.bound t (.inr (.inl h))) shifts.nextThread_le
  · obtain ⟨rfl, hnext⟩ := shifts.eq_of_started h
    exact hnext ▸ Nat.lt_succ_self _

include hrunning

theorem current_not_mem_runnable : m.current ∉ k.runnable := by
  rw [roster.runnable_eq shifts, List.mem_append]
  rintro (hwoken | hstarted)
  · exact (roster.running _ hrunning).2 (roster.blocked_of_woken shifts hwoken)
  · have hlt := roster.bound _ (.inr (.inr hrunning))
    rw [← (shifts.eq_of_started hstarted).1] at hlt
    exact Nat.lt_irrefl _ hlt

omit shifts in
/-- The running thread stands in no queue before it joins one. -/
theorem current_not_mem_queue (q : Place) : m.current ∉ m.queue q := fun h =>
  (roster.running _ hrunning).2 (roster.blocked_of_mem h)

theorem nodup_turn (q : Place) : (k.queue q).Nodup := by
  rw [shifts.requeues.queue, List.nodup_append]
  refine ⟨(roster.nodup q).sublist (List.drop_sublist _ _), ?_, ?_⟩
  · split <;> simp
  · rintro t ht u hu rfl
    split at hu
    · obtain rfl := List.mem_singleton.1 hu
      exact roster.current_not_mem_queue hrunning q (List.mem_of_mem_drop ht)
    · cases hu

theorem unique_turn {q q' : Place} {t : ThreadId} (hq : t ∈ k.queue q) (hq' : t ∈ k.queue q') :
    q = q' := by
  have hnot : ∀ q'', t ∈ (m.queue q'').drop (leave q'') → t ≠ m.current := by
    rintro q'' hq'' rfl
    exact roster.current_not_mem_queue hrunning q'' (List.mem_of_mem_drop hq'')
  rcases shifts.requeues.mem hq with hq | ⟨hjoins, hq⟩
  · rcases shifts.requeues.mem hq' with hq' | ⟨-, hq'⟩
    · exact roster.unique q q' t (List.mem_of_mem_drop hq) (List.mem_of_mem_drop hq')
    · exact absurd hq' (hnot q hq)
  · rcases shifts.requeues.mem hq' with hq' | ⟨hjoins', -⟩
    · exact absurd hq (hnot q' hq')
    · exact Option.some.inj (hjoins.symm.trans hjoins')

theorem mem_ready_turn (t : ThreadId) :
    t ∈ (s.makeAllReady k.runnable).ready ↔ t ∈ s.ready ∨ t ∈ k.runnable := by
  rw [Scheduler.mem_ready_makeAllReady, hrunning]
  refine or_congr_right (and_iff_left_of_imp fun ht heq => ?_)
  exact roster.current_not_mem_runnable hrunning shifts (Option.some.inj heq ▸ ht)

omit hrunning shifts in
theorem mem_blocked_turn (t : ThreadId) :
    t ∈ (s.makeAllReady k.runnable).blocked ↔ t ∈ s.blocked ∧ t ∉ k.runnable :=
  Scheduler.mem_blocked_makeAllReady roster.toOrderly k.runnable

/-- After an instruction the threads that it started and woke are ready, and the roster is in order
but for the running thread, which may stand in a queue. -/
theorem turn : Roster { k with runnable := [] } (s.makeAllReady k.runnable) joins := by
  have hsame : (s.makeAllReady k.runnable).running = some m.current :=
    (Scheduler.running_makeAllReady s _).trans hrunning
  refine ⟨roster.toOrderly.makeAllReady _, rfl, fun t => ?_, fun t ht => ?_, fun t ht => ?_,
    fun q t ht => ?_, fun q => roster.nodup_turn hrunning shifts q,
    fun _ _ _ hq hq' => roster.unique_turn hrunning shifts hq hq'⟩
  · rw [roster.mem_ready_turn hrunning shifts, roster.mem_blocked_turn]
    exact roster.table_turn shifts t
  · have hle := shifts.nextThread_le
    rw [roster.mem_ready_turn hrunning shifts, roster.mem_blocked_turn, hsame, ← hrunning] at ht
    rcases ht with (ht | ht) | ht | ht
    · exact Nat.lt_of_lt_of_le (roster.bound t (.inl ht)) hle
    · exact roster.lt_of_runnable shifts ht
    · exact Nat.lt_of_lt_of_le (roster.bound t (.inr (.inl ht.1))) hle
    · exact Nat.lt_of_lt_of_le (roster.bound t (.inr (.inr ht))) hle
  · rw [hsame] at ht
    exact (Option.some.inj ht).symm.trans shifts.current.symm
  · rw [roster.mem_blocked_turn, hsame]
    rcases shifts.requeues.mem ht with hdrop | ⟨hjoins, rfl⟩
    · exact .inl ⟨roster.blocked_of_mem (List.mem_of_mem_drop hdrop),
        roster.not_mem_runnable shifts hdrop⟩
    · exact .inr ⟨hjoins, rfl⟩

end Turn

/-! ## The end of a turn -/

/-- The running thread becomes the last ready one. -/
theorem suspend (roster : Roster m s none) (hrunning : s.running = some m.current) :
    Roster m.suspend s.suspend none := by
  have hs : s.suspend = { s with running := none, ready := s.ready ++ [m.current] } := by
    unfold Scheduler.suspend
    rw [hrunning]
  have horderly := hs ▸ roster.toOrderly.suspend
  rw [hs]
  refine ⟨horderly, roster.runnable, ?_, ?_, nofun, fun p t ht => .inl (roster.blocked_of_mem ht),
    roster.nodup, roster.unique⟩
  · intro t
    rw [Machine.suspend, isSome_insert, roster.table, List.mem_append, List.mem_singleton]
    constructor
    · rintro (rfl | h | h)
      · exact .inl (.inr rfl)
      · exact .inl (.inl h)
      · exact .inr h
    · rintro ((h | rfl) | h)
      · exact .inr (.inl h)
      · exact .inl rfl
      · exact .inr (.inr h)
  · intro t ht
    simp only [List.mem_append, List.mem_singleton, reduceCtorEq, or_false] at ht
    rcases ht with (ht | rfl) | ht
    · exact roster.bound t (.inl ht)
    · exact roster.bound _ (.inr (.inr hrunning))
    · exact roster.bound t (.inr (.inl ht))

/-- The running thread is blocked. -/
theorem block (roster : Roster m s joins) (hrunning : s.running = some m.current) :
    Roster m.suspend s.block none := by
  have hs : s.block = { s with running := none, blocked := s.blocked.insert m.current } := by
    unfold Scheduler.block
    rw [hrunning]
  have hmem : ∀ t, t ∈ s.blocked.insert m.current ↔ t = m.current ∨ t ∈ s.blocked := fun t =>
    List.mem_insert_iff
  have horderly := hs ▸ roster.toOrderly.block
  rw [hs]
  refine ⟨horderly, roster.runnable, ?_, ?_, nofun, ?_, roster.nodup, roster.unique⟩
  · intro t
    rw [Machine.suspend, isSome_insert, roster.table, hmem]
    constructor
    · rintro (h | h | h)
      · exact .inr (.inl h)
      · exact .inl h
      · exact .inr (.inr h)
    · rintro (h | h | h)
      · exact .inr (.inl h)
      · exact .inl h
      · exact .inr (.inr h)
  · intro t ht
    rw [hmem] at ht
    simp only [reduceCtorEq, or_false] at ht
    rcases ht with ht | rfl | ht
    · exact roster.bound t (.inl ht)
    · exact roster.bound _ (.inr (.inr hrunning))
    · exact roster.bound t (.inr (.inl ht))
  · intro p t ht
    refine .inl ((hmem t).2 ?_)
    rcases roster.queued p t ht with h | ⟨-, h⟩
    · exact .inr h
    · exact .inl (roster.current t h)

/-- The running thread is no more. -/
theorem kill (roster : Roster m s none) : Roster m.retire s.kill none where
  toOrderly := roster.toOrderly.kill
  runnable := roster.runnable
  table := roster.table
  bound := by
    intro t ht
    refine roster.bound t (ht.imp_right fun h => h.imp_right fun h => ?_)
    cases h
  current := nofun
  queued := fun p t ht => .inl (roster.blocked_of_mem ht)
  nodup := roster.nodup
  unique := roster.unique

/-- The first ready thread runs, and its registers are found. -/
theorem next (roster : Roster m s none) {t : ThreadId} (hnext : s.next = .ok (t, s')) :
    ∃ r, m.threads[t]? = some r ∧
      Roster { m with threads := m.threads.erase t, registers := r, current := t } s' none := by
  obtain ⟨hready, hblocked, hrunning⟩ := Scheduler.of_next hnext
  have hmem : t ∈ s.ready := hready ▸ List.mem_cons_self ..
  have hnodup := roster.ready
  rw [hready, List.nodup_cons] at hnodup
  have hin : ∀ u, u ∈ s.ready ↔ u = t ∨ u ∈ s'.ready := fun u => by rw [hready, List.mem_cons]
  obtain ⟨r, hr⟩ := Option.isSome_iff_exists.1 ((roster.table t).2 (.inl hmem))
  refine ⟨r, hr, roster.toOrderly.next hnext, roster.runnable, ?_, ?_, ?_, ?_, roster.nodup,
    roster.unique⟩
  · intro u
    rw [Std.TreeMap.getElem?_erase, hblocked]
    by_cases h : t = u
    · subst h
      simp [hnodup.1, roster.disjoint _ hmem]
    · simp only [Std.compare_eq_iff_eq, h, if_false, roster.table, hin, Ne.symm h, false_or]
  · intro u hu
    rw [hblocked, hrunning] at hu
    rcases hu with hu | hu | hu
    · exact roster.bound u (.inl ((hin u).2 (.inr hu)))
    · exact roster.bound u (.inr (.inl hu))
    · exact roster.bound u (.inl ((hin u).2 (.inl (Option.some.inj hu).symm)))
  · intro u hu
    rw [hrunning] at hu
    exact (Option.some.inj hu).symm
  · intro p u hu
    rw [hblocked]
    exact .inl (roster.blocked_of_mem hu)

end Roster

end ChannelMachine

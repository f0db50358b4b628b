import ChannelMachine.Proofs.Run.Waiting

/-!
# Senders that wait for their value to be taken over

A thread that sends on an unbuffered channel sleeps from then on (`Parks`).  There are three ways for
this to go on.  Nothing happens to the channel, and the thread waits (`Waiting`).  Or its value is
delivered, and the thread is ready at once (`Freed`).  Or the channel is collected, because no other
thread knows it, and a new one is made at its address; then the thread is in no queue any more and
sleeps for ever (`Lost`).

These are statements about the whole history between two steps, so they are proved by induction on the
later one.  Together with the threads that stand in queues they account for all threads that are
asleep (`Fresh.accounted`).
-/

namespace ChannelMachine.Run

variable {program : Program} {run : Run}

/-- In step `i` a thread sends a value on an unbuffered channel. -/
def Parks (program : Program) (run : Run) (i : Nat) (t : ThreadId) (a v : Address) : Prop :=
  (run.after program i).deal? program = some (.sent t a v) ∧
    (run.after program i).machine.heap.isUnbuffered a = true

/-- From step `i` to step `n` nothing happens to a channel. -/
def Quiet (program : Program) (run : Run) (a : Address) (i n : Nat) : Prop :=
  ∀ j, i < j → j < n → ∀ x, (run.after program j).deal? program = some x → x.channel ≠ a

/-- From step `i` to step `n` a thread is asleep. -/
def Sleeps (program : Program) (run : Run) (t : ThreadId) (i n : Nat) : Prop :=
  ∀ j, i < j → j ≤ n → (run.after program j).Asleep t

/-- A thread that sent in step `i` waits at step `n`. -/
structure Waiting (program : Program) (run : Run) (i : Nat) (t : ThreadId) (a v : Address) (n : Nat) :
    Prop where
  /-- It has been asleep. -/
  sleeps : run.Sleeps program t i n
  /-- Nothing has happened to the channel. -/
  quiet : run.Quiet program a i n
  /-- It stands in the queue of senders. -/
  queued : t ∈ (run.after program n).queue (.channel .sender a)
  /-- Its value is what was accepted last. -/
  last : ∃ x, run.ledger program n a = some x ∧ x.sent.getLast? = some (t, v)

/-- A thread that sent in step `i` has lost its channel in step `j`. -/
structure Lost (program : Program) (run : Run) (i : Nat) (t : ThreadId) (a : Address) (j n : Nat) :
    Prop where
  /-- The channel was there after the send. -/
  after : i < j
  /-- It is gone. -/
  before : j < n
  /-- A new channel was made at its address. -/
  made : ∃ capacity, (run.after program j).deal? program = some (.made a capacity)
  /-- No thread knew it any more. -/
  gone : ¬ (run.after program j).machine.heap.Live (run.after program j).machine.roots a
  /-- Nothing had happened to it. -/
  quiet : run.Quiet program a i j
  /-- The thread has been asleep. -/
  sleeps : run.Sleeps program t i n
  /-- It stands in no queue. -/
  unqueued : ∀ p, t ∉ (run.after program n).queue p

/-- A thread that sent in step `i` was freed in step `j`. -/
structure Freed (program : Program) (run : Run) (i : Nat) (t : ThreadId) (a v : Address) (j : Nat) :
    Prop where
  /-- It was freed after the send. -/
  after : i < j
  /-- Its value was delivered. -/
  received : ∃ u, (run.after program j).deal? program = some (.received u a v)
  /-- Nothing had happened to the channel. -/
  quiet : run.Quiet program a i j
  /-- The thread had been asleep. -/
  sleeps : run.Sleeps program t i j
  /-- It is ready at once. -/
  ready : (run.after program (j + 1)).Ready t

section Steps

variable {i j n : Nat} {t : ThreadId} {a v : Address}

theorem Sleeps.succ (sleeps : run.Sleeps program t i n)
    (hasleep : (run.after program (n + 1)).Asleep t) : run.Sleeps program t i (n + 1) := by
  intro j hij hj
  rcases Nat.lt_or_eq_of_le hj with hlt | rfl
  · exact sleeps j hij (Nat.le_of_lt_succ hlt)
  · exact hasleep

theorem Quiet.succ (quiet : run.Quiet program a i n)
    (hn : ∀ x, (run.after program n).deal? program = some x → x.channel ≠ a) :
    run.Quiet program a i (n + 1) := by
  intro j hij hj
  rcases Nat.lt_or_eq_of_le (Nat.le_of_lt_succ hj) with hlt | rfl
  · exact quiet j hij hlt
  · exact hn

theorem sleeps_one (hasleep : (run.after program (i + 1)).Asleep t) :
    run.Sleeps program t i (i + 1) := by
  intro j hij hj
  rw [Nat.le_antisymm hj hij]
  exact hasleep

theorem quiet_one (program : Program) (run : Run) (a : Address) (i : Nat) :
    run.Quiet program a i (i + 1) := fun _ hij hj => absurd hij (Nat.not_lt.2 (Nat.le_of_lt_succ hj))

/-- A thread that sends on an unbuffered channel waits. -/
theorem Fresh.parks (fresh : run.Fresh) (parks : run.Parks program i t a v) :
    run.Waiting program i t a v (i + 1) := by
  obtain ⟨hdeal, hunbuffered⟩ := parks
  have booked := fresh.booked program i
  have hledger : run.ledger program (i + 1) =
      (run.ledger program i).enter (some (.sent t a v)) := hdeal ▸ rfl
  obtain ⟨m, k, s, left, p, hrun, sound, acts, turned⟩ := fresh.stepped_of_deal hdeal
  rw [hrun] at booked hunbuffered
  cases acts with
  | sent _ stack tag _ _ _ _ _ requeues =>
    have hin := sound.inUse_below stack
    obtain ⟨x, hx, -⟩ := booked.books a hin tag
    have hparks : m.heap.isUnbuffered a = true := hunbuffered
    rw [hparks] at requeues turned
    refine ⟨sleeps_one ?_, quiet_one program run a i, ?_, x.accept m.current v, ?_, ?_⟩
    · exact (turned.asleep _).2 (.inr ⟨rfl, rfl⟩)
    · rw [turned.queue]
      exact Machine.Requeues.current_mem ⟨requeues.queue, requeues.runnable⟩
    · rw [hledger, Ledger.enter, Ledger.set_self, hx]
      rfl
    · rw [Account.accept, List.getLast?_concat]

/-- A step of a thread that waits. -/
theorem Waiting.step (fresh : run.Fresh) (waiting : run.Waiting program i t a v n) (hin : i < n)
    (hactive : (run.after program (n + 1)).Active) :
    run.Waiting program i t a v (n + 1) ∨ run.Lost program i t a n (n + 1) ∨
      run.Freed program i t a v n := by
  have rostered := fresh.rostered_after program n
  have booked := fresh.booked program n
  have hasleep := waiting.sleeps n hin (Nat.le_refl n)
  have hqueued := waiting.queued
  obtain ⟨x, hx, hlast⟩ := waiting.last
  have hledger : run.ledger program (n + 1) =
      (run.ledger program n).enter ((run.after program n).deal? program) := rfl
  have hstay : (run.after program (n + 1)).Asleep t →
      t ∈ (run.after program (n + 1)).queue (.channel .sender a) →
      (∀ y, (run.after program n).deal? program = some y → y.channel ≠ a) →
      run.Waiting program i t a v (n + 1) := by
    intro hasleep' hqueued' hd
    refine ⟨waiting.sleeps.succ hasleep', waiting.quiet.succ hd, hqueued', x, ?_, hlast⟩
    rw [hledger, Ledger.enter_of_ne hd, hx]
  cases fresh.moves program n with
  | dispatched nothing same =>
    refine .inl (hstay ((same.asleep t).2 hasleep) ?_ ?_)
    · rw [same.queue]
      exact hqueued
    · rw [nothing]
      exact nofun
  | stopped _ ended => exact absurd hactive ended
  | @stepped m k _ _ _ here sound _ acts turned =>
    have hgone : ¬ m.heap.Live m.roots a →
        ¬ (run.after program n).machine.heap.Live (run.after program n).machine.roots a := by
      rw [here]
      exact id
    rw [here] at rostered booked turned hasleep hqueued
    have hqueue : t ∈ m.queue (.channel .sender a) := hqueued
    have hne : t ≠ m.current := by
      rintro rfl
      exact rostered.1.current_not_mem_queue rostered.2 _ hqueue
    obtain ⟨leave, woken, started, joins, shifts, passes⟩ := acts.passes sound
    by_cases hd : ∀ y, (run.after program n).deal? program = some y → y.channel ≠ a
    · rw [← List.drop_zero (l := m.queue _), ← passes.sender a hd] at hqueue
      refine .inl (hstay ?_ ?_ hd)
      · exact (turned.asleep t).2 (.inl ⟨hasleep, rostered.1.not_mem_runnable shifts hqueue⟩)
      · rw [turned.queue]
        exact shifts.requeues.mem_of_drop hqueue
    · simp only [Classical.not_forall, Classical.not_not] at hd
      obtain ⟨y, hy, rfl⟩ := hd
      rw [hy] at acts
      rcases acts.of_sender sound booked hqueue hx hlast with
        ⟨⟨capacity, hmade⟩, hlive, hrunnable, hnil⟩ | ⟨u, hreceived, hwoken⟩
      · have hasleep' : (run.after program (n + 1)).Asleep t := by
          refine (turned.asleep t).2 (.inl ⟨hasleep, ?_⟩)
          rw [hrunnable, rostered.1.runnable]
          exact List.not_mem_nil
        refine .inr (.inl ⟨hin, Nat.lt_succ_self n, ⟨capacity, hy.trans (congrArg some hmade)⟩,
          hgone hlive, waiting.quiet, waiting.sleeps.succ hasleep', fun q hq => ?_⟩)
        rw [turned.queue] at hq
        rcases shifts.requeues.mem hq with hdrop | ⟨-, heq⟩
        · obtain rfl := rostered.1.unique _ _ t (List.mem_of_mem_drop hdrop) hqueue
          rw [hnil] at hq
          cases hq
        · exact hne heq
      · exact .inr (.inr ⟨hin, ⟨u, hy.trans (congrArg some hreceived)⟩, waiting.quiet,
          waiting.sleeps, turned.ready t hwoken⟩)

/-- A thread that has lost its channel sleeps on. -/
theorem Lost.step (fresh : run.Fresh) (lost : run.Lost program i t a j n)
    (hactive : (run.after program (n + 1)).Active) : run.Lost program i t a j (n + 1) := by
  have rostered := fresh.rostered_after program n
  have hasleep := lost.sleeps n (Nat.lt_trans lost.after lost.before) (Nat.le_refl n)
  have hunqueued := lost.unqueued
  have hstay : (run.after program (n + 1)).Asleep t →
      (∀ p, t ∉ (run.after program (n + 1)).queue p) → run.Lost program i t a j (n + 1) :=
    fun hasleep' hunqueued' => ⟨lost.after, Nat.lt_succ_of_lt lost.before, lost.made, lost.gone,
      lost.quiet, lost.sleeps.succ hasleep', hunqueued'⟩
  cases fresh.moves program n with
  | dispatched _ same =>
    refine hstay ((same.asleep t).2 hasleep) fun p => ?_
    rw [same.queue]
    exact hunqueued p
  | stopped _ ended => exact absurd hactive ended
  | @stepped m k _ _ _ here sound _ acts turned =>
    rw [here] at rostered turned hasleep hunqueued
    obtain ⟨leave, woken, started, joins, shifts, passes⟩ := acts.passes sound
    have hblocked := asleep_running.1 hasleep
    have hnot : ∀ q, t ∉ m.queue q := hunqueued
    have hne : t ≠ m.current := by
      rintro rfl
      exact (rostered.1.running _ rostered.2).2 hblocked
    refine hstay ((turned.asleep t).2 (.inl ⟨hasleep, fun hwoken => ?_⟩)) fun q hq => ?_
    · rw [rostered.1.runnable_eq shifts] at hwoken
      rcases List.mem_append.1 hwoken with hwoken | hstarted
      · obtain ⟨q, hq⟩ := shifts.woken t hwoken
        exact hnot q (List.mem_of_mem_take hq)
      · have hlt := rostered.1.bound t (.inr (.inl hblocked))
        rw [(shifts.eq_of_started hstarted).1] at hlt
        exact Nat.lt_irrefl _ hlt
    · rw [turned.queue] at hq
      rcases shifts.requeues.mem hq with hdrop | ⟨-, heq⟩
      · exact hnot q (List.mem_of_mem_drop hdrop)
      · exact hne heq

/-- What has become of a thread that sent on an unbuffered channel: it waits, or it has lost its
channel, or it has been freed. -/
theorem Fresh.parked (fresh : run.Fresh) (parks : run.Parks program i t a v) (hin : i < n)
    (hactive : (run.after program n).Active) :
    run.Waiting program i t a v n ∨ (∃ j, run.Lost program i t a j n) ∨
      ∃ j < n, run.Freed program i t a v j := by
  induction n with
  | zero => cases hin
  | succ n ih =>
    rcases Nat.lt_or_eq_of_le (Nat.le_of_lt_succ hin) with hlt | rfl
    · rcases ih hlt hactive.of_next with waiting | ⟨j, lost⟩ | ⟨j, hj, freed⟩
      · rcases waiting.step fresh hlt hactive with waiting | lost | freed
        · exact .inl waiting
        · exact .inr (.inl ⟨n, lost⟩)
        · exact .inr (.inr ⟨n, Nat.lt_succ_self n, freed⟩)
      · exact .inr (.inl ⟨j, lost.step fresh hactive⟩)
      · exact .inr (.inr ⟨j, Nat.lt_succ_of_lt hj, freed⟩)
    · exact .inl (fresh.parks parks)

end Steps

/-! ## All threads that are asleep -/

/-- Why a thread is asleep: it stands in the queue of its place, or its value lies in the slot of an
unbuffered channel, or it has lost such a channel. -/
inductive Accounted (program : Program) (run : Run) (n : Nat) (t : ThreadId) : Prop where
  /-- It stands in a queue. -/
  | queued (place : Place) (queued : t ∈ (run.after program n).queue place)
      (hplace : ∀ a, place ≠ .channel .sender a)
  /-- It waits for its value to be taken over. -/
  | waiting (i : Nat) (a v : Address) (hin : i < n) (parks : run.Parks program i t a v)
      (waiting : run.Waiting program i t a v n)
  /-- It has lost its channel. -/
  | lost (i j : Nat) (a v : Address) (parks : run.Parks program i t a v)
      (lost : run.Lost program i t a j n)

/-- A thread that stands in a queue stays there while it is asleep. -/
theorem Fresh.queued_step {n : Nat} {t : ThreadId} (fresh : run.Fresh) {place : Place}
    (queued : t ∈ (run.after program n).queue place) (hplace : ∀ a, place ≠ .channel .sender a)
    (hactive : (run.after program (n + 1)).Active)
    (hasleep : (run.after program (n + 1)).Asleep t) :
    t ∈ (run.after program (n + 1)).queue place := by
  have rostered := fresh.rostered_after program n
  obtain ⟨r, hr, stands⟩ := (fresh.placed_attended program n hactive.of_next).1 place t queued hplace
  cases fresh.moves program n with
  | dispatched _ same => exact same.queue place ▸ queued
  | stopped _ ended => exact absurd hactive ended
  | @stepped m k _ _ _ here sound _ acts turned =>
    rw [here] at rostered turned queued hr stands
    obtain ⟨leave, woken, started, joins, shifts, passes⟩ := acts.passes sound
    have hqueue : t ∈ m.queue place := queued
    have hne : t ≠ m.current := by
      rintro rfl
      exact rostered.1.current_not_mem_queue rostered.2 _ hqueue
    rw [turned.queue]
    rw [← List.take_append_drop (leave place) (m.queue place)] at hqueue
    rcases List.mem_append.1 hqueue with htake | hdrop
    · exfalso
      rcases passes.left place t htake with hwoken | hgone
      · rcases (turned.asleep t).1 hasleep with ⟨-, hnot⟩ | ⟨-, heq⟩
        · refine hnot ?_
          rw [rostered.1.runnable_eq shifts]
          exact List.mem_append_left _ hwoken
        · exact hne heq
      · rw [thread?, if_neg hne] at hr
        exact hgone (.root (mem_threadRoots.2 (.inr
          ⟨t, r, hr, Registers.mem_roots.2 (.inl stands.mem_stack)⟩)))
    · exact shifts.requeues.mem_of_drop hdrop

theorem Accounted.step {n : Nat} {t : ThreadId} (accounted : run.Accounted program n t)
    (fresh : run.Fresh) (hactive : (run.after program (n + 1)).Active)
    (hasleep : (run.after program (n + 1)).Asleep t) : run.Accounted program (n + 1) t := by
  cases accounted with
  | queued place queued hplace =>
    exact .queued place (fresh.queued_step queued hplace hactive hasleep) hplace
  | waiting i a v hin parks waiting =>
    rcases waiting.step fresh hin hactive with waiting | lost | freed
    · exact .waiting i a v (Nat.lt_succ_of_lt hin) parks waiting
    · exact .lost i n a v parks lost
    · obtain ⟨s, hs, hready⟩ := freed.ready
      exact absurd hasleep ((fresh.rostered_after program (n + 1)).not_asleep ⟨s, hs, .inl hready⟩)
  | lost i j a v parks lost => exact .lost i j a v parks (lost.step fresh hactive)

/-- A thread that falls asleep has joined a queue. -/
theorem Fresh.accounted_of_new {n : Nat} {t : ThreadId} (fresh : run.Fresh)
    (hactive : (run.after program (n + 1)).Active) (hawake : ¬ (run.after program n).Asleep t)
    (hasleep : (run.after program (n + 1)).Asleep t) : run.Accounted program (n + 1) t := by
  cases hmoves : fresh.moves program n with
  | dispatched _ same => exact absurd ((same.asleep t).1 hasleep) hawake
  | stopped _ ended => exact absurd hactive ended
  | @stepped m k _ _ _ here sound _ acts turned =>
    rw [here] at turned hawake
    obtain ⟨leave, woken, started, joins, shifts, passes⟩ := acts.passes sound
    obtain ⟨hblocked, rfl⟩ := ((turned.asleep t).1 hasleep).resolve_left fun h => hawake h.1
    obtain ⟨place, rfl⟩ := Option.isSome_iff_exists.1 (shifts.blocked.1 hblocked)
    rcases passes.joined place rfl with ⟨-, -, -, stands⟩ | ⟨a, v, -, hdeal, hunbuffered⟩
    · refine .queued place ?_ fun a heq => ?_
      · rw [turned.queue]
        exact shifts.requeues.current_mem
      · subst heq
        cases stands
    · have parks : run.Parks program n m.current a v := by
        refine ⟨hdeal, ?_⟩
        rw [here]
        exact hunbuffered
      exact .waiting n a v (Nat.lt_succ_self n) parks (fresh.parks parks)

/-- Every thread that is asleep is accounted for. -/
theorem Fresh.accounted (fresh : run.Fresh) (program : Program) {n : Nat} {t : ThreadId}
    (hactive : (run.after program n).Active) (hasleep : (run.after program n).Asleep t) :
    run.Accounted program n t := by
  induction n with
  | zero => exact absurd hasleep (fresh.asleep t)
  | succ n ih =>
    by_cases hbefore : (run.after program n).Asleep t
    · exact (ih hactive.of_next hbefore).step fresh hactive hasleep
    · exact fresh.accounted_of_new hactive hbefore hasleep

end ChannelMachine.Run

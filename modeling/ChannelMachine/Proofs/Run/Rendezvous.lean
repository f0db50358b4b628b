import ChannelMachine.Proofs.Run.Parking

/-!
# Rendezvous

On an unbuffered channel a send completes only when its own value is received.  The slot of the channel
is taken exactly while one thread waits in the queue of senders, and the value in it is the one which
that thread sent.  The thread executes nothing before this value is received, and is ready as soon as
it is.  A thread whose channel was collected in the meantime is not woken by a channel that is made at
the same address.
-/

namespace ChannelMachine.Run

variable {program : Program} {run : Run} {i j n : Nat} {t : ThreadId} {a v : Address}

/-- A thread that is asleep executes nothing. -/
theorem Rostered.not_executes {run : Run} (rostered : run.Rostered) (hasleep : run.Asleep t) :
    ¬ run.Executes t := by
  rintro ⟨m, s, left, rfl, rfl⟩
  exact (rostered.1.running _ rostered.2).2 (asleep_running.1 hasleep)

theorem Executes.active (h : run.Executes t) : run.Active := by
  obtain ⟨m, s, left, rfl, -⟩ := h
  exact Option.some_ne_none _

/-- What a sender waits for is not delivered to anybody while it waits, so the delivery frees it. -/
theorem Waiting.freed (fresh : run.Fresh) (waiting : run.Waiting program i t a v n) (hin : i < n)
    {x : Deal} (hx : (run.after program n).deal? program = some x) {u : ThreadId} {w : Address}
    (hreceived : x = .received u a w) : run.Freed program i t a v n ∧ w = v := by
  subst hreceived
  rcases waiting.step fresh hin (fresh.active_of_deal hx) with waiting' | lost | freed
  · exact absurd rfl (waiting'.quiet n hin (Nat.lt_succ_self n) _ hx)
  · obtain ⟨capacity, hmade⟩ := lost.made
    rw [hx] at hmade
    cases hmade
  · obtain ⟨u', hu'⟩ := freed.received
    rw [hx] at hu'
    cases hu'
    exact ⟨freed, rfl⟩

/-- A thread that sent on an unbuffered channel to which nothing has happened since waits. -/
theorem Fresh.waiting_of_quiet (fresh : run.Fresh) (parks : run.Parks program i t a v) (hin : i < n)
    (hactive : (run.after program n).Active) (quiet : run.Quiet program a i n) :
    run.Waiting program i t a v n := by
  rcases fresh.parked parks hin hactive with waiting | ⟨j, lost⟩ | ⟨j, hj, freed⟩
  · exact waiting
  · obtain ⟨capacity, hmade⟩ := lost.made
    exact absurd rfl (quiet j lost.after lost.before _ hmade)
  · obtain ⟨u, hu⟩ := freed.received
    exact absurd rfl (quiet j freed.after hj _ hu)

/-- The channel of a deal that is no new one is in use. -/
theorem Fresh.inUse_of_deal (fresh : run.Fresh)
    (hdeal : (run.after program n).deal? program = some (.sent t a v)) :
    (run.after program n).machine.heap.InUse a ∧
      (run.after program n).machine.heap.tag a = .channel := by
  obtain ⟨m, k, s, left, p, hrun, sound, acts, -⟩ := fresh.stepped_of_deal hdeal
  rw [hrun]
  cases acts with
  | sent _ stack tag =>
    exact ⟨sound.inUse_below stack, tag⟩

/-- The value that an unbuffered channel holds was sent, and nothing has happened to the channel
since. -/
theorem Fresh.exists_parks (fresh : run.Fresh) {x : Account}
    (hx : run.ledger program n a = some x) (hzero : x.capacity = 0) (hheld : x.held = [(t, v)]) :
    ∃ i < n, run.Parks program i t a v ∧ run.Quiet program a i n := by
  induction n generalizing x with
  | zero => cases hx
  | succ n ih =>
    have booked := fresh.booked program n
    rw [ledger] at hx
    by_cases hd : ∀ y, (run.after program n).deal? program = some y → y.channel ≠ a
    · rw [Ledger.enter_of_ne hd] at hx
      obtain ⟨i, hin, parks, quiet⟩ := ih hx hzero hheld
      exact ⟨i, Nat.lt_succ_of_lt hin, parks, quiet.succ hd⟩
    simp only [Classical.not_forall, Classical.not_not] at hd
    obtain ⟨d, hdeal, rfl⟩ := hd
    rw [hdeal] at hx
    cases d with
    | made a capacity =>
      rw [Ledger.enter, Deal.channel, Ledger.set_self, Option.some.injEq] at hx
      rw [← hx] at hheld
      cases hheld
    | sent u a w =>
      obtain ⟨hin, htag⟩ := fresh.inUse_of_deal hdeal
      obtain ⟨y, hy, books⟩ := booked.books a hin htag
      rw [Ledger.enter, Deal.channel, Ledger.set_self, hy, Option.map_some,
        Option.some.injEq] at hx
      subst hx
      rw [(booked.fair a y hy).held_accept] at hheld
      obtain ⟨-, hlast⟩ := List.append_inj' (show y.held ++ _ = [] ++ [(t, v)] from hheld) rfl
      cases hlast
      refine ⟨n, Nat.lt_succ_self n, ⟨hdeal, ?_⟩, quiet_one program run a n⟩
      exact books.unbuffered.trans (beq_iff_eq.2 hzero)
    | received u a w =>
      rw [Ledger.enter, Deal.channel, Ledger.set_self, Option.map_eq_some_iff] at hx
      obtain ⟨y, hy, rfl⟩ := hx
      -- One value more does not fit.
      have hfits := (booked.fair a y hy).fits
      have hslots : y.slots = 1 := by rw [Account.slots, show y.capacity = 0 from hzero]; rfl
      rw [Account.held_deliver] at hheld
      have hlen := congrArg List.length hheld
      rw [List.length_tail, List.length_singleton] at hlen
      omega

/-! ## The law -/

/-- What holds of unbuffered channels in a run. -/
structure Meets (program : Program) (run : Run) : Prop where
  /-- The slot is free and nobody waits, or one thread waits and its value lies in the slot. -/
  slot : ∀ n a, (run.after program n).machine.heap.InUse a →
    (run.after program n).machine.heap.tag a = .channel →
    (run.after program n).machine.heap.isUnbuffered a = true →
    ((run.after program n).machine.heap.buffered a = [] ∧
      (run.after program n).queue (.channel .sender a) = []) ∨
    ∃ t v, (run.after program n).machine.heap.buffered a = [v] ∧
      (run.after program n).queue (.channel .sender a) = [t] ∧
      ∃ i < n, run.Parks program i t a v ∧ run.Quiet program a i n
  /-- A thread that sent executes nothing before its value is received. -/
  rests : ∀ i t a v n, run.Parks program i t a v → i < n → (run.after program n).Executes t →
    ∃ j < n, run.Freed program i t a v j
  /-- The first thing that happens to the channel frees the thread, if it is a delivery. -/
  freed : ∀ i t a v j u w, run.Parks program i t a v → i < j → run.Quiet program a i j →
    (run.after program j).deal? program = some (.received u a w) →
    w = v ∧ run.Freed program i t a v j
  /-- If a channel is made at the address instead, the thread sleeps for ever. -/
  lost : ∀ i t a v j capacity n, run.Parks program i t a v → i < j → run.Quiet program a i j →
    (run.after program j).deal? program = some (.made a capacity) → j < n →
    (run.after program n).Active → (run.after program n).Asleep t

theorem Fresh.slot (fresh : run.Fresh)
    (hin : (run.after program n).machine.heap.InUse a)
    (htag : (run.after program n).machine.heap.tag a = .channel)
    (hunbuffered : (run.after program n).machine.heap.isUnbuffered a = true) :
    ((run.after program n).machine.heap.buffered a = [] ∧
      (run.after program n).queue (.channel .sender a) = []) ∨
    ∃ t v, (run.after program n).machine.heap.buffered a = [v] ∧
      (run.after program n).queue (.channel .sender a) = [t] ∧
      ∃ i < n, run.Parks program i t a v ∧ run.Quiet program a i n := by
  have booked := fresh.booked program n
  obtain ⟨x, hx, books⟩ := booked.books a hin htag
  have hzero : x.capacity = 0 := by
    rw [books.unbuffered] at hunbuffered
    exact beq_iff_eq.1 hunbuffered
  have hsenders : (run.after program n).queue (.channel .sender a) = x.held.map Prod.fst := by
    have hqueue := books.senders
    rwa [if_pos hzero] at hqueue
  have hslots : x.slots = 1 := by rw [Account.slots, hzero]; rfl
  have hfits := hslots ▸ (booked.fair a x hx).fits
  rw [books.ring.buffered_eq, hsenders]
  cases hheld : x.held with
  | nil => exact .inl ⟨rfl, rfl⟩
  | cons first rest =>
    rw [hheld, List.length_cons] at hfits
    obtain rfl := List.eq_nil_of_length_eq_zero (by omega : rest.length = 0)
    exact .inr ⟨first.1, first.2, rfl, rfl, fresh.exists_parks hx hzero hheld⟩

theorem Fresh.freed_of_executes (fresh : run.Fresh) (parks : run.Parks program i t a v) (hin : i < n)
    (hexecutes : (run.after program n).Executes t) : ∃ j < n, run.Freed program i t a v j := by
  have hnot : ¬ (run.after program n).Asleep t := fun hasleep =>
    (fresh.rostered_after program n).not_executes hasleep hexecutes
  rcases fresh.parked parks hin hexecutes.active with waiting | ⟨j, lost⟩ | freed
  · exact absurd (waiting.sleeps n hin (Nat.le_refl n)) hnot
  · exact absurd (lost.sleeps n hin (Nat.le_refl n)) hnot
  · exact freed

theorem Fresh.asleep_of_made (fresh : run.Fresh) (parks : run.Parks program i t a v) (hij : i < j)
    (quiet : run.Quiet program a i j) {capacity : Nat}
    (hmade : (run.after program j).deal? program = some (.made a capacity)) (hjn : j < n)
    (hactive : (run.after program n).Active) : (run.after program n).Asleep t := by
  have hin := Nat.lt_trans hij hjn
  rcases fresh.parked parks hin hactive with waiting | ⟨j', lost⟩ | ⟨j', -, freed⟩
  · exact waiting.sleeps n hin (Nat.le_refl n)
  · exact lost.sleeps n hin (Nat.le_refl n)
  · -- What is made first cannot be delivered from first.
    exfalso
    obtain ⟨u, hu⟩ := freed.received
    rcases Nat.lt_trichotomy j j' with hlt | rfl | hlt
    · exact freed.quiet j hij hlt _ hmade rfl
    · rw [hmade] at hu
      cases hu
    · exact quiet j' freed.after hlt _ hu rfl

/-- Unbuffered sends complete only by their own value being received, in the run of any program. -/
theorem unbuffered_sends_meet {config : Config} {m : Machine}
    (hcreate : Machine.create config standardBuiltins = .ok m) (program : Program) :
    Meets program (begin m (.create config.maxQuantum config.seed)) := by
  have fresh := fresh_begin hcreate
  refine ⟨fun n a hin htag hunbuffered => fresh.slot hin htag hunbuffered,
    fun i t a v n parks hin => fresh.freed_of_executes parks hin, ?_,
    fun i t a v j capacity n parks hij quiet => fresh.asleep_of_made parks hij quiet⟩
  intro i t a v j u w parks hij quiet hdeal
  have hactive := (fresh.active_of_deal hdeal).of_next
  obtain ⟨freed, hw⟩ := (fresh.waiting_of_quiet parks hij hactive quiet).freed fresh hij hdeal rfl
  exact ⟨hw, freed⟩

/-- One thread sends a boolean to another one over an unbuffered channel. -/
def meeting : Program := ⟨#[.enterScope 1, .newChannel 0, .store ⟨0, 0⟩, .spawn 0, .receive,
  .endThread, .load ⟨0, 0⟩, .constant (.bool true), .send, .halt]⟩

/-- The main thread sends in step seven and is freed in step nine, when the other one receives. -/
theorem unbuffered_sends_meet_meeting : ∃ m,
    Machine.create { heapWords := 200, seed := 7 } standardBuiltins = .ok m ∧
      (begin m (.create 15 7)).Parks meeting 7 0 170 10 ∧
      (begin m (.create 15 7)).Freed meeting 7 0 170 10 9 := by
  obtain ⟨m, hcreate, heq⟩ := exists_sample
  -- The run is evaluated once for all facts about it.
  obtain ⟨hsent, hunbuffered, hnone, hdeal⟩ :
      (sample.after meeting 7).deal? meeting = some (.sent 0 170 10) ∧
      (sample.after meeting 7).machine.heap.isUnbuffered 170 = true ∧
      (sample.after meeting 8).deal? meeting = none ∧
      (sample.after meeting 9).deal? meeting = some (.received 1 170 10) := by
    decide +kernel
  have parks : sample.Parks meeting 7 0 170 10 := ⟨hsent, hunbuffered⟩
  have quiet : sample.Quiet meeting 170 7 9 := by
    intro j hlow hhigh x hx
    obtain rfl : j = 8 := by omega
    rw [hnone] at hx
    cases hx
  rw [heq] at parks quiet hdeal
  exact ⟨m, hcreate, parks,
    ((unbuffered_sends_meet hcreate meeting).freed 7 0 170 10 9 1 10 parks (by decide) quiet hdeal).2⟩

end ChannelMachine.Run

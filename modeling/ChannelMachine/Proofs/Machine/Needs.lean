import ChannelMachine.Proofs.Machine.Accounts

/-!
# What threads at a place can use up

Threads that receive use up the values that a channel holds, and threads that send use up its free
slots.  `Ledger.need` counts them for a place.  An instruction that adds one wakes the thread that
leads the queue of the place, and a thread that stood there and goes on has used one up (`Acts.need`).
-/

namespace ChannelMachine

/-- What a thread at a place can use up: values to receive, or free slots to send to. -/
def Ledger.need (l : Ledger) : Place → Nat
  | .channel .reader a => l.load a
  | .channel .writer a => l.room a
  | .channel .sender _ | .group _ => 0

namespace Machine

variable {m k : Machine} {program : Program} {p : Progress} {d : Option Deal} {l : Ledger}

/-- A place keeps its needs if no deal is about its channel. -/
theorem need_enter {place : Place} (hd : ∀ x, d = some x → x.channel ≠ place.address) :
    (l.enter d).need place = l.need place := by
  match place, hd with
  | .channel .reader _, hd => exact Ledger.load_congr (Ledger.enter_of_ne hd)
  | .channel .writer _, hd => exact Ledger.room_congr (Ledger.enter_of_ne hd)
  | .channel .sender _, _ => rfl
  | .group _, _ => rfl

/-- The thread that leads a queue is woken, unless nobody waits. -/
theorem Requeues.head_woken {leave : Place → Nat} {woken : List ThreadId} {joins : Option Place}
    (re : Requeues m k leave woken joins) (place : Place) (hjoins : joins ≠ some place)
    (hwoken : ∀ t ∈ (m.queue place).take 1, t ∈ woken) :
    k.queue place = [] ∨ ∃ t ∈ m.queue place, t ∈ k.runnable := by
  cases hqueue : m.queue place with
  | nil =>
    left
    rw [re.queue, hqueue, List.drop_nil, if_neg hjoins]
    rfl
  | cons t rest =>
    refine .inr ⟨t, List.mem_cons_self .., ?_⟩
    rw [re.runnable]
    exact List.mem_append_right _ (hwoken t (by simp [hqueue]))

/-- Accepting a value takes up one free slot and adds a value. -/
theorem Booked.need_sent (booked : Booked m l) {t : ThreadId} {a v : Address}
    (hin : m.heap.InUse a) (htag : m.heap.tag a = .channel) (room : m.heap.isFull a = false) :
    (l.enter (some (.sent t a v))).load a = l.load a + 1 ∧
      (l.enter (some (.sent t a v))).room a < l.room a := by
  obtain ⟨x, hx, books⟩ := booked.books a hin htag
  have fair := booked.fair a x hx
  have hlt := books.lt_of_room fair room
  have hentered : l.enter (some (.sent t a v)) a = some (x.accept t v) := by
    rw [Ledger.enter, Ledger.set_self, hx]
    rfl
  have hslots : (x.accept t v).slots = x.slots := rfl
  rw [Ledger.load_eq hentered, Ledger.load_eq hx, Ledger.room_eq hentered, Ledger.room_eq hx,
    fair.held_accept, List.length_append, hslots]
  exact ⟨rfl, Nat.sub_lt_sub_left hlt (Nat.lt_succ_self _)⟩

/-- Delivering a value uses it up and frees a slot. -/
theorem Booked.need_received (booked : Booked m l) {t : ThreadId} {a : Address}
    (hin : m.heap.InUse a) (htag : m.heap.tag a = .channel) (taken : m.heap.isEmpty a = false) :
    (l.enter (some (.received t a (m.heap.channelFront a)))).load a < l.load a ∧
      (l.enter (some (.received t a (m.heap.channelFront a)))).room a = l.room a + 1 := by
  obtain ⟨x, hx, books⟩ := booked.books a hin htag
  have hfits := (booked.fair a x hx).fits
  obtain ⟨u, rest, hheld⟩ := books.of_taken taken
  have hentered : l.enter (some (.received t a (m.heap.channelFront a))) a =
      some (x.deliver (m.heap.channelFront a)) := by
    rw [Ledger.enter, Ledger.set_self, hx]
    rfl
  have hslots : (x.deliver (m.heap.channelFront a)).slots = x.slots := rfl
  rw [hheld, List.length_cons] at hfits
  rw [Ledger.load_eq hentered, Ledger.load_eq hx, Ledger.room_eq hentered, Ledger.room_eq hx,
    Account.held_deliver, hheld, List.length_cons, List.tail_cons, hslots]
  omega

/-- A shut place has no need. -/
theorem Booked.need_shut (booked : Booked m l) {place : Place}
    (hin : m.heap.InUse place.address) (hchannel : ∀ side a, place = .channel side a →
      m.heap.tag a = .channel) (shut : m.heap.Shut place) : l.need place = 0 := by
  match place, hin, hchannel, shut with
  | .channel .reader a, hin, hchannel, shut =>
    obtain ⟨x, hx, books⟩ := booked.books a hin (hchannel _ a rfl)
    rw [Ledger.need, Ledger.load_eq hx, books.of_empty shut]
    rfl
  | .channel .writer a, hin, hchannel, shut =>
    obtain ⟨x, hx, books⟩ := booked.books a hin (hchannel _ a rfl)
    rw [Ledger.need, Ledger.room_eq hx, books.of_full shut, Nat.sub_self]
  | .channel .sender _, _, _, _ => rfl
  | .group _, _, _, _ => rfl

/-- A side of a channel that has no need is shut. -/
theorem Booked.shut_of_need (booked : Booked m l) {side : Side} {a : Address}
    (hside : side ≠ .sender) (hin : m.heap.InUse a) (htag : m.heap.tag a = .channel)
    (hneed : l.need (.channel side a) = 0) : m.heap.Shut (.channel side a) := by
  obtain ⟨x, hx, books⟩ := booked.books a hin htag
  cases side with
  | reader =>
    rw [Ledger.need, Ledger.load_eq hx, List.length_eq_zero_iff] at hneed
    exact books.ring.isEmpty_iff.2 (List.map_eq_nil_iff.2 hneed)
  | writer =>
    rw [Ledger.need, Ledger.room_eq hx] at hneed
    refine books.ring.isFull_iff.2 ?_
    rw [List.length_map, books.slots]
    exact Nat.le_antisymm (booked.fair a x hx).fits (Nat.le_of_sub_eq_zero hneed)
  | sender => exact absurd rfl hside

/-- What an instruction does to the need of a place that the running thread does not join: the queue
is empty afterwards, or there is no need, or there is less, or the running thread does not stand there
and there is as much as before, or one more and the leading thread is woken. -/
theorem Acts.need (acts : Acts program m k p d) (hm : m.Sound) (booked : Booked m l)
    {leave : Place → Nat} {woken started : List ThreadId} {joins : Option Place}
    (shifts : Shifts m k p leave woken started joins)
    (passes : Passes program m k d leave woken joins) {place : Place}
    (hjoins : joins ≠ some place) :
    k.queue place = [] ∨ (l.enter d).need place = 0 ∨ (l.enter d).need place < l.need place ∨
      (¬ Stands program m m.registers place ∧ ((l.enter d).need place = l.need place ∨
        ((l.enter d).need place = l.need place + 1 ∧
          ∃ t ∈ m.queue place, t ∈ k.runnable))) := by
  match place, hjoins with
  | .channel .sender _, _ => exact .inr (.inl rfl)
  | .group _, _ => exact .inr (.inl rfl)
  | .channel .reader a, hjoins =>
    have hreceives := fun stands => (passes.receives a stands).resolve_left hjoins
    by_cases hd : ∀ x, d = some x → x.channel ≠ a
    · refine .inr (.inr (.inr ⟨fun stands => ?_, .inl (need_enter hd)⟩))
      obtain ⟨v, hv⟩ := hreceives stands
      exact hd _ hv rfl
    simp only [Classical.not_forall, Classical.not_not] at hd
    obtain ⟨x, rfl, rfl⟩ := hd
    cases acts with
    | @madeChannel a _ _ _ _ _ _ _ _ requeues =>
      exact .inl (requeues.queue_of_all (Place.mem_ofChannel .reader a))
    | @sent v a _ _ _ stack tag room _ _ _ _ requeues =>
      have hin := hm.inUse_below stack
      have hwoken := requeues.head_woken (.channel .reader a)
        (by split <;> simp) fun t ht => ht
      rcases hwoken with hnil | hwoken
      · exact .inl hnil
      · refine .inr (.inr (.inr ⟨fun stands => ?_, .inr ⟨(booked.need_sent hin tag room).1,
          hwoken⟩⟩))
        obtain ⟨w, hw⟩ := hreceives stands
        cases hw
    | @received a _ _ stack tag taken =>
      have hin := hm.inUse_top stack
      exact .inr (.inr (.inl (booked.need_received hin tag taken).1))
  | .channel .writer a, hjoins =>
    have hsends := fun stands => (passes.sends a stands).resolve_left hjoins
    by_cases hd : ∀ x, d = some x → x.channel ≠ a
    · refine .inr (.inr (.inr ⟨fun stands => ?_, .inl (need_enter hd)⟩))
      obtain ⟨v, hv⟩ := hsends stands
      exact hd _ hv rfl
    simp only [Classical.not_forall, Classical.not_not] at hd
    obtain ⟨x, rfl, rfl⟩ := hd
    cases acts with
    | @madeChannel a _ _ _ _ _ _ _ _ requeues =>
      exact .inl (requeues.queue_of_all (Place.mem_ofChannel .writer a))
    | @sent v a _ _ _ stack tag room =>
      have hin := hm.inUse_below stack
      exact .inr (.inr (.inl (booked.need_sent hin tag room).2))
    | @received a _ _ stack tag taken _ _ _ requeues =>
      have hin := hm.inUse_top stack
      have hwoken := requeues.head_woken (.channel .writer a) nofun
        fun t ht => List.mem_append_right _ ht
      rcases hwoken with hnil | hwoken
      · exact .inl hnil
      · refine .inr (.inr (.inr ⟨fun stands => ?_, .inr ⟨(booked.need_received hin tag taken).2,
          hwoken⟩⟩))
        obtain ⟨w, hw⟩ := hsends stands
        cases hw

end Machine

end ChannelMachine

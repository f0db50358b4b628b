import ChannelMachine.Proofs.Run.Waiting

/-!
# Channels deliver what they accept

At any time, what a channel has delivered and then what stands in its slots is what it has accepted, in
this order.  A thread that sends stays at the instruction until its value is accepted, and then it is
behind it, so no value is accepted twice.  A value that is accepted wakes the thread that has waited
longest to receive from the channel, and one that is delivered wakes the thread that has waited longest
to send to it, and no other thread.
-/

namespace ChannelMachine.Run

variable {program : Program} {run run' : Run} {n : Nat} {t : ThreadId} {a v : Address}

/-- A thread is woken in step `n`. -/
def Woken (program : Program) (run : Run) (n : Nat) (t : ThreadId) : Prop :=
  (run.after program n).Asleep t ∧ (run.after program (n + 1)).Ready t

/-- From step `i` to step `n` a thread has the registers `r`. -/
def Keeps (program : Program) (run : Run) (t : ThreadId) (r : Registers) (i n : Nat) : Prop :=
  ∀ j, i ≤ j → j ≤ n → (run.after program j).thread? t = some r

/-! ## Threads that are woken -/

/-- The threads that are woken are those that the instruction makes runnable. -/
theorem Turned.woken_iff {m k : Machine} {s : Scheduler} {left : Nat} {p : Progress}
    (turned : Turned (running m s left) run' m k p) (hrun' : run'.Rostered) :
    ((running m s left).Asleep t ∧ run'.Ready t) ↔ (running m s left).Asleep t ∧ t ∈ k.runnable := by
  refine and_congr_right fun hasleep => ⟨fun hready => ?_, turned.ready t⟩
  obtain ⟨s', hs', hmem⟩ := hready
  refine Classical.not_not.1 fun hnot => ?_
  exact hrun'.not_asleep ⟨s', hs', .inl hmem⟩ ((turned.asleep t).2 (.inl ⟨hasleep, hnot⟩))

theorem mem_take_one {l : List ThreadId} : t ∈ l.take 1 ↔ l.head? = some t := by
  rw [List.take_one, Option.mem_toList]

/-- Accepting a value wakes the thread that has waited longest to receive. -/
theorem Fresh.woken_of_sent (fresh : run.Fresh)
    (hdeal : (run.after program n).deal? program = some (.sent t a v)) :
    (∀ u, run.Woken program n u ↔
      ((run.after program n).queue (.channel .reader a)).head? = some u) ∧
    (run.after program (n + 1)).queue (.channel .reader a) =
      ((run.after program n).queue (.channel .reader a)).tail := by
  have rostered := fresh.rostered_after program n
  have rostered' := fresh.rostered_after program (n + 1)
  obtain ⟨m, k, s, left, p, hrun, -, acts, turned⟩ := fresh.stepped_of_deal hdeal
  rw [hrun] at rostered
  cases acts with
  | sent _ _ _ _ _ _ _ _ requeues =>
    constructor
    · intro u
      rw [Woken, hrun, turned.woken_iff rostered', requeues.runnable, rostered.1.runnable,
        List.nil_append, mem_take_one]
      refine and_iff_right_of_imp fun hhead => ?_
      exact rostered.asleep_of_mem rfl (List.mem_of_mem_head? hhead)
    · rw [turned.queue, requeues.queue, hrun]
      change _ = (m.queue (.channel .reader a)).tail
      cases m.heap.isUnbuffered a <;> simp [Machine.oneFrom]

/-- Delivering a value wakes the thread that has waited longest to send, and on an unbuffered channel
also the one whose value lay in the slot. -/
theorem Fresh.woken_of_received (fresh : run.Fresh)
    (hdeal : (run.after program n).deal? program = some (.received t a v)) :
    (∀ u, run.Woken program n u ↔
      ((run.after program n).queue (.channel .writer a)).head? = some u ∨
      ((run.after program n).machine.heap.isUnbuffered a = true ∧
        ((run.after program n).queue (.channel .sender a)).head? = some u)) ∧
    (run.after program (n + 1)).queue (.channel .writer a) =
      ((run.after program n).queue (.channel .writer a)).tail := by
  have rostered := fresh.rostered_after program n
  have rostered' := fresh.rostered_after program (n + 1)
  obtain ⟨m, k, s, left, p, hrun, -, acts, turned⟩ := fresh.stepped_of_deal hdeal
  rw [hrun] at rostered
  cases acts with
  | received _ _ _ _ _ _ _ requeues =>
    constructor
    · intro u
      rw [Woken, hrun, turned.woken_iff rostered', requeues.runnable, rostered.1.runnable,
        List.nil_append, List.mem_append, mem_take_one]
      constructor
      · rintro ⟨-, hsender | hwriter⟩
        · split at hsender
          next hb => exact .inr ⟨hb, mem_take_one.1 hsender⟩
          next => cases hsender
        · exact .inl hwriter
      · rintro (hwriter | ⟨hb, hsender⟩)
        · exact ⟨rostered.asleep_of_mem rfl (List.mem_of_mem_head? hwriter), .inr hwriter⟩
        · refine ⟨rostered.asleep_of_mem rfl (List.mem_of_mem_head? hsender), .inl ?_⟩
          rw [if_pos (show m.heap.isUnbuffered a = true from hb)]
          exact mem_take_one.2 hsender
    · rw [turned.queue, requeues.queue, hrun]
      change _ = (m.queue (.channel .writer a)).tail
      cases m.heap.isUnbuffered a <;> simp [Machine.oneFrom]

/-! ## Threads that send -/

/-- A thread whose value is accepted has completed its send. -/
theorem Fresh.completes (fresh : run.Fresh)
    (hdeal : (run.after program n).deal? program = some (.sent t a v)) :
    ∃ r rest, (run.after program n).thread? t = some r ∧ program.at? r.pc = some .send ∧
      r.stack = v :: a :: rest ∧ (run.after program (n + 1)).thread? t =
        some { r with stack := Heap.undefined :: rest, pc := r.pc + 1 } := by
  obtain ⟨m, k, s, left, p, hrun, -, acts, turned⟩ := fresh.stepped_of_deal hdeal
  cases acts with
  | sent instr stack _ _ _ _ _ registers =>
    refine ⟨m.registers, _, ?_, instr, stack, ?_⟩
    · rw [hrun, thread?, if_pos rfl]
    · rw [turned.self, registers, if_neg]
      split <;> simp

/-- A thread that sends stays at the instruction, or its value is accepted. -/
theorem Fresh.stays_or_completes (fresh : run.Fresh) {r : Registers}
    (hactive : (run.after program (n + 1)).Active) (hr : (run.after program n).thread? t = some r)
    (hsend : program.at? r.pc = some .send) :
    ((run.after program (n + 1)).thread? t = some r ∧
      ∀ a v, (run.after program n).deal? program ≠ some (.sent t a v)) ∨
    ∃ a v rest, r.stack = v :: a :: rest ∧
      (run.after program n).deal? program = some (.sent t a v) ∧
      (run.after program (n + 1)).thread? t =
        some { r with stack := Heap.undefined :: rest, pc := r.pc + 1 } := by
  by_cases hdeal : ∃ a v, (run.after program n).deal? program = some (.sent t a v)
  · obtain ⟨a, v, hdeal⟩ := hdeal
    obtain ⟨r', rest, hr', -, stack, hnext⟩ := fresh.completes hdeal
    obtain rfl := Option.some.inj (hr.symm.trans hr')
    exact .inr ⟨a, v, rest, stack, hdeal, hnext⟩
  · have hnot : ∀ a v, (run.after program n).deal? program ≠ some (.sent t a v) :=
      fun a v h => hdeal ⟨a, v, h⟩
    refine .inl ⟨?_, hnot⟩
    have rostered := fresh.rostered_after program n
    cases fresh.moves program n with
    | dispatched _ same => rw [same.thread, hr]
    | stopped _ ended => exact absurd hactive ended
    | @stepped m k s left p here sound _ acts turned =>
      rw [here] at rostered turned hr
      by_cases ht : t = m.current
      · subst ht
        rw [thread?, if_pos rfl] at hr
        obtain rfl := Option.some.inj hr
        rw [turned.self]
        generalize (run.after program n).deal? program = d at acts hnot
        cases acts with
        | apart notSend => exact absurd hsend notSend
        | @sent v a => exact absurd rfl (hnot a v)
        | full _ _ _ _ _ _ registers => rw [registers, if_neg (by simp)]
        | counted instr => rw [hsend] at instr; simp at instr
        | _ instr => rw [hsend] at instr; cases instr
      · obtain ⟨leave, woken, started, joins, shifts, -⟩ := acts.passes sound
        exact turned.thread_eq rostered shifts ht hr

/-- A thread does not stay at an instruction by which a value of it was accepted. -/
theorem Fresh.le_of_keeps (fresh : run.Fresh) {r : Registers} {i j j' : Nat}
    (keeps : run.Keeps program t r i j') (hij : i ≤ j)
    (hj : (run.after program j).deal? program = some (.sent t a v)) : j' ≤ j := by
  refine Nat.le_of_not_lt fun hlt => ?_
  obtain ⟨r', rest, hr', -, -, hnext⟩ := fresh.completes hj
  obtain rfl := Option.some.inj (hr'.symm.trans (keeps j hij (Nat.le_of_lt hlt)))
  have hkept := keeps (j + 1) (Nat.le_succ_of_le hij) hlt
  rw [hnext, Option.some.injEq] at hkept
  exact Nat.succ_ne_self _ (congrArg Registers.pc hkept)

/-! ## The law -/

/-- What holds of the channels of a run. -/
structure Delivers (program : Program) (run : Run) : Prop where
  /-- What a channel has delivered and what stands in its slots is what it has accepted, and it holds
  no more values than its capacity allows. -/
  contents : ∀ n a, (run.after program n).machine.heap.InUse a →
    (run.after program n).machine.heap.tag a = .channel → ∃ x, run.ledger program n a = some x ∧
      x.received ++ (run.after program n).machine.heap.buffered a = x.sent.map Prod.snd ∧
      ((run.after program n).machine.heap.buffered a).length ≤ max x.capacity 1 ∧
      x.capacity ≤ maxCapacity
  /-- What a channel has delivered is the beginning of what it has accepted, also after the channel is
  gone. -/
  order : ∀ n a x, run.ledger program n a = some x → x.received <+: x.sent.map Prod.snd
  /-- A thread that sends stays at the instruction, or its value is accepted and it is behind it. -/
  sends : ∀ n t r, (run.after program (n + 1)).Active → (run.after program n).thread? t = some r →
    program.at? r.pc = some .send →
    ((run.after program (n + 1)).thread? t = some r ∧
      ∀ a v, (run.after program n).deal? program ≠ some (.sent t a v)) ∨
    ∃ a v rest, r.stack = v :: a :: rest ∧
      (run.after program n).deal? program = some (.sent t a v) ∧
      (run.after program (n + 1)).thread? t =
        some { r with stack := Heap.undefined :: rest, pc := r.pc + 1 }
  /-- While it stays there at most one value of it is accepted. -/
  once : ∀ t r i j j' a v a' v', run.Keeps program t r i j → run.Keeps program t r i j' →
    i ≤ j → i ≤ j' → (run.after program j).deal? program = some (.sent t a v) →
    (run.after program j').deal? program = some (.sent t a' v') → j = j'
  /-- Accepting a value wakes the thread that has waited longest to receive. -/
  accepts : ∀ n t a v, (run.after program n).deal? program = some (.sent t a v) →
    (∀ u, run.Woken program n u ↔
      ((run.after program n).queue (.channel .reader a)).head? = some u) ∧
    (run.after program (n + 1)).queue (.channel .reader a) =
      ((run.after program n).queue (.channel .reader a)).tail
  /-- Delivering a value wakes the thread that has waited longest to send, and on an unbuffered channel
  also the one whose value lay in the slot. -/
  delivers : ∀ n t a v, (run.after program n).deal? program = some (.received t a v) →
    (∀ u, run.Woken program n u ↔
      ((run.after program n).queue (.channel .writer a)).head? = some u ∨
      ((run.after program n).machine.heap.isUnbuffered a = true ∧
        ((run.after program n).queue (.channel .sender a)).head? = some u)) ∧
    (run.after program (n + 1)).queue (.channel .writer a) =
      ((run.after program n).queue (.channel .writer a)).tail

theorem Fresh.contents (fresh : run.Fresh) (hin : (run.after program n).machine.heap.InUse a)
    (htag : (run.after program n).machine.heap.tag a = .channel) :
    ∃ x, run.ledger program n a = some x ∧
      x.received ++ (run.after program n).machine.heap.buffered a = x.sent.map Prod.snd ∧
      ((run.after program n).machine.heap.buffered a).length ≤ max x.capacity 1 ∧
      x.capacity ≤ maxCapacity := by
  have booked := fresh.booked program n
  obtain ⟨x, hx, books⟩ := booked.books a hin htag
  have fair := booked.fair a x hx
  refine ⟨x, hx, ?_, ?_, fair.capacity⟩
  · rw [books.ring.buffered_eq, fair.sent_eq]
  · rw [books.ring.buffered_eq, List.length_map]
    exact fair.fits

/-- Channels lose, duplicate and reorder nothing, in the run of any program. -/
theorem channels_deliver {config : Config} {m : Machine}
    (hcreate : Machine.create config standardBuiltins = .ok m) (program : Program) :
    Delivers program (begin m (.create config.maxQuantum config.seed)) := by
  have fresh := fresh_begin hcreate
  refine ⟨fun n a => fresh.contents, fun n a x hx => ((fresh.booked program n).fair a x hx).order,
    fun n t r => fresh.stays_or_completes, ?_, fun n t a v => fresh.woken_of_sent,
    fun n t a v => fresh.woken_of_received⟩
  intro t r i j j' a v a' v' keeps keeps' hij hij' hj hj'
  exact Nat.le_antisymm (fresh.le_of_keeps keeps hij' hj') (fresh.le_of_keeps keeps' hij hj)

/-- The main thread sends two booleans to a channel and receives the first one. -/
def handing : Program := ⟨#[.enterScope 1, .newChannel 2, .store ⟨0, 0⟩, .constant (.bool true), .send,
  .load ⟨0, 0⟩, .constant (.bool false), .send, .load ⟨0, 0⟩, .receive, .halt]⟩

/-- After eleven steps the first value has been delivered, and the second one stands in the slots. -/
theorem channels_deliver_handing : ∃ m,
    Machine.create { heapWords := 200, seed := 7 } standardBuiltins = .ok m ∧
      ((begin m (.create 15 7)).after handing 11).machine.heap.buffered 170 = [Heap.boolean false] ∧
      ∃ x, (begin m (.create 15 7)).ledger handing 11 170 = some x ∧
        x.received = [Heap.boolean true] ∧ x.sent.map Prod.snd = [Heap.boolean true, Heap.boolean false] := by
  obtain ⟨m, hcreate, heq⟩ := exists_sample
  -- The run is evaluated once for all facts about its end.
  obtain ⟨hle, htag, hbuffered, hreceived⟩ :
      170 + nodeSize ≤ (sample.after handing 11).machine.heap.words.size ∧
      (sample.after handing 11).machine.heap.tag 170 = .channel ∧
      (sample.after handing 11).machine.heap.buffered 170 = [Heap.boolean false] ∧
      (sample.ledger handing 11 170).map Account.received = some [Heap.boolean true] := by
    decide +kernel
  have hin : (sample.after handing 11).machine.heap.InUse 170 :=
    .of_tag ⟨by decide, hle⟩ htag (by decide)
  rw [heq] at hin htag hbuffered hreceived
  obtain ⟨x, hx, hcontents, -⟩ := (channels_deliver hcreate handing).contents 11 170 hin htag
  rw [hx] at hreceived
  have hfirst : x.received = [Heap.boolean true] := Option.some.inj hreceived
  rw [hbuffered, hfirst] at hcontents
  exact ⟨m, hcreate, hbuffered, x, hx, hfirst, hcontents.symm⟩

end ChannelMachine.Run

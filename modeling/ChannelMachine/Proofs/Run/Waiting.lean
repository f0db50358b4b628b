import ChannelMachine.Proofs.Machine.Needs
import ChannelMachine.Proofs.Run.Ledger

/-!
# Nobody waits in vain

A thread that waits in a queue stands at the place of the queue (`Placed`).

A wake-up is only a hint.  A thread that is woken executes its instruction again, and another thread
may have been faster; then it waits again.  Still no value and no free slot is forgotten.  As long as
threads wait for values at a channel, there are threads awake that are about to receive from it, at
least as many as it holds values; and as long as threads wait for room, at least as many are about to
send as it has free slots (`Attended`).  A deal that adds a value or a slot wakes one more thread, and
a thread that goes away from the place has used one up.
-/

namespace ChannelMachine.Run

open Machine (Stands)

/-- A thread stands at a place. -/
def StandsAt (program : Program) (run : Run) (place : Place) (t : ThreadId) : Prop :=
  ∃ r, run.thread? t = some r ∧ Stands program run.machine r place

/-- Threads that wait stand at their place, but for the senders whose value lies in a slot. -/
def Placed (program : Program) (run : Run) : Prop :=
  ∀ place t, t ∈ run.queue place → (∀ a, place ≠ .channel .sender a) →
    run.StandsAt program place t

/-- There are threads that are awake and stand at a place, at least so many. -/
def AtLeast (program : Program) (run : Run) (place : Place) (n : Nat) : Prop :=
  ∃ ts : List ThreadId, ts.Nodup ∧ n ≤ ts.length ∧
    ∀ t ∈ ts, run.Awake t ∧ run.StandsAt program place t

/-- Where threads wait, enough others are awake. -/
def Attended (program : Program) (run : Run) (l : Ledger) : Prop :=
  ∀ place, run.queue place ≠ [] → run.AtLeast program place (l.need place)

variable {program : Program} {run run' : Run} {place : Place} {t : ThreadId}

theorem atLeast_zero (program : Program) (run : Run) (place : Place) :
    run.AtLeast program place 0 :=
  ⟨[], List.nodup_nil, Nat.le_refl 0, nofun⟩

/-! ## Nothing happens -/

theorem SameView.standsAt (same : SameView run run') (h : run.StandsAt program place t) :
    run'.StandsAt program place t := by
  obtain ⟨r, hr, stands⟩ := h
  exact ⟨r, (same.thread t).trans hr, stands.congr same.heap same.typedChannels⟩

theorem SameView.placed (same : SameView run run') (placed : run.Placed program) :
    run'.Placed program := by
  intro place t ht hsender
  rw [same.queue] at ht
  exact same.standsAt (placed place t ht hsender)

theorem SameView.attended (same : SameView run run') {l : Ledger}
    (attended : run.Attended program l) : run'.Attended program l := by
  intro place hne
  rw [same.queue] at hne
  obtain ⟨ts, hnodup, hle, hts⟩ := attended place hne
  refine ⟨ts, hnodup, hle, fun t ht => ?_⟩
  exact ⟨(same.awake t).2 (hts t ht).1, same.standsAt (hts t ht).2⟩

/-! ## An instruction -/

section Turn

variable {m k : Machine} {s : Scheduler} {left : Nat} {p : Progress} {d : Option Deal}
  {leave : Place → Nat} {woken started : List ThreadId} {joins : Option Place} {l : Ledger}
  (rostered : (running m s left).Rostered) (hm : m.Sound) (acts : m.Acts program k p d)
  (shifts : m.Shifts k p leave woken started joins) (passes : m.Passes program k d leave woken joins)
  (turned : Turned (running m s left) run' m k p)

include rostered shifts turned in
/-- The registers of the other threads stay. -/
theorem Turned.thread_eq {r : Registers} (ht : t ≠ m.current)
    (hr : (running m s left).thread? t = some r) : run'.thread? t = some r := by
  rw [thread?, if_neg ht] at hr
  rw [turned.other t ht, shifts.threads_eq, hr]
  rintro rfl
  rw [rostered.1.table_next] at hr
  cases hr

include rostered hm acts shifts turned in
/-- The other threads stand where they stood. -/
theorem Turned.standsAt (ht : t ≠ m.current)
    (h : (running m s left).StandsAt program place t) : run'.StandsAt program place t := by
  obtain ⟨r, hr, stands⟩ := h
  refine ⟨r, turned.thread_eq rostered shifts ht hr, ?_⟩
  rw [thread?, if_neg ht] at hr
  have hlive : ∀ a ∈ r.stack, m.heap.Live m.roots a := fun a ha =>
    .root (mem_threadRoots.2 (.inr ⟨t, r, hr, Registers.mem_roots.2 (.inl ha)⟩))
  exact (stands.carry (acts.carries hm) hlive shifts.typedChannels).congr turned.heap
    turned.typedChannels

include rostered hm acts shifts passes turned in
theorem Turned.placed (placed : (running m s left).Placed program) : run'.Placed program := by
  intro place t ht hsender
  rw [turned.queue] at ht
  rcases shifts.requeues.mem ht with hdrop | ⟨hjoins, rfl⟩
  · have hin := List.mem_of_mem_drop hdrop
    have hne : t ≠ m.current := by
      rintro rfl
      exact rostered.1.current_not_mem_queue rostered.2 place hin
    exact turned.standsAt rostered hm acts shifts hne (placed place t hin hsender)
  · rcases passes.joined place hjoins with ⟨-, -, hregisters, stands⟩ | ⟨a, v, rfl, -⟩
    · have hblocked := shifts.blocked.2 (by rw [hjoins]; rfl)
      refine ⟨m.registers, ?_, stands.congr turned.heap turned.typedChannels⟩
      rw [turned.self, hblocked, if_neg (by simp), hregisters]
    · exact absurd rfl (hsender a)

include rostered hm acts shifts turned in
/-- Threads that are awake and stand at a place still do, unless the running thread is among them; and
a thread that is woken joins them. -/
theorem Turned.atLeast (placed : (running m s left).Placed program) {n n' : Nat}
    (h : (running m s left).AtLeast program place n)
    (hn : n' < n ∨ (¬ Stands program m m.registers place ∧ (n' = n ∨ (n' = n + 1 ∧
      ∃ u ∈ m.queue place, u ∈ k.runnable)))) (hsender : ∀ a, place ≠ .channel .sender a) :
    run'.AtLeast program place n' := by
  obtain ⟨ts, hnodup, hle, hts⟩ := h
  have hstay : ∀ t, t ≠ m.current → (running m s left).Awake t →
      (running m s left).StandsAt program place t →
      run'.Awake t ∧ run'.StandsAt program place t := fun t ht hawake hstands =>
    ⟨(turned.awake t).2 ⟨.inl hawake, fun heq => absurd heq ht⟩,
      turned.standsAt rostered hm acts shifts ht hstands⟩
  rcases hn with hless | ⟨hself, hn⟩
  · refine ⟨ts.erase m.current, hnodup.erase _, ?_, fun t ht => ?_⟩
    · rw [List.length_erase]
      split <;> omega
    · obtain ⟨hne, ht⟩ := hnodup.mem_erase_iff.1 ht
      exact hstay t hne (hts t ht).1 (hts t ht).2
  have hne : ∀ t ∈ ts, t ≠ m.current := by
    rintro t ht rfl
    obtain ⟨-, r, hr, stands⟩ := hts _ ht
    rw [thread?, if_pos rfl, Option.some.injEq] at hr
    exact hself (hr ▸ stands)
  rcases hn with rfl | ⟨rfl, u, hu, hwoken⟩
  · exact ⟨ts, hnodup, hle, fun t ht => hstay t (hne t ht) (hts t ht).1 (hts t ht).2⟩
  · have hblocked := rostered.1.blocked_of_mem hu
    have hnot : u ∉ ts := fun h =>
      rostered.not_asleep (hts u h).1 (asleep_running.2 hblocked)
    have hne' : u ≠ m.current := by
      rintro rfl
      exact rostered.1.current_not_mem_queue rostered.2 place hu
    refine ⟨u :: ts, List.nodup_cons.2 ⟨hnot, hnodup⟩, Nat.succ_le_succ hle, fun t ht => ?_⟩
    rcases List.mem_cons.1 ht with rfl | ht
    · exact ⟨(turned.awake t).2 ⟨.inr hwoken, fun heq => absurd heq hne'⟩,
        turned.standsAt rostered hm acts shifts hne' (placed place t hu hsender)⟩
    · exact hstay t (hne t ht) (hts t ht).1 (hts t ht).2

include rostered hm acts shifts passes turned in
theorem Turned.attended (booked : m.Booked l) (placed : (running m s left).Placed program)
    (attended : (running m s left).Attended program l) :
    run'.Attended program (l.enter d) := by
  intro place hqueue
  rw [turned.queue] at hqueue
  by_cases hjoins : joins = some place
  · rcases passes.joined place hjoins with ⟨rfl, shut, -, stands⟩ | ⟨a, v, rfl, -⟩
    · -- A shut place has no need, whoever waits there.
      have hlive := Machine.Sound.live_stack (stands.mem_stack)
      have hzero := booked.need_shut (hm.inUse_of_live hlive) (fun side a heq => ?_) shut
      · exact hzero ▸ atLeast_zero ..
      · subst heq
        exact ((acts.carries hm).live a hlive).2.symm.trans stands.tag_channel
    · exact atLeast_zero ..
  · have hnonempty : m.queue place ≠ [] := by
      intro hnil
      refine hqueue ?_
      rw [shifts.requeues.queue, hnil, List.drop_nil, if_neg hjoins]
      rfl
    have hold := attended place hnonempty
    rcases acts.need hm booked shifts passes hjoins with hnil | hzero | hn
    · exact absurd hnil hqueue
    · exact hzero ▸ atLeast_zero ..
    · match place, hold, hn with
      | .channel .sender _, _, _ => exact atLeast_zero ..
      | .channel .reader a, hold, hn =>
        exact turned.atLeast rostered hm acts shifts placed hold hn nofun
      | .channel .writer a, hold, hn =>
        exact turned.atLeast rostered hm acts shifts placed hold hn nofun
      | .group g, _, _ => exact atLeast_zero ..

end Turn

/-! ## Whole runs -/

/-- Threads that wait stand at their places, and where threads wait, enough others are awake. -/
theorem Fresh.placed_attended {run : Run} (fresh : run.Fresh) (program : Program) (n : Nat)
    (hactive : (run.after program n).Active) :
    (run.after program n).Placed program ∧
      (run.after program n).Attended program (run.ledger program n) := by
  induction n with
  | zero =>
    refine ⟨fun place t ht _ => ?_, fun place hne => absurd (fresh.queue place) hne⟩
    have hnil : run.queue place = [] := fresh.queue place
    rw [after, hnil] at ht
    cases ht
  | succ n ih =>
    obtain ⟨placed, attended⟩ := ih hactive.of_next
    have rostered := fresh.rostered_after program n
    have booked := fresh.booked program n
    rw [ledger]
    cases fresh.moves program n with
    | dispatched nothing same =>
      rw [nothing]
      exact ⟨same.placed placed, same.attended attended⟩
    | stepped here sound _ acts turned =>
      obtain ⟨leave, woken, started, joins, shifts, passes⟩ := acts.passes sound
      rw [here] at rostered placed attended booked turned
      exact ⟨turned.placed rostered sound acts shifts passes placed,
        turned.attended rostered sound acts shifts passes booked placed attended⟩
    | stopped _ ended => exact absurd hactive ended

end ChannelMachine.Run

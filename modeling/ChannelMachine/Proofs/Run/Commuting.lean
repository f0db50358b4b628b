import ChannelMachine.Proofs.Machine.Crossing
import ChannelMachine.Proofs.Machine.Deferring
import ChannelMachine.Proofs.Run.Isolation

/-!
# Independent turns commute

Between two instructions of a run any thread may have the next turn, whatever the scheduler would choose.
If two threads are independent, it makes no difference which of them is first: each of them gets the same
from its turn, the same is printed, and the machines in the end are `Congruent`.

The effects are the same in both orders because neither thread writes what the other one reads
(`Machine.Settled.effect?_deferred`).  So they make up a square (`Machine.Settled.square`).
-/

namespace ChannelMachine

open Heap (Pairing)

namespace Machine

variable {program : Program} {m k x y : Machine} {t u : ThreadId} {e e' : Effect} {f : Nat → Address}

/-! ## Squares of independent threads -/

/-- What an instruction does has to do with live nodes. -/
theorem Settled.locals (hm : m.Settled) (hresume : m.resume t = some x)
    (handles : Handles x (x.instruction program) e) : Local m e := by
  have hlive := live_resume hm.toAtRest hresume
  have hqueue : ∀ p, x.queue p = m.queue p := by
    obtain ⟨r, -, rfl⟩ := of_resume hresume
    exact fun p => queue_congr rfl rfl p
  refine {
    made := handles.made
    kind := fun a kind hk => ?_
    leave := fun p hp => (hlive _).1 (live_of_worksAt (handles.leave p hp))
    joins := fun p hp => (hlive _).1 (live_of_worksAt (handles.joins p hp))
    woken := fun s hs => ?_ }
  · exact (hlive a).1 (Sound.live_stack (mem_of_channel? (handles.kind a kind hk).1))
  · obtain ⟨p, -, hmem⟩ := handles.woken s hs
    exact hm.queued p s (hqueue p ▸ hmem)

/-- The instructions of independent threads do not get into each other's way. -/
theorem Settled.clear (hm : m.Settled) (hresume : m.resume t = some x) (hresume' : m.resume u = some y)
    (independent : Independent program x y) (handles : Handles x (x.instruction program) e)
    (handles' : Handles y (y.instruction program) e') : Clear e e' where
  writes := by
    intro a i ⟨w, hw⟩ ⟨w', hw'⟩
    exact hm.writes_apart hresume hresume' independent (handles.writes a i w hw)
      (handles'.writes a i w' hw')
  kind := fun a _ _ hk hk' => independent.channel a (handles.kind a _ hk).1 (handles'.kind a _ hk').1
  leave := by
    intro p hp
    by_contra hp'
    exact independent.places (hp.elim (handles.leave p) (handles.joins p)) (handles'.leave p hp')
  joins := fun p hp hp' =>
    independent.places (hp.elim (handles.leave p) (handles.joins p)) (handles'.joins p hp')
  printed := by
    by_contra hnot
    obtain ⟨hp, hp'⟩ := not_or.1 hnot
    exact Bool.noConfusion ((handles'.printed hp').symm.trans (independent.output (handles.printed hp)))

/-- A turn after the turn of an independent thread has the effect that it had before. -/
theorem Settled.turned_later (hm : m.Settled) (hresume : m.resume t = some x)
    (hresume' : m.resume u = some y) (independent : Independent program x y) (htu : t ≠ u)
    (handles : Handles x (x.instruction program) e) (turned : Turned m k t e f)
    (heffect : y.effect? program = some e') {turn : Turn} (hturn : k.turn? program u = some turn) :
    ∃ f', turn.progress = e'.progress ∧
      turn.ready = e'.woken ++ (e'.started.toList.map fun _ => k.nextThread) ∧
      Turned k turn.machine u e' f' := by
  have hbound : u ≠ k.nextThread := by
    obtain ⟨r, hr, -⟩ := of_resume hresume'
    rw [turned.nextThread]
    exact Nat.ne_of_lt (Nat.lt_of_lt_of_le (hm.thread u r hr) (Nat.le_add_right _ _))
  obtain ⟨z, e'', f', hz, -, hz', hprogress, hready, turned'⟩ :=
    turned_of_turn? turned.rest hbound turned.runnable hturn
  rw [hm.effect?_deferred hresume hresume' independent htu handles turned hz, heffect,
    Option.some.injEq] at hz'
  subst hz'
  exact ⟨f', hprogress, hready, turned'⟩

/-- Two turns come to the same in both orders: `a` and `b` are those of the first thread and of the second
one in this order, `c` and `d` those of the second thread and of the first one in the other order.  Threads
below `n` were there before. -/
structure Commute (n : ThreadId) (ρ : Pairing) (σ : Equiv.Perm ThreadId) (a b c d : Turn) : Prop where
  /-- The threads that were there keep their numbers. -/
  numbers : ∀ x < n, σ x = x
  /-- What its instruction means for the first thread. -/
  first : d.progress = a.progress
  /-- What its instruction means for the second thread. -/
  second : c.progress = b.progress
  /-- The threads that the first one starts or wakes. -/
  firstReady : d.ready = a.ready.map σ
  /-- The threads that the second one starts or wakes. -/
  secondReady : c.ready = b.ready.map σ
  /-- The machines in the end. -/
  machines : Congruent ρ σ b.machine d.machine

/-- The turns of independent threads come to the same in both orders. -/
theorem Settled.commute (hm : m.Settled) (htu : t ≠ u) (hresume : m.resume t = some x)
    (hresume' : m.resume u = some y) (independent : Independent program x y) {a b c d : Turn}
    (ha : m.turn? program t = some a) (hb : a.machine.turn? program u = some b)
    (hc : m.turn? program u = some c) (hd : c.machine.turn? program t = some d) :
    ∃ ρ σ, Commute m.nextThread ρ σ a b c d := by
  obtain ⟨x', e, f, hx, hsound, he, hafirst, haready, left⟩ :=
    turned_of_turn? hm.toAtRest (hm.ne_next hresume) hm.runnable ha
  obtain ⟨y', e', g', hy, hsound', he', hcfirst, hcready, right⟩ :=
    turned_of_turn? hm.toAtRest (hm.ne_next hresume') hm.runnable hc
  obtain rfl := Option.some.inj (hx.symm.trans hresume)
  obtain rfl := Option.some.inj (hy.symm.trans hresume')
  have handles : Handles x' (x'.instruction program) e := hsound.handles he
  have handles' : Handles y' (y'.instruction program) e' := hsound'.handles he'
  obtain ⟨f', hbsecond, hbready, left'⟩ :=
    hm.turned_later hresume hresume' independent htu handles left he' hb
  obtain ⟨g, hdsecond, hdready, right'⟩ :=
    hm.turned_later hresume' hresume independent.symm htu.symm handles' right he hd
  have hlt : ∀ {s : ThreadId} {z : Machine}, m.resume s = some z → s < m.nextThread := by
    intro s z hz
    obtain ⟨r, hr, -⟩ := of_resume hz
    exact hm.thread s r hr
  have square : Square m a.machine c.machine b.machine d.machine t u e e' f f' g g' := {
    rest := hm.toAtRest
    ne := htu
    bound := ⟨hlt hresume, hlt hresume'⟩
    queued := hm.queued
    left, left', right, right'
    locals := hm.locals hresume handles
    locals' := hm.locals hresume' handles'
    clear := hm.clear hresume hresume' independent handles handles' }
  exact ⟨square.ends, square.numbers, {
    numbers := fun _ => square.numbers_of_lt
    first := hdsecond.trans hafirst.symm
    second := hcfirst.trans hbsecond.symm
    firstReady := by
      rw [hdready, haready]
      exact square.ready_first
    secondReady := by
      rw [hcready, hbready]
      exact square.ready_second
    machines := square.congruent }⟩

end Machine

namespace Run

variable {program : Program} {run : Run} {n : Nat}

/-! ## Runs -/

/-- The machine between two instructions of a run, when the running thread has gone back into the table. -/
def resting? : Run → Option Machine
  | running m _ _ => some m.suspend
  | idle m _ => some m
  | ended _ _ => none

/-- Before a thread runs and after it has gone back into the table, all is the same but who has the
registers. -/
theorem Sound.of_resting? {m : Machine} (hrun : run.Sound) (hrest : run.resting? = some m) :
    AtRest m ∧ run.Active ∧ m.heap = run.machine.heap ∧ m.nextThread = run.machine.nextThread ∧
      m.runnable = run.machine.runnable ∧ (∀ t : ThreadId, m.threads[t]? = run.thread? t) ∧
      ∀ p, m.queue p = run.queue p := by
  cases run with
  | running k s left =>
    have hk : k.Sound := hrun
    obtain rfl := Option.some.inj hrest
    exact ⟨hk.suspend, Option.some_ne_none s, rfl, rfl, rfl,
      fun t => Machine.getElem?_insert_thread k.threads k.current t k.registers,
      fun p => Machine.queue_congr rfl rfl p⟩
  | idle k s =>
    obtain rfl := Option.some.inj hrest
    exact ⟨hrun, Option.some_ne_none s, rfl, rfl, rfl, fun _ => rfl, fun _ => rfl⟩
  | ended => cases hrest

/-- Between instructions all is in order. -/
theorem Fresh.settled (fresh : run.Fresh) (program : Program) (n : Nat) {m : Machine}
    (hrest : (run.after program n).resting? = some m) : m.Settled := by
  obtain ⟨rest, hactive, hheap, hnext, hrunnable, hthreads, hqueue⟩ :=
    (fresh.sound_after program n).of_resting? hrest
  have rostered := fresh.rostered_after program n
  have veiled := fresh.veiled program n hactive
  obtain ⟨s, hs⟩ := Option.ne_none_iff_exists'.1 hactive
  have roster := rostered.roster hs
  refine {
    toAtRest := rest
    hides := hheap ▸ veiled.heap
    operands := fun t r hr a ha => ?_
    distinct := hheap ▸ (fresh.counted program n hactive).distinct
    runnable := hrunnable.trans roster.runnable
    thread := fun t r hr => ?_
    queued := fun p t ht => ?_ }
  · rw [hheap]
    exact veiled.stack t r (hthreads t ▸ hr) a ha
  · rw [hnext]
    exact rostered.thread_lt hactive (hthreads t ▸ hr ▸ Option.some_ne_none r)
  · have hmem : t ∈ (run.after program n).queue p := hqueue p ▸ ht
    rw [hnext]
    rcases roster.queued p t hmem with hblocked | ⟨hnone, -⟩
    · exact roster.bound t (.inr (.inl hblocked))
    · cases hnone

/-- For whatever program, at whatever point of a run, and in whatever way threads have had turns since: if
two threads are independent, and if neither of them fails, ends the run or exhausts the heap in either
order, then it makes no difference which of them executes its next instruction first. -/
theorem independent_turns_commute {config : Config} {start : Machine}
    (hcreate : Machine.create config standardBuiltins = .ok start) (program : Program) (n : Nat)
    {rest m x y : Machine} {t u : ThreadId}
    (hrest : ((begin start (.create config.maxQuantum config.seed)).after program n).resting? = some rest)
    (leads : rest.LeadsTo program m) (htu : t ≠ u) (hresume : m.resume t = some x) (hresume' : m.resume u = some y)
    (independent : Machine.Independent program x y) {a b c d : Machine.Turn}
    (ha : m.turn? program t = some a) (hb : a.machine.turn? program u = some b)
    (hc : m.turn? program u = some c) (hd : c.machine.turn? program t = some d) :
    ∃ ρ σ, Machine.Commute m.nextThread ρ σ a b c d :=
  (((fresh_begin hcreate).settled program n hrest).leadsTo leads).commute htu hresume hresume' independent
    ha hb hc hd

/-- The main thread starts a thread, and then each of them starts one more. -/
def doubling : Program :=
  ⟨#[.constant .undefined, .spawn 0, .spawn 0, .endThread, .spawn 0, .endThread, .endThread, .halt]⟩

/-- The new threads have each other's numbers if the second thread is first. -/
theorem independent_turns_commute_doubling : ∃ start m a b c d,
    Machine.create { heapWords := 200, seed := 7 } standardBuiltins = .ok start ∧
      ((begin start (.create 15 7)).after doubling 3).resting? = some m ∧
      m.turn? doubling 0 = some a ∧ a.machine.turn? doubling 1 = some b ∧
      m.turn? doubling 1 = some c ∧ c.machine.turn? doubling 0 = some d ∧
      (a.ready, b.ready, c.ready, d.ready) = ([2], [3], [2], [3]) ∧
      ∃ ρ σ, Machine.Commute m.nextThread ρ σ a b c d := by
  obtain ⟨start, hcreate, heq⟩ := exists_sample
  -- The run is evaluated once for all facts about it.
  have h : ((sample.after doubling 3).resting?.bind fun m =>
      (m.resume 0).bind fun x => (m.resume 1).bind fun y =>
      (m.turn? doubling 0).bind fun a => (a.machine.turn? doubling 1).bind fun b =>
      (m.turn? doubling 1).bind fun c => (c.machine.turn? doubling 0).map fun d =>
        ((x.registers.pc, y.registers.pc), a.ready, b.ready, c.ready, d.ready)) =
      some ((4, 2), [2], [3], [2], [3]) := by
    decide +kernel
  obtain ⟨m, hrest, h⟩ := Option.bind_eq_some_iff.1 h
  obtain ⟨x, hx, h⟩ := Option.bind_eq_some_iff.1 h
  obtain ⟨y, hy, h⟩ := Option.bind_eq_some_iff.1 h
  obtain ⟨a, ha, h⟩ := Option.bind_eq_some_iff.1 h
  obtain ⟨b, hb, h⟩ := Option.bind_eq_some_iff.1 h
  obtain ⟨c, hc, h⟩ := Option.bind_eq_some_iff.1 h
  obtain ⟨d, hd, h⟩ := Option.map_eq_some_iff.1 h
  obtain ⟨hpc, hready⟩ := Prod.mk.inj h
  obtain ⟨hxpc, hypc⟩ := Prod.mk.inj hpc
  -- Neither of the two works on anything, for both are about to start a thread.
  have hxi : x.instruction doubling = .spawn 0 := by
    rw [Machine.instruction, hxpc]
    rfl
  have hyi : y.instruction doubling = .spawn 0 := by
    rw [Machine.instruction, hypc]
    rfl
  have independent : Machine.Independent doubling x y := by
    refine ⟨fun _ h => ?_, fun _ h => ?_, fun _ h => ?_, fun h => ?_⟩
    all_goals
      rw [hxi] at h
      cases h
  rw [heq] at hrest
  exact ⟨start, m, a, b, c, d, hcreate, hrest, ha, hb, hc, hd, hready,
    independent_turns_commute hcreate doubling 3 hrest .refl (by decide) hx hy independent ha hb hc hd⟩

end Run

end ChannelMachine

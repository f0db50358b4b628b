import ChannelMachine.Proofs.Machine.Accounts
import ChannelMachine.Proofs.Run.History

/-!
# The ledger of a run

A run starts without channels (`Fresh`), and whatever happens to channels on the way is entered into
its ledger, step by step.  The ledger is right at all times (`Fresh.booked`): what a channel in use
holds, and which senders wait for it, is what its account says.
-/

namespace ChannelMachine

/-! ## The first state -/

/-- There is neither a channel nor a wait-group before the first instruction. -/
theorem Heap.Global.isMeeting {h : Heap} {n : Nat} (hg : Global h n) {a : Address}
    (ha : h.InUse a) : (h.tag a).isMeeting = false := by
  have hplain : ∀ t ∈ constants, t.isMeeting = false := by decide
  rcases hg.cases ha with hconst | htag | htag | ⟨_, -, hheader⟩
  · exact hplain _ hconst
  · exact congrArg Tag.isMeeting htag
  · exact congrArg Tag.isMeeting htag
  · exact congrArg (fun header : Header => header.tag.isMeeting) hheader

namespace Run

/-- A run before its first instruction: nobody waits, and there is neither a channel nor a
wait-group. -/
structure Fresh (run : Run) : Prop where
  /-- It is not over. -/
  active : run.Active
  /-- It is sound. -/
  sound : run.Sound
  /-- Its roster is in order. -/
  rostered : run.Rostered
  /-- There is no channel and no wait-group. -/
  plain : ∀ a, run.machine.heap.InUse a → (run.machine.heap.tag a).isMeeting = false
  /-- No thread waits. -/
  queue : ∀ p, run.queue p = []
  /-- No thread is asleep. -/
  asleep : ∀ t, ¬ run.Asleep t

section Whole

variable {run : Run}

theorem Fresh.sound_after (fresh : run.Fresh) (program : Program) (n : Nat) :
    (run.after program n).Sound :=
  (reaches_after program run n).sound fresh.sound

theorem Fresh.rostered_after (fresh : run.Fresh) (program : Program) (n : Nat) :
    (run.after program n).Rostered := by
  induction n with
  | zero => exact fresh.rostered
  | succ n ih => exact (ih.moves (fresh.sound_after program n) program).1

theorem Fresh.moves (fresh : run.Fresh) (program : Program) (n : Nat) :
    Moves program (run.after program n) (run.after program (n + 1)) :=
  ((fresh.rostered_after program n).moves (fresh.sound_after program n) program).2

theorem active_of_le {program : Program} {i n : Nat} (hle : i ≤ n)
    (hactive : (run.after program n).Active) : (run.after program i).Active := by
  induction n with
  | zero => exact Nat.le_zero.1 hle ▸ hactive
  | succ n ih =>
    rcases Nat.lt_or_eq_of_le hle with hlt | rfl
    · exact ih (Nat.le_of_lt_succ hlt) hactive.of_next
    · exact hactive

/-- What happens to a channel is done by an instruction. -/
theorem Fresh.stepped_of_deal (fresh : run.Fresh) {program : Program} {n : Nat} {x : Deal}
    (hx : (run.after program n).deal? program = some x) :
    ∃ m k s left p, run.after program n = running m s left ∧ m.Sound ∧
      m.Acts program k p (some x) ∧ Turned (running m s left) (run.after program (n + 1)) m k p := by
  cases fresh.moves program n with
  | dispatched nothing => rw [nothing] at hx; cases hx
  | @stepped m k s left p here sound _ acts turned =>
    rw [hx] at acts
    exact ⟨m, k, s, left, p, here, sound, acts, here ▸ turned⟩
  | stopped nothing => rw [nothing] at hx; cases hx

/-- A step that does something to a channel does not end the run. -/
theorem Fresh.active_of_deal (fresh : run.Fresh) {program : Program} {n : Nat} {x : Deal}
    (hx : (run.after program n).deal? program = some x) : (run.after program (n + 1)).Active := by
  obtain ⟨_, _, _, _, _, -, -, -, turned⟩ := fresh.stepped_of_deal hx
  exact turned.active

end Whole

/-! ## The first state -/

theorem queue_initial {m : Machine} {config : Config} {builtins : List BuiltinEntry}
    (hm : m.Initial config builtins) (p : Place) : m.queue p = [] := by
  rw [hm.eq]
  cases p with
  | channel side a => cases side <;> rfl
  | group a => rfl

theorem roster_begin {m : Machine} {config : Config} {builtins : List BuiltinEntry}
    (hm : m.Initial config builtins) (quantum : Nat) (seed : UInt64) :
    Roster m.suspend ((Scheduler.create quantum seed).makeReady m.current) none := by
  have hqueue : ∀ p, m.suspend.queue p = [] := fun p =>
    (Machine.queue_congr rfl rfl p).trans (queue_initial hm p)
  have hthreads : ∀ t : ThreadId, m.threads[t]?.isSome = false := by
    rw [hm.eq]
    simp
  have hnext : m.current < m.nextThread := by
    rw [hm.eq]
    exact Nat.lt_succ_self _
  have hs : (Scheduler.create quantum seed).makeReady m.current =
      { Scheduler.create quantum seed with ready := [m.current] } := rfl
  rw [hs]
  refine ⟨⟨by simp, List.nodup_nil, fun _ _ => List.not_mem_nil, nofun⟩, ?_, ?_, ?_, nofun, ?_,
    ?_, ?_⟩
  · rw [Machine.suspend, hm.eq]
  · intro t
    rw [Machine.suspend, Roster.isSome_insert, hthreads]
    simp [Scheduler.create]
  · intro t ht
    simp only [Scheduler.create, List.mem_singleton, List.not_mem_nil, reduceCtorEq,
      or_false] at ht
    exact ht ▸ hnext
  · intro p t ht
    rw [hqueue] at ht
    cases ht
  · intro p
    rw [hqueue]
    exact List.nodup_nil
  · intro p q t ht
    rw [hqueue] at ht
    cases ht

/-- The first state of a run of any program. -/
theorem fresh_begin {config : Config} {m : Machine}
    (hcreate : Machine.create config standardBuiltins = .ok m) :
    (begin m (.create config.maxQuantum config.seed)).Fresh := by
  have hspec := Machine.create_spec config standardBuiltins (by decide)
  rw [hcreate] at hspec
  obtain ⟨hm, -⟩ := hspec
  refine ⟨nofun, hm.sound.suspend, ⟨roster_begin hm _ _, rfl⟩, fun a ha => hm.heap.isMeeting ha,
    fun p => (Machine.queue_congr rfl rfl p).trans (queue_initial hm p), fun t => ?_⟩
  rw [begin, asleep_idle]
  exact List.not_mem_nil

/-- The first state of a run whose machine is built. -/
def ofBuilt : Except BuildFailure Machine → Run
  | .ok m => begin m (.create 15 7)
  | .error _ => .ended default .unfinished

/-- A run in a heap of twenty nodes. -/
def sample : Run := ofBuilt (Machine.create { heapWords := 200, seed := 7 } standardBuiltins)

theorem exists_sample : ∃ m,
    Machine.create { heapWords := 200, seed := 7 } standardBuiltins = .ok m ∧
      sample = begin m (.create 15 7) := by
  obtain ⟨m, hcreate⟩ := Machine.exists_create { heapWords := 200, seed := 7 } (by decide)
  exact ⟨m, hcreate, congrArg ofBuilt hcreate⟩

/-! ## The ledger -/

/-- The accounts of all channels after `n` steps. -/
def ledger (program : Program) (run : Run) : Nat → Ledger
  | 0 => fun _ => none
  | n + 1 => (run.ledger program n).enter ((run.after program n).deal? program)

theorem Sound.heap {run : Run} (hrun : run.Sound) : run.machine.heap.Sound := by
  cases run with
  | running m s left =>
    have hm : m.Sound := hrun
    exact hm.heap
  | idle m s =>
    have hm : AtRest m := hrun
    exact hm.heap
  | ended m ending => exact hrun.elim (·.heap) (·.heap)

/-- A step keeps the ledger right. -/
theorem Moves.booked {program : Program} {run run' : Run} (moves : Moves program run run')
    (hrun : run.Sound) {l : Ledger} (booked : run.machine.Booked l) :
    run'.machine.Booked (l.enter (run.deal? program)) := by
  cases moves with
  | dispatched nothing same =>
    rw [nothing]
    exact booked.congr same.heap same.queue
  | stepped here sound _ acts turned =>
    subst here
    exact (acts.booked sound booked).congr turned.heap turned.queue
  | stopped nothing _ heap queue =>
    rw [nothing]
    refine ⟨booked.fair, fun a ha htag => ?_⟩
    obtain ⟨hin, node⟩ := heap a ha (Heap.isMeeting_of_tag htag rfl)
    have same := Machine.SameChannel.of_same hin node htag
    obtain ⟨x, hx, books⟩ := booked.books a same.inUse same.tag
    exact ⟨x, hx, books.of_same hrun.heap same (queue _)⟩

/-- The ledger is right at all times. -/
theorem Fresh.booked {run : Run} (fresh : run.Fresh) (program : Program) (n : Nat) :
    (run.after program n).machine.Booked (run.ledger program n) := by
  induction n with
  | zero =>
    refine ⟨nofun, fun a ha htag => ?_⟩
    have hplain := fresh.plain a ha
    rw [show run.machine.heap.tag a = .channel from htag] at hplain
    cases hplain
  | succ n ih => exact (fresh.moves program n).booked (fresh.sound_after program n) ih

end Run

end ChannelMachine

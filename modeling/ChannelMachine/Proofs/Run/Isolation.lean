import ChannelMachine.Proofs.Machine.Hiding
import ChannelMachine.Proofs.Run.Counting

/-!
# Values do not change, and threads are isolated

An instruction changes the registers of the thread that executes it, and of the nodes that can be
reached it changes at most one variable, one channel or one counter of a wait-group (`Confined`).  A
number is never written, for the only number nodes that are written are counters, and nobody but its
wait-group has a counter.

What threads share is what they communicate through: the variables of frames, the slots of channels, and
wait-groups.
-/

namespace ChannelMachine

/-- The machine that the next instruction leaves behind, also where it ends in a fault. -/
def Machine.stepped (program : Program) (m : Machine) : Machine :=
  match m.step program with
  | .ok _ k | .error _ k => k

/-- What is ensured with a value and with a fault is ensured of the machine that is left behind. -/
theorem Machine.stepped_of_ensures {program : Program} {m : Machine} {P : Machine → Prop}
    (h : Ensures (Machine.step program) m (fun _ k => P k) fun _ k => P k) : P (m.stepped program) := by
  unfold Ensures at h
  unfold stepped
  split at h
  next heq => rw [heq]; exact h
  next heq => rw [heq]; exact h

/-- An instruction changes nothing that can be reached but what it may write. -/
theorem Machine.Sound.confined_stepped {m : Machine} (hm : m.Sound) (veiled : m.Veiled)
    (program : Program) : m.Confined program (m.stepped program) :=
  stepped_of_ensures ((hm.confined_step veiled program).mono (fun _ _ h => h.1) fun _ _ h => h)

namespace Run

variable {program : Program} {run : Run} {n : Nat}

/-- The heap hides the counters, and no operand of a thread is one. -/
structure Veiled (run : Run) : Prop where
  /-- The heap. -/
  heap : run.machine.heap.Hides
  /-- The operands. -/
  stack : ∀ t r, run.thread? t = some r → ∀ a ∈ r.stack, ¬ run.machine.heap.Counter a

/-- A value that a thread has on its stack or can take out of a variable or a channel. -/
inductive Visible (run : Run) (a : Address) : Prop where
  /-- It is an operand. -/
  | operand {t : ThreadId} {r : Registers} (thread : run.thread? t = some r) (mem : a ∈ r.stack) :
      Visible run a
  /-- It stands in a variable or in a slot that can be reached. -/
  | stored {b i : Nat} (live : run.machine.heap.Live run.machine.roots b)
      (offers : run.machine.heap.Offers b i) (word : run.machine.heap.word b i = a)
      (occupied : a ≠ vacant) : Visible run a

/-! ## One step -/

/-- Between instructions the table has the threads that do not run. -/
theorem Veiled.machine {m : Machine} {s : Scheduler} {left : Nat}
    (veiled : (running m s left).Veiled) (hrun : (running m s left).Rostered) : m.Veiled where
  heap := veiled.heap
  registers := veiled.stack m.current m.registers (if_pos rfl)
  threads := by
    intro t r hr
    refine veiled.stack t r ((if_neg ?_).trans hr)
    rintro rfl
    rw [hrun.1.table_running hrun.2] at hr
    cases hr

/-- The heap of a run after an instruction is the one that the instruction leaves behind. -/
theorem heap_tick (m : Machine) (s : Scheduler) (left : Nat) :
    (tick program m s left).machine.heap = (m.stepped program).heap := by
  unfold tick Machine.stepped
  split
  next fault k heq =>
    rw [heq]
    exact (same_note k _).1
  next p k heq =>
    rw [heq]
    cases p with
    | advanced =>
      rw [proceed]
      split
      next => split <;> rfl
      next => rfl
    | blocked => exact (same_noteAll _ _).1
    | exited => exact (same_noteAll _ _).1
    | finished => rfl
    | spinning => rfl

/-- Choosing a thread does not change the heap. -/
theorem heap_dispatch (m : Machine) (s : Scheduler) : (dispatch m s).machine.heap = m.heap := by
  unfold dispatch
  split
  next => exact (same_note _ _).1
  next t s' _ =>
    dsimp only
    split
    next => exact (same_note _ _).1.trans (same_note _ _).1
    next k hresume =>
      unfold Machine.resume at hresume
      split at hresume
      next => cases hresume
      next =>
        obtain rfl := Option.some.inj hresume
        exact (same_note m _).1

/-- Whoever waits or is ready is not affected by an instruction of another thread. -/
theorem Rostered.threads_stepped {m : Machine} {s : Scheduler} {left : Nat}
    (hrun : (running m s left).Rostered) (hm : m.Sound) {t : ThreadId} {r : Registers}
    (hr : m.threads[t]? = some r) : (m.stepped program).threads[t]? = some r := by
  have hne : t ≠ m.nextThread := by
    rintro rfl
    rw [hrun.1.table_next] at hr
    cases hr
  refine Machine.stepped_of_ensures (P := fun k => k.threads[t]? = some r)
    ((hm.does_step program).mono (fun p k acts => ?_) fun e k h => ?_)
  · obtain ⟨leave, woken, started, joins, shifts, -⟩ := acts.passes hm
    rw [shifts.threads_eq hne, hr]
  · rw [h.2.threads, hr]

/-! ## All steps -/

/-- No thread ever gets hold of a counter. -/
theorem Fresh.veiled (fresh : run.Fresh) (program : Program) (n : Nat)
    (hactive : (run.after program n).Active) : (run.after program n).Veiled := by
  induction n with
  | zero =>
    -- There is no wait-group yet.
    have hnone : ∀ c, ¬ run.machine.heap.Counter c := by
      rintro c ⟨g, hg, htag, -⟩
      have hplain := fresh.plain g hg
      rw [htag] at hplain
      cases hplain
    exact ⟨⟨fun _ _ _ _ => hnone _, fun c hc => absurd hc (hnone c)⟩, fun _ _ _ _ _ => hnone _⟩
  | succ n ih =>
    have veiled := ih hactive.of_next
    have rostered := fresh.rostered_after program n
    cases fresh.moves program n with
    | dispatched _ same =>
      refine ⟨same.heap.symm ▸ veiled.heap, fun t r hr => ?_⟩
      rw [same.heap]
      exact veiled.stack t r (same.thread t ▸ hr)
    | stopped _ ended => exact absurd hactive ended
    | @stepped m k s left p here hm hstep acts turned =>
      rw [here] at veiled rostered
      have hk : k.Veiled := ((hm.confined_step (veiled.machine rostered) program).of_ok hstep).2
      refine ⟨turned.heap.symm ▸ hk.heap, fun t r hr => ?_⟩
      rw [turned.heap]
      by_cases ht : t = m.current
      · rw [ht, turned.self] at hr
        split at hr
        next => cases hr
        next =>
          obtain rfl := Option.some.inj hr
          exact hk.registers
      · rw [turned.other t ht] at hr
        exact hk.threads t r hr

/-- The roots of a run are in use, and nothing is being built. -/
theorem Sound.inUse_root (hrun : run.Sound) :
    (∀ a ∈ run.machine.roots, run.machine.heap.InUse a) ∧ run.machine.heap.building = [] := by
  have hsound : ∀ m : Machine, m.Sound → (∀ a ∈ m.roots, m.heap.InUse a) ∧ m.heap.building = [] :=
    fun m hm => ⟨hm.inUse_root, hm.building⟩
  have hrest : ∀ m : Machine, AtRest m → (∀ a ∈ m.roots, m.heap.InUse a) ∧ m.heap.building = [] :=
    fun m hm => ⟨hm.inUse_root, hm.building⟩
  cases run with
  | running m s left => exact hsound m hrun
  | idle m s => exact hrest m hrun
  | ended m ending => exact hrun.elim (hsound m) (hrest m)

/-- A thread uses a number as an operand only. -/
theorem Sound.mem_stack (hrun : run.Sound) (rostered : run.Rostered) (hactive : run.Active)
    {a : Address} (ha : a ∈ run.machine.roots) (htag : run.machine.heap.tag a = .number) :
    ∃ t r, run.thread? t = some r ∧ a ∈ r.stack := by
  have hstack : ∀ {r : Registers}, r.Sound run.machine.heap → a ∈ r.roots → a ∈ r.stack := by
    intro r hr hroot
    rcases Registers.mem_roots.1 hroot with hmem | rfl | hframe
    · exact hmem
    · rw [hr.tag] at htag
      cases htag
    · rcases (hr.frames a hframe).2 with h | h <;> rw [htag] at h <;> cases h
  cases run with
  | running m s left =>
    have hm : m.Sound := hrun
    rcases mem_threadRoots.1 ha with hroot | ⟨t, r, hr, hroot⟩
    · exact ⟨m.current, m.registers, if_pos rfl, hstack hm.registers hroot⟩
    · refine ⟨t, r, (if_neg ?_).trans hr, hstack (hm.threads t r hr) hroot⟩
      rintro rfl
      exact absurd (rostered.1.table_running rostered.2) (hr ▸ Option.some_ne_none r)
  | idle m s =>
    have hm : AtRest m := hrun
    rcases mem_threadRoots.1 ha with hroot | ⟨t, r, hr, hroot⟩
    · -- Where no thread runs, the registers hold nothing but the undefined value.
      replace hroot : a ∈ m.registers.roots := hroot
      rw [hm.idle] at hroot
      obtain rfl : a = Heap.undefined := List.mem_singleton.1 hroot
      exact absurd (hm.heap.tag_undefined.symm.trans htag) (by decide)
    · exact ⟨t, r, hr, hstack (hm.threads t r hr) hroot⟩
  | ended m ending => exact absurd rfl hactive

/-! ## Counters -/

/-- The counter of a wait-group is reached through the wait-group only. -/
structure Encloses (run : Run) (g : Address) : Prop where
  /-- No thread uses it. -/
  root : run.machine.heap.word g 1 ∉ run.machine.roots
  /-- It is not being built. -/
  building : run.machine.heap.word g 1 ∉ run.machine.heap.building
  /-- It is not permanent. -/
  permanent : run.machine.heap.bottom ≤ run.machine.heap.word g 1
  /-- No other node that can be reached has it as a child. -/
  parent : ∀ b, run.machine.heap.Live run.machine.roots b →
    run.machine.heap.word g 1 ∈ Heap.children run.machine.heap.words b → b = g

/-- All that shares a counter with a wait-group is the wait-group. -/
theorem Fresh.encloses {g : Address} (fresh : run.Fresh) (hactive : (run.after program n).Active)
    (hlive : (run.after program n).machine.heap.Live (run.after program n).machine.roots g)
    (htag : (run.after program n).machine.heap.tag g = .waitGroup) :
    (run.after program n).Encloses g := by
  have sound := fresh.sound_after program n
  have veiled := fresh.veiled program n hactive
  obtain ⟨hroots, hbuilding⟩ := sound.inUse_root
  have hin := sound.heap.inUse_of_live hroots hlive
  have hcounter : (run.after program n).machine.heap.Counter
      ((run.after program n).machine.heap.word g 1) := ⟨g, hin, htag, rfl⟩
  refine {
    root := fun hroot => ?_
    building := by rw [hbuilding]; exact List.not_mem_nil
    permanent := veiled.heap.bottom _ hcounter
    parent := fun b hb => veiled.heap.eq_of_mem_children sound.heap
      (fresh.counted program n hactive).distinct hin htag (sound.heap.inUse_of_live hroots hb) }
  obtain ⟨t, r, hr, hmem⟩ := sound.mem_stack (fresh.rostered_after program n) hactive hroot
    (sound.heap.counter hin htag).2
  exact veiled.stack t r hr _ hmem hcounter

/-! ## Numbers -/

/-- What threads have in their registers are roots. -/
theorem mem_roots_of_registers {t : ThreadId} {r : Registers} {a : Address}
    (hr : run.thread? t = some r) (hroot : a ∈ r.roots) : a ∈ run.machine.roots := by
  cases run with
  | running m s left =>
    rw [thread?] at hr
    split at hr
    next =>
      obtain rfl := Option.some.inj hr
      exact mem_threadRoots.2 (.inl hroot)
    next => exact mem_threadRoots.2 (.inr ⟨t, r, hr, hroot⟩)
  | idle m s => exact mem_threadRoots.2 (.inr ⟨t, r, hr, hroot⟩)
  | ended m ending => exact mem_threadRoots.2 (.inr ⟨t, r, hr, hroot⟩)

/-- So are their operands. -/
theorem mem_roots_of_thread {t : ThreadId} {r : Registers} {a : Address}
    (hr : run.thread? t = some r) (ha : a ∈ r.stack) : a ∈ run.machine.roots :=
  mem_roots_of_registers hr (Registers.mem_roots.2 (.inl ha))

/-- A value that a thread can get is live. -/
theorem Visible.live {a : Address} (visible : run.Visible a) (hrun : run.Sound) :
    run.machine.heap.Live run.machine.roots a := by
  cases visible with
  | operand thread mem => exact .root (mem_roots_of_thread thread mem)
  | @stored b i live offers word occupied =>
    have hin := hrun.heap.inUse_of_live hrun.inUse_root.1 live
    have hnode := hrun.heap.typed b hin
    rcases hnode.child i offers.first offers.last with ⟨-, hvacant⟩ | ⟨hchild, -⟩
    · exact absurd (word.symm.trans hvacant) occupied
    · exact .child live (word ▸ Heap.mem_children_of_inUse hrun.heap.toIntact hnode hin.toIsBlock
        offers.first offers.last hchild)

/-- A value that a thread can get is no counter. -/
theorem Veiled.not_counter {a : Address} (veiled : run.Veiled) (hrun : run.Sound)
    (visible : run.Visible a) : ¬ run.machine.heap.Counter a := by
  cases visible with
  | operand thread mem => exact veiled.stack _ _ thread a mem
  | stored live offers word _ =>
    exact word ▸ veiled.heap.slot _ _ (hrun.heap.inUse_of_live hrun.inUse_root.1 live) offers

/-- A number that a thread can get stays what it is. -/
theorem Fresh.number?_succ {a : Address} {x : Number} (fresh : run.Fresh)
    (visible : (run.after program n).Visible a)
    (hnumber : (run.after program n).machine.heap.number? a = some x) :
    (run.after program (n + 1)).machine.heap.number? a = some x := by
  have sound := fresh.sound_after program n
  have rostered := fresh.rostered_after program n
  have veiled := fresh.veiled program n
  have hnext : run.after program (n + 1) = (run.after program n).next program := rfl
  rw [hnext]
  cases hrun : run.after program n with
  | running m s left =>
    rw [hrun] at sound rostered veiled visible hnumber
    replace veiled := veiled nofun
    have hm : m.Sound := sound
    have confined := hm.confined_stepped (veiled.machine rostered) program
    rw [next, heap_tick]
    exact confined.number? hm (visible.live sound) (veiled.not_counter sound visible) hnumber
  | idle m s =>
    rw [hrun] at hnumber
    rw [next, heap_dispatch]
    exact hnumber
  | ended m ending =>
    rw [hrun] at hnumber
    exact hnumber

/-! ## Isolation -/

/-- Values do not change and threads are isolated, for a run from its start. -/
structure Isolates (program : Program) (run : Run) : Prop where
  /-- An instruction leaves the registers of all other threads as they are. -/
  threads : ∀ n m s left, run.after program n = running m s left →
    ∀ (t : ThreadId) (r : Registers), m.threads[t]? = some r → (m.stepped program).threads[t]? = some r
  /-- It changes nothing that can be reached but what it may write. -/
  nodes : ∀ n m s left, run.after program n = running m s left →
    m.Confined program (m.stepped program)
  /-- A counter is reached through its wait-group only. -/
  counters : ∀ n g, (run.after program n).Active →
    (run.after program n).machine.heap.Live (run.after program n).machine.roots g →
    (run.after program n).machine.heap.tag g = .waitGroup → (run.after program n).Encloses g
  /-- A number that a thread can get stays what it is. -/
  numbers : ∀ n a x, (run.after program n).Visible a →
    (run.after program n).machine.heap.number? a = some x →
    (run.after program (n + 1)).machine.heap.number? a = some x

/-- Whatever the program, no value changes, and threads share nothing but variables, channels and
wait-groups. -/
theorem isolates {config : Config} {m : Machine}
    (hcreate : Machine.create config standardBuiltins = .ok m) (program : Program) :
    Isolates program (begin m (.create config.maxQuantum config.seed)) := by
  have fresh := fresh_begin hcreate
  refine {
    threads := fun n m s left hrun t r hr => ?_
    nodes := fun n m s left hrun => ?_
    counters := fun n g hactive => fresh.encloses hactive
    numbers := fun n a x => fresh.number?_succ }
  all_goals
    have sound := fresh.sound_after program n
    have rostered := fresh.rostered_after program n
    have veiled := fresh.veiled program n
    rw [hrun] at sound rostered veiled
    have hm : m.Sound := sound
  · exact rostered.threads_stepped hm hr
  · exact hm.confined_stepped ((veiled nofun).machine rostered) program

/-- A thread counts down while the main thread waits for it: the main thread keeps its registers, and the
counter that is written belongs to the wait-group. -/
theorem isolates_waking : ∃ m,
    Machine.create { heapWords := 200, seed := 7 } standardBuiltins = .ok m ∧
      ((begin m (.create 15 7)).after waking 10).Encloses 150 ∧
      ∃ k s left r, (begin m (.create 15 7)).after waking 10 = running k s left ∧
        waking.at? k.registers.pc = some .groupDone ∧ k.threads[mainThread]? = some r ∧
        (k.stepped waking).threads[mainThread]? = some r := by
  obtain ⟨m, hcreate, heq⟩ := exists_sample
  obtain ⟨⟨k, s, left, hrun, hcurrent, hpc⟩, hstack, htag⟩ :
      (sample.after waking 10).ExecutesAt 1 6 ∧
      ((sample.after waking 10).thread? mainThread).map (·.stack) = some [150, 40, 40] ∧
      (sample.after waking 10).machine.heap.tag 150 = .waitGroup := by
    decide +kernel
  obtain ⟨r, hr, hstack⟩ := Option.map_eq_some_iff.1 hstack
  have hlive : (sample.after waking 10).machine.heap.Live (sample.after waking 10).machine.roots 150 :=
    .root (mem_roots_of_thread hr (by rw [hstack]; exact List.mem_cons_self))
  have hactive : (sample.after waking 10).Active := by rw [hrun]; exact nofun
  rw [hrun, thread?, if_neg (by rw [hcurrent]; decide)] at hr
  rw [heq] at hactive hlive htag hrun
  have h := isolates hcreate waking
  exact ⟨m, hcreate, h.counters 10 150 hactive hlive htag, k, s, left, r, hrun, by rw [hpc]; rfl, hr,
    h.threads 10 k s left hrun mainThread r hr⟩

end Run

end ChannelMachine

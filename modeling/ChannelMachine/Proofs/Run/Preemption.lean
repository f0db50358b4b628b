import ChannelMachine.Proofs.Run.Scheduling
import ChannelMachine.Proofs.Run.Threads

/-!
# Preemption

A thread that is chosen gets a slice: it executes instructions until it waits, ends, or is preempted.
A slice consists of quanta, whose lengths are drawn one after the other (`Scheduler.quantum`), and
`Scheduler.boundary` says after how many instructions each of them ends.

A thread is preempted at the first of these boundaries at which another thread is ready.  At the others
it gets a fresh quantum, so that the instructions left in it are never fewer than one
(`preempts_at_boundary`).
-/

namespace ChannelMachine

namespace Scheduler

/-- The scheduler after some quanta were drawn. -/
def drawn (s : Scheduler) : Nat → Scheduler
  | 0 => s
  | i + 1 => (s.drawn i).draw.2

/-- The quanta that are drawn one after the other. -/
def quantum (s : Scheduler) (i : Nat) : Nat := (s.drawn i).draw.1

/-- How many instructions there are in the first quanta. -/
def boundary (s : Scheduler) : Nat → Nat
  | 0 => 0
  | i + 1 => s.boundary i + s.quantum i

/-- Both draw the same quanta. -/
structure SameDraws (s s' : Scheduler) : Prop where
  /-- The generator. -/
  random : s.random = s'.random
  /-- The most instructions of a quantum. -/
  maxQuantum : s.maxQuantum = s'.maxQuantum

variable {s s' : Scheduler}

theorem maxQuantum_draw (s : Scheduler) : s.draw.2.maxQuantum = s.maxQuantum := by
  obtain ⟨random, heq⟩ := s.exists_draw
  rw [heq]

theorem SameDraws.draw (same : s.SameDraws s') :
    s.draw.1 = s'.draw.1 ∧ s.draw.2.SameDraws s'.draw.2 := by
  obtain ⟨ready, blocked, running, random, max⟩ := s
  obtain ⟨ready', blocked', running', random', max'⟩ := s'
  obtain ⟨hrandom, hmax⟩ := same
  dsimp only at hrandom hmax
  subst hrandom hmax
  simp only [Scheduler.draw]
  -- The number that is drawn becomes a variable, or else it would be computed.
  generalize random.between _ _ = drawn
  exact ⟨trivial, rfl, rfl⟩

theorem maxQuantum_drawn (s : Scheduler) (i : Nat) : (s.drawn i).maxQuantum = s.maxQuantum := by
  induction i with
  | zero => rfl
  | succ i ih => exact (maxQuantum_draw _).trans ih

/-- A quantum is drawn from the upper half of what is allowed. -/
theorem le_quantum (s : Scheduler) (i : Nat) : (s.maxQuantum + 1) / 2 ≤ s.quantum i := by
  have hle := (s.drawn i).le_draw
  rwa [maxQuantum_drawn] at hle

theorem quantum_le (hpos : 0 < s.maxQuantum) (i : Nat) : s.quantum i ≤ s.maxQuantum := by
  have hle := (s.drawn i).draw_le (by rwa [maxQuantum_drawn])
  rwa [maxQuantum_drawn] at hle

theorem quantum_pos (hpos : 0 < s.maxQuantum) (i : Nat) : 0 < s.quantum i := by
  have hle := s.le_quantum i
  omega

theorem boundary_lt (hpos : 0 < s.maxQuantum) {i j : Nat} (hlt : i < j) :
    s.boundary i < s.boundary j := by
  induction hlt with
  | refl => exact Nat.lt_add_of_pos_right (quantum_pos hpos i)
  | @step j _ ih => exact Nat.lt_of_lt_of_le ih (Nat.le_add_right _ _)

/-- Boundaries are apart: what lies between two of them is none. -/
theorem eq_of_boundary (hpos : 0 < s.maxQuantum) {i j k : Nat} (hle : s.boundary i ≤ k)
    (hlt : k < s.boundary j) (hend : s.boundary j ≤ s.boundary (i + 1)) : j = i + 1 := by
  rcases Nat.lt_trichotomy j (i + 1) with h | h | h
  · have hji : s.boundary j ≤ s.boundary i := by
      rcases Nat.lt_or_eq_of_le (Nat.lt_succ_iff.1 h) with h | rfl
      · exact Nat.le_of_lt (boundary_lt hpos h)
      · exact Nat.le_refl _
    omega
  · exact h
  · exact absurd (boundary_lt hpos h) (Nat.not_lt.2 hend)

theorem sameDraws_makeReady (s : Scheduler) (t : ThreadId) : (s.makeReady t).SameDraws s := by
  unfold makeReady
  split
  next => exact ⟨rfl, rfl⟩
  next => exact ⟨rfl, rfl⟩

/-- A call leaves the most instructions of a quantum as they are. -/
theorem maxQuantum_perform (s : Scheduler) (c : Call) : (s.perform c).maxQuantum = s.maxQuantum := by
  cases c with
  | makeReady t => exact (s.sameDraws_makeReady t).maxQuantum
  | next =>
    obtain ⟨-, heq⟩ | ⟨t, hnext⟩ := s.choose_cases
    · exact (congrArg maxQuantum heq :)
    · obtain ⟨-, -, hnext'⟩ | ⟨-, -, hnext'⟩ | ⟨u, rest, -, hnext'⟩ := s.next_eq
      · cases hnext.symm.trans hnext'
      · cases hnext.symm.trans hnext'
      · exact (congrArg (fun x => x.2.maxQuantum) (Except.ok.inj (hnext.symm.trans hnext')) :)
  | suspend =>
    obtain ⟨-, heq⟩ | ⟨t, -, heq⟩ := s.suspend_cases
    all_goals exact (congrArg maxQuantum heq :)
  | block =>
    obtain ⟨-, heq⟩ | ⟨t, -, heq⟩ := s.block_cases
    all_goals exact (congrArg maxQuantum heq :)
  | kill => rfl
  | draw => exact s.maxQuantum_draw

theorem Leads.maxQuantum (leads : s.Leads s') : s'.maxQuantum = s.maxQuantum := by
  obtain ⟨calls, -, rfl⟩ := leads
  induction calls using List.reverseRecOn with
  | nil => rfl
  | append_singleton calls c ih => rw [after_concat, maxQuantum_perform, ih]

/-- Making threads ready draws nothing. -/
theorem sameDraws_makeAllReady (s : Scheduler) (ts : List ThreadId) : (s.makeAllReady ts).SameDraws s := by
  induction ts generalizing s with
  | nil => exact ⟨rfl, rfl⟩
  | cons t rest ih =>
    obtain ⟨hrandom, hmax⟩ := ih (s.makeReady t)
    have hmake := s.sameDraws_makeReady t
    exact ⟨hrandom.trans hmake.random, hmax.trans hmake.maxQuantum⟩

end Scheduler

namespace Run

/-! ## Slices -/

/-- The next step executes an instruction, and the thread goes on.  (A search that never ends is no such
instruction: it is never over.) -/
def Advances (program : Program) (run : Run) : Prop :=
  ∃ m s left m', run = running m s left ∧ m.step program = .ok .advanced m'

instance (program : Program) (run : Run) : Decidable (run.Advances program) :=
  match run with
  | running m s left =>
      match hstep : m.step program with
      | .ok .advanced m' => isTrue ⟨m, s, left, m', rfl, hstep⟩
      | .ok .blocked _ | .ok .exited _ | .ok (.finished _) _ | .ok .spinning _ | .error _ _ =>
          isFalse fun ⟨_, _, _, _, heq, h⟩ => by cases heq; cases hstep.symm.trans h
  | idle _ _ | ended _ _ => isFalse fun ⟨_, _, _, _, heq, _⟩ => nomatch heq

/-- The thread that was chosen in step `n` has executed `k` instructions. -/
def Executed (program : Program) (run : Run) (n k : Nat) : Prop :=
  ∀ i < k, (run.after program (n + 1 + i)).Advances program

instance (program : Program) (run : Run) (n k : Nat) : Decidable (run.Executed program n k) :=
  inferInstanceAs (Decidable (∀ i < k, (run.after program (n + 1 + i)).Advances program))

/-- Behind the last of its `k` instructions another thread is ready. -/
def OtherReady (program : Program) (run : Run) (n k : Nat) : Prop :=
  ∃ i m s left m', k = i + 1 ∧ run.after program (n + 1 + i) = running m s left ∧
    m.step program = .ok .advanced m' ∧ ∃ t ∈ (s.makeAllReady m'.runnable).ready, t ≠ m.current

/-- It is preempted behind the last of its `k` instructions. -/
def Expires (program : Program) (run : Run) (n k : Nat) : Prop :=
  run.Executed program n k ∧ ∃ m s, run.after program (n + 1 + k) = idle m s

instance (program : Program) (run : Run) (n k : Nat) : Decidable (run.Expires program n k) :=
  haveI : Decidable (∃ m s, run.after program (n + 1 + k) = idle m s) :=
    match run.after program (n + 1 + k) with
    | idle m s => isTrue ⟨m, s, rfl⟩
    | running _ _ _ | ended _ _ => isFalse fun ⟨_, _, heq⟩ => nomatch heq
  inferInstanceAs (Decidable (_ ∧ _))

/-- What holds of the slice of a thread that is chosen in step `n` and leaves the scheduler in a state
`s`. -/
structure KeepsQuanta (program : Program) (run : Run) (most n : Nat) (s : Scheduler) : Prop where
  /-- Each quantum has at least half of the most instructions, and not more than those. -/
  quanta : ∀ i, (most + 1) / 2 ≤ s.quantum i ∧ s.quantum i ≤ most
  /-- The thread is in one of the quanta, and at least one instruction of it is left. -/
  countdown : ∀ k m s' left, run.Executed program n k →
    run.after program (n + 1 + k) = running m s' left →
    ∃ i, s.boundary i ≤ k ∧ k + left = s.boundary (i + 1) ∧ 0 < left
  /-- The thread is preempted at the first boundary at which another one is ready, and at no other
  time. -/
  expires : ∀ k, run.Expires program n k ↔ run.Executed program n k ∧ run.OtherReady program n k ∧
    ∃ i, k = s.boundary (i + 1) ∧ ∀ j < i, ¬ run.OtherReady program n (s.boundary (j + 1))
  /-- A quantum is cut short if an instruction blocks, if it ends the thread or the run, or if it
  fails, and by nothing else. -/
  cut : ∀ k m s' left, run.Executed program n k → run.after program (n + 1 + k) = running m s' left →
    (∀ m' s'' left', run.after program (n + 1 + k + 1) ≠ running m' s'' left') →
    run.Expires program n (k + 1) ∨
    (∃ m', m.step program = .ok .blocked m' ∨ m.step program = .ok .exited m' ∨
      ∃ v, m.step program = .ok (.finished v) m') ∨
    ∃ e m', m.step program = .error e m'

/-! ## One instruction -/

section Instruction

variable {program : Program} {run : Run} {n k left : Nat} {m m' : Machine} {s s₀ : Scheduler}

theorem Executed.succ (executed : run.Executed program n k)
    (hrun : run.after program (n + 1 + k) = running m s left)
    (hstep : m.step program = .ok .advanced m') : run.Executed program n (k + 1) := by
  intro i hi
  rcases Nat.lt_or_eq_of_le (Nat.lt_succ_iff.1 hi) with hlt | rfl
  · exact executed i hlt
  · exact ⟨m, s, left, m', hrun, hstep⟩

theorem Executed.of_le {j : Nat} (executed : run.Executed program n k) (hle : j ≤ k) :
    run.Executed program n j :=
  fun i hi => executed i (Nat.lt_of_lt_of_le hi hle)

theorem hasReady_iff : s.hasReady = true ↔ s.ready ≠ [] := by
  cases hready : s.ready <;> simp [Scheduler.hasReady, hready]

/-- An instruction that advances counts down.  At the end of a quantum the thread is preempted if
another one is ready, and gets a new quantum if not. -/
theorem tick_advanced (s : Scheduler) (left : Nat) (hstep : m.step program = .ok .advanced m') :
    (left ≤ 1 ∧ (s.makeAllReady m'.runnable).ready ≠ [] ∧ ∃ k s', tick program m s left = idle k s') ∨
    (left ≤ 1 ∧ (s.makeAllReady m'.runnable).ready = [] ∧ ∃ k, tick program m s left =
      running k (s.makeAllReady m'.runnable).draw.2 (s.makeAllReady m'.runnable).draw.1) ∨
    (2 ≤ left ∧ ∃ k, tick program m s left = running k (s.makeAllReady m'.runnable) (left - 1)) := by
  have htick : ∃ k : Machine,
      tick program m s left = proceed k (s.makeAllReady m'.runnable) left .advanced :=
    ⟨{ m' with runnable := [] }, by rw [tick, hstep]; rfl⟩
  obtain ⟨k, htick⟩ := htick
  rw [htick]
  generalize s.makeAllReady m'.runnable = s'
  simp only [proceed]
  split
  next hleft =>
    by_cases hready : s'.ready = []
    · refine .inr (.inl ⟨by omega, hready, k, ?_⟩)
      rw [if_neg (hasReady_iff.not.2 (not_not_intro hready)), renew]
    · exact .inl ⟨by omega, hready, k.suspend, s'.suspend, if_pos (hasReady_iff.2 hready)⟩
  next hleft => exact .inr (.inr ⟨by omega, k, by rw [hleft]⟩)

/-- The thread is in quantum number `i` behind `k` instructions. -/
structure InQuantum (s₀ : Scheduler) (k i : Nat) (s : Scheduler) (left : Nat) : Prop where
  /-- The quanta before are over. -/
  start : s₀.boundary i ≤ k
  /-- This one is not. -/
  left : k + left = s₀.boundary (i + 1) ∧ 0 < left
  /-- The next one is still to be drawn. -/
  draws : s.SameDraws (s₀.drawn (i + 1))

/-- A new quantum. -/
theorem InQuantum.renew {i : Nat} (hpos : 0 < s₀.maxQuantum) (hk : k = s₀.boundary i)
    (draws : s.SameDraws (s₀.drawn i)) : InQuantum s₀ k i s.draw.2 s.draw.1 := by
  obtain ⟨hquantum, draws'⟩ := draws.draw
  rw [hquantum]
  exact ⟨Nat.le_of_eq hk.symm, ⟨by rw [hk]; rfl, Scheduler.quantum_pos hpos i⟩, draws'⟩

end Instruction

/-! ## Slices of a run -/

section Slice

variable {program : Program} {run : Run} {n : Nat} {m : Machine} {s s₀ : Scheduler} {t : ThreadId}

/-- At the start of a slice the first quantum is drawn. -/
theorem after_succ_of_idle (hrun : run.after program n = idle m s) (hnext : s.next = .ok (t, s₀))
    (hresume : m.resume t ≠ none) :
    ∃ k, run.after program (n + 1) = running k s₀.draw.2 s₀.draw.1 := by
  have hnote : ∃ k, (m.note (s₀.switchEvent t)).resume t = some k := by
    obtain ⟨-, hthreads, -⟩ := same_note m (s₀.switchEvent t)
    unfold Machine.resume at hresume ⊢
    rw [hthreads]
    cases hr : m.threads[t]? with
    | none =>
      rw [hr] at hresume
      exact absurd rfl hresume
    | some r => exact ⟨_, rfl⟩
  obtain ⟨k', hk'⟩ := hnote
  refine ⟨k', ?_⟩
  rw [after, hrun, next, dispatch, hnext]
  simp only [hk']
  rfl

/-- Behind each instruction of a slice the thread is in some quantum, and at the boundaries before no
other thread was ready. -/
theorem inQuantum_of_executed (hpos : 0 < s₀.maxQuantum) {first : Machine}
    (hstart : run.after program (n + 1) = running first s₀.draw.2 s₀.draw.1) {k : Nat}
    (executed : run.Executed program n k) :
    ∀ m s left, run.after program (n + 1 + k) = running m s left → ∃ i, InQuantum s₀ k i s left ∧
      ∀ j < i, ¬ run.OtherReady program n (s₀.boundary (j + 1)) := by
  induction k with
  | zero =>
    intro m s left hrun
    obtain ⟨rfl, rfl, rfl⟩ := running.inj (hstart.symm.trans hrun)
    exact ⟨0, .renew hpos rfl ⟨rfl, rfl⟩, nofun⟩
  | succ k ih =>
    intro m s left hrun
    obtain ⟨m₁, s₁, left₁, m', hrun₁, hstep⟩ := executed k (Nat.lt_succ_self k)
    obtain ⟨i, inside, hnone⟩ := ih (executed.of_le (Nat.le_succ k)) m₁ s₁ left₁ hrun₁
    have hnext : run.after program (n + 1 + (k + 1)) = tick program m₁ s₁ left₁ := by
      rw [← Nat.add_assoc, after, hrun₁, next]
    have draws := s₁.sameDraws_makeAllReady m'.runnable
    have draws' : (s₁.makeAllReady m'.runnable).SameDraws (s₀.drawn (i + 1)) :=
      ⟨draws.random.trans inside.draws.random, draws.maxQuantum.trans inside.draws.maxQuantum⟩
    obtain ⟨hleft, hpositive⟩ := inside.left
    have htick := hnext.symm.trans hrun
    obtain ⟨-, -, k', s', hidle⟩ | ⟨hone, hready, k', hrenew⟩ | ⟨htwo, k', hgoes⟩ :=
      tick_advanced s₁ left₁ hstep
    · cases hidle.symm.trans htick
    · obtain ⟨-, rfl, rfl⟩ := running.inj (hrenew.symm.trans htick)
      have hboundary : k + 1 = s₀.boundary (i + 1) := by omega
      refine ⟨i + 1, .renew hpos hboundary draws', fun j hj => ?_⟩
      rcases Nat.lt_or_eq_of_le (Nat.lt_succ_iff.1 hj) with hlt | rfl
      · exact hnone j hlt
      -- This is the boundary that was just passed, where no thread was ready.
      · rintro ⟨k₂, m₂, s₂, left₂, m₂', hk₂, hrun₂, hstep₂, u, hu, -⟩
        obtain rfl : k₂ = k := by omega
        obtain ⟨rfl, rfl, rfl⟩ := running.inj (hrun₁.symm.trans hrun₂)
        obtain ⟨-, rfl⟩ := EStateM.Result.ok.inj (hstep.symm.trans hstep₂)
        rw [hready] at hu
        cases hu
    · obtain ⟨-, rfl, rfl⟩ := running.inj (hgoes.symm.trans htick)
      refine ⟨i, ⟨Nat.le_succ_of_le inside.start, ⟨by omega, by omega⟩, draws'⟩, hnone⟩

/-- The threads that are ready behind an instruction are other ones. -/
theorem other_of_mem_ready {m' : Machine} {left : Nat} (hrostered : (running m s left).Rostered)
    (ht : t ∈ (s.makeAllReady m'.runnable).ready) : t ≠ m.current := by
  have hrunning : (s.makeAllReady m'.runnable).running = some m.current :=
    (s.running_makeAllReady m'.runnable).trans hrostered.2
  have horderly := hrostered.1.toOrderly.makeAllReady m'.runnable
  rintro rfl
  exact (horderly.running m.current hrunning).1 ht

theorem keepsQuanta (hpos : 0 < s₀.maxQuantum) {first : Machine}
    (hstart : run.after program (n + 1) = running first s₀.draw.2 s₀.draw.1)
    (hrostered : ∀ k, (run.after program k).Rostered) :
    KeepsQuanta program run s₀.maxQuantum n s₀ := by
  have hinside := @inQuantum_of_executed program run n s₀ hpos first hstart
  have htick : ∀ {k m s left}, run.after program (n + 1 + k) = running m s left →
      run.after program (n + 1 + k + 1) = tick program m s left := by
    intro k m s left hrun
    rw [after, hrun, next]
  refine ⟨fun i => ⟨s₀.le_quantum i, Scheduler.quantum_le hpos i⟩, ?_, fun k => ⟨?_, ?_⟩, ?_⟩
  · intro k m s left executed hrun
    obtain ⟨i, inside, -⟩ := hinside executed m s left hrun
    exact ⟨i, inside.start, inside.left⟩
  · rintro ⟨executed, m', s', hidle⟩
    cases k with
    | zero => cases hstart.symm.trans hidle
    | succ k =>
      obtain ⟨m, s, left, k', hrun, hstep⟩ := executed k (Nat.lt_succ_self k)
      obtain ⟨i, inside, hnone⟩ := hinside (executed.of_le (Nat.le_succ k)) m s left hrun
      obtain ⟨hleft, hpositive⟩ := inside.left
      have hnext := (htick hrun).symm.trans hidle
      obtain ⟨hone, hready, -⟩ | ⟨-, -, _, hgoes⟩ | ⟨-, _, hgoes⟩ :=
        tick_advanced s left hstep
      · obtain ⟨t, ht⟩ := List.exists_mem_of_ne_nil _ hready
        refine ⟨executed, ⟨k, m, s, left, k', rfl, hrun, hstep, t, ht, ?_⟩, i, by omega, hnone⟩
        exact other_of_mem_ready (hrun ▸ hrostered (n + 1 + k)) ht
      · cases hgoes.symm.trans hnext
      · cases hgoes.symm.trans hnext
  · rintro ⟨executed, ⟨k, m, s, left, k', rfl, hrun, hstep, t, ht, -⟩, i, hi, -⟩
    refine ⟨executed, ?_⟩
    obtain ⟨i', inside, -⟩ := hinside (executed.of_le (Nat.le_succ k)) m s left hrun
    obtain ⟨hleft, hpositive⟩ := inside.left
    have hsame := Scheduler.eq_of_boundary hpos inside.start (j := i + 1) (by omega) (by omega)
    rw [← hsame] at hleft
    obtain ⟨-, -, m', s', hidle⟩ | ⟨-, hready, -⟩ | ⟨htwo, -⟩ :=
      tick_advanced s left hstep
    · exact ⟨m', s', (htick hrun).trans hidle⟩
    · rw [hready] at ht
      cases ht
    · omega
  · intro k m s left executed hrun hends
    rw [htick hrun] at hends
    cases hstep : m.step program with
    | error e m' => exact .inr (.inr ⟨e, m', rfl⟩)
    | ok p m' =>
      cases p with
      | advanced =>
        obtain ⟨-, -, m₁, s₁, hidle⟩ | ⟨-, -, _, hgoes⟩ | ⟨-, _, hgoes⟩ :=
          tick_advanced s left hstep
        · exact .inl ⟨executed.succ hrun hstep, m₁, s₁, (htick hrun).trans hidle⟩
        · exact absurd hgoes (hends _ _ _)
        · exact absurd hgoes (hends _ _ _)
      | blocked => exact .inr (.inl ⟨m', .inl rfl⟩)
      | exited => exact .inr (.inl ⟨m', .inr (.inl rfl)⟩)
      | finished v => exact .inr (.inl ⟨m', .inr (.inr ⟨v, rfl⟩)⟩)
      | spinning =>
        refine absurd ?_ (hends { m' with runnable := [] } (s.makeAllReady m'.runnable) left)
        rw [tick, hstep]
        rfl

end Slice

/-! ## The law -/

/-- Preemption happens at the ends of quanta. -/
structure PreemptsAtBoundaries (program : Program) (run : Run) (most : Nat) : Prop where
  /-- A thread that runs has instructions left. -/
  left_pos : ∀ n m s left, run.after program n = running m s left → 0 < left
  /-- Every slice is made of quanta. -/
  quanta : ∀ n m s t s₀, run.after program n = idle m s → s.next = .ok (t, s₀) →
    KeepsQuanta program run most n s₀

section Law

variable {program : Program} {m : Machine} {s s₀ : Scheduler} {left : Nat}

/-- The countdown starts above zero and stays there. -/
theorem left_pos_next {run : Run} (hleads : run.Leads s₀) (hpos : 0 < s₀.maxQuantum)
    (hleft : ∀ m s left, run = running m s left → 0 < left) :
    ∀ m s left, run.next program = running m s left → 0 < left := by
  have hrenew : ∀ {k : Machine} {s' : Scheduler}, s₀.Leads s' → ∀ m s left,
      renew k s' = running m s left → 0 < left := by
    intro k s' leads m s left h
    obtain ⟨-, -, rfl⟩ := running.inj h
    have hle := s'.le_draw
    rw [leads.maxQuantum] at hle
    omega
  intro m s left hnext
  cases run with
  | running m₁ s₁ left₁ =>
    have hpositive := hleft m₁ s₁ left₁ rfl
    rw [next] at hnext
    cases hstep : m₁.step program with
    | error e m' =>
      rw [tick, hstep] at hnext
      cases hnext
    | ok p m' =>
      cases p with
      | advanced =>
        obtain ⟨-, -, _, _, hidle⟩ | ⟨-, -, k, hgoes⟩ | ⟨htwo, k, hgoes⟩ :=
          tick_advanced s₁ left₁ hstep
        · cases hidle.symm.trans hnext
        · exact hrenew (Scheduler.Leads.makeAllReady hleads m'.runnable) m s left (hgoes ▸ hnext)
        · obtain ⟨-, -, rfl⟩ := running.inj (hgoes.symm.trans hnext)
          omega
      | blocked | exited | finished =>
        rw [tick, hstep] at hnext
        cases hnext
      | spinning =>
        rw [tick, hstep] at hnext
        obtain ⟨-, -, rfl⟩ := running.inj hnext
        exact hpositive
  | idle m₁ s₁ =>
    rw [next, dispatch] at hnext
    split at hnext
    next => cases hnext
    next t s₂ hchosen =>
      have hchoose : s₁.choose = s₂ := by rw [Scheduler.choose, hchosen]
      have leads := hleads.1.perform .next fun _ => hleads.2
      dsimp only at hnext
      split at hnext
      next => cases hnext
      next => exact hrenew (hchoose ▸ leads) m s left hnext
  | ended => cases hnext

/-- Threads are preempted at the end of a quantum, and only if another one is ready. -/
theorem preempts_at_boundaries {config : Config} {first : Machine}
    (hcreate : Machine.create config standardBuiltins = .ok first) (program : Program) :
    PreemptsAtBoundaries program (begin first (.create config.maxQuantum config.seed))
      (max config.maxQuantum 1) := by
  have fresh := fresh_begin hcreate
  have hrostered := fresh.rostered_after program
  have hleads := leads_after (.create config.maxQuantum config.seed) rfl first program
  have hpos : 0 < max config.maxQuantum 1 := by omega
  refine ⟨fun n => ?_, fun n m s t s₀ hidle hnext => ?_⟩
  · induction n with
    | zero => exact fun m s left hrun => nomatch hrun
    | succ n ih => exact left_pos_next (hleads n) hpos ih
  · have hroster := hrostered n
    have leads := hleads n
    rw [hidle] at hroster leads
    obtain ⟨k, hstart⟩ := after_succ_of_idle hidle hnext (executes_dispatch hroster.1 hnext).1
    have hchoose : s.choose = s₀ := by rw [Scheduler.choose, hnext]
    have hmax : s₀.maxQuantum = max config.maxQuantum 1 := by
      rw [← hchoose]
      exact (leads.1.perform .next fun _ => leads.2).maxQuantum
    exact hmax ▸ keepsQuanta (hmax ▸ hpos) hstart hrostered

end Law

/-- A run with quanta of one instruction, whose machine is built. -/
def stepwiseOf : Except BuildFailure Machine → Run
  | .ok m => begin m (.create 0 7)
  | .error _ => .ended default .unfinished

/-- The main thread is preempted behind its second instruction, which starts another thread. -/
theorem preempts_at_boundaries_stepwise : ∃ m,
    Machine.create { heapWords := 200, maxQuantum := 0, seed := 7 } standardBuiltins = .ok m ∧
      PreemptsAtBoundaries spawning (begin m (.create 0 7)) 1 ∧
      (begin m (.create 0 7)).Expires spawning 0 2 := by
  obtain ⟨m, hcreate⟩ :=
    Machine.exists_create { heapWords := 200, maxQuantum := 0, seed := 7 } (by decide)
  have hexpires : (stepwiseOf (Machine.create { heapWords := 200, maxQuantum := 0, seed := 7 }
      standardBuiltins)).Expires spawning 0 2 := by decide +kernel
  have heq : stepwiseOf _ = begin m (.create 0 7) := congrArg stepwiseOf hcreate
  exact ⟨m, hcreate, preempts_at_boundaries hcreate spawning, heq ▸ hexpires⟩

end Run

end ChannelMachine

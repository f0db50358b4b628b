import ChannelMachine.Proofs.Pairing.Renaming
import ChannelMachine.Proofs.Run.History
import ChannelMachine.Proofs.Run.Twins

/-!
# Threads that nothing interrupts

`Machine.Runs program rest m k` says that the running thread of `m`, if nothing interrupts it, comes to
`k`, with more frames on its return stack than `rest` at every instruction.  Such a thread may come to
`rest` itself (`Machine.Returns`), or it may end in a fault (`Machine.Fails`).

Where one of two programs has tail calls, the thread of the other one runs through the same states,
but for the spent frames from which it still has to return (`Machine.Trails`).
-/

namespace ChannelMachine

open Heap (Pairing)

namespace Machine

/-- An instruction with which the running thread goes on.  The threads that it starts or wakes are left
to the scheduler. -/
def Advances (program : Program) (m k : Machine) : Prop :=
  ∃ l, m.step program = .ok .advanced l ∧ k = { l with runnable := [] }

/-- Instructions of a thread that nothing interrupts, none of them with `rest` for its return stack. -/
inductive Runs (program : Program) (rest : List Address) : Machine → Machine → Prop where
  | refl (m : Machine) : Runs program rest m m
  | step {m k l : Machine} : rest.length < m.registers.frames.length → Advances program m k →
      Runs program rest k l → Runs program rest m l

/-- The running thread comes to a return stack. -/
def Returns (program : Program) (rest : List Address) (m k : Machine) : Prop :=
  Runs program rest m k ∧ k.registers.frames = rest

/-- The running thread ends in a fault before it comes to a return stack. -/
def Fails (program : Program) (rest : List Address) (fault : Fault) (m k : Machine) : Prop :=
  ∃ l, Runs program rest m l ∧ rest.length < l.registers.frames.length ∧
    l.step program = .error fault k

variable {program p q : Program} {rest : List Address} {fault : Fault} {m k l : Machine}

/-! ## What a thread does is determined -/

theorem Advances.unique (h : Advances program m k) (h' : Advances program m l) : k = l := by
  obtain ⟨x, hx, rfl⟩ := h
  obtain ⟨y, hy, rfl⟩ := h'
  rw [hx] at hy
  cases hy
  rfl

theorem Advances.runnable (h : Advances program m k) : k.runnable = [] := by
  obtain ⟨_, _, rfl⟩ := h
  rfl

theorem Advances.sound (h : Advances program m k) (hm : m.Sound) : k.Sound := by
  obtain ⟨l, hstep, rfl⟩ := h
  exact ((hm.leaves_step program).of_ok hstep).congr rfl rfl rfl

namespace Runs

theorem trans (first : Runs program rest m k) (second : Runs program rest k l) :
    Runs program rest m l := by
  induction first with
  | refl => exact second
  | step hlt adv _ ih => exact .step hlt adv (ih second)

theorem sound (run : Runs program rest m k) (hm : m.Sound) : k.Sound := by
  induction run with
  | refl => exact hm
  | step _ adv _ ih => exact ih (adv.sound hm)

/-- Of two states that a thread comes to, it passes through one on its way to the other. -/
theorem total (run : Runs program rest m k) (run' : Runs program rest m l) :
    Runs program rest k l ∨ Runs program rest l k := by
  induction run with
  | refl => exact .inl run'
  | step hlt adv run ih =>
    cases run' with
    | refl => exact .inr (.step hlt adv run)
    | step _ adv' run' =>
      obtain rfl := adv.unique adv'
      exact ih run'

/-- A thread of a run does what it does alone, if its quantum is long enough. -/
theorem after (run : Runs program rest m k) : ∃ n : Nat, ∀ (s : Scheduler) (left : Nat), ∃ s',
    (Run.running m s (left + n + 1)).after program n = .running k s' (left + 1) := by
  induction run with
  | refl => exact ⟨0, fun s left => ⟨s, rfl⟩⟩
  | @step m _ _ _ adv _ ih =>
    obtain ⟨x, hstep, rfl⟩ := adv
    obtain ⟨n, hn⟩ := ih
    refine ⟨n + 1, fun s left => ?_⟩
    obtain ⟨s', hs'⟩ := hn (x.runnable.foldl Scheduler.makeReady s) left
    have hnext : (Run.running m s (left + (n + 1) + 1)).next program = .running
        { x with runnable := [] } (x.runnable.foldl Scheduler.makeReady s) (left + n + 1) := by
      change Run.tick program m s _ = _
      unfold Run.tick
      rw [hstep]
      rfl
    exact ⟨s', by rw [← Run.after_next, hnext, hs']⟩

end Runs

/-- A thread that comes to a return stack does not end in a fault before. -/
theorem Returns.not_fails (h : Returns program rest m k) : ¬ Fails program rest fault m l := by
  rintro ⟨x, run, hlt, hstep⟩
  have hstop : ∀ {y}, Runs program rest x y → x = y := by
    rintro _ (_ | ⟨_, ⟨_, hok, _⟩, _⟩)
    · rfl
    · rw [hstep] at hok
      cases hok
  rcases h.1.total run with run' | run'
  · cases run' with
    | refl => exact absurd (congrArg List.length h.2) (Nat.ne_of_gt hlt)
    | step hlt' => exact absurd (congrArg List.length h.2) (Nat.ne_of_gt hlt')
  · obtain rfl := hstop run'
    exact absurd (congrArg List.length h.2) (Nat.ne_of_gt hlt)

/-! ## Catching up -/

namespace Catches

variable {f : Footing} {ρ : Pairing}

theorem cleared (c : Catches f ρ m k) :
    Catches f ρ { m with runnable := [] } { k with runnable := [] } := by
  induction c with
  | even t => exact .even t.unqueued
  | out hleft hright hpc t => exact .out hleft hright hpc t.unqueued
  | behind hreturns hle hframes _ ih => exact .behind hreturns hle hframes ih

end Catches

/-- A return to the nearest call frame. -/
theorem advances_returned (hidle : m.runnable = []) {call : Address} {below : List Address}
    (hret : program.at? m.registers.pc = some .ret)
    (hframes : (m.registers.frames.dropWhile fun a => m.heap.tag a ≠ .callframe) = call :: below) :
    Advances program m (m.returned call below) := by
  refine ⟨m.returned call below, ?_, ?_⟩
  · have hproceed : Ensures (proceed ret) m (fun x k => x = .advanced ∧ k = m.returned call below)
        (fun _ _ => False) := .bind (.ok (ret_eq hframes) (.pure ⟨rfl, rfl⟩))
    obtain ⟨_, _, hstep, rfl, rfl⟩ := hproceed.exists_ok
    rw [step_eq hret]
    exact hstep
  · change m.returned call below = { m.returned call below with runnable := [] }
    rw [← hidle]
    rfl

/-- The footing of what is called with a return stack `call :: rest`, where a frame is spent if the
program returns at once from where it resumes. -/
def footing (program : Program) (resume : Nat) (call : Address) (rest : List Address) : Footing :=
  ⟨fun pc => program.at? pc = some .ret, resume, call :: rest, call :: rest⟩

/-- The thread of the first machine runs through the states of the thread of the second one, and has
spent frames to return from now and then. -/
structure Trails (f : Footing) (m k : Machine) : Prop where
  left : m.Sound
  right : k.Sound
  idle : m.runnable = []
  catches : ∃ ρ, Catches f ρ m k

/-- Both threads have left the frames at the bottom of their return stacks. -/
structure Left (resume : Nat) (rest : List Address) (ρ : Pairing) (m k : Machine) : Prop where
  left : m.registers.frames = rest
  right : k.registers.frames = rest
  pc : m.registers.pc = resume
  twins : Twins .plain ρ m k

section

variable {resume : Nat} {call : Address} {ρ : Pairing}

theorem Twins.lt_left (t : Twins (footing p resume call rest) ρ m k) :
    rest.length < m.registers.frames.length := t.registers.frames.length_le

theorem Twins.lt_right (t : Twins (footing p resume call rest) ρ m k) :
    rest.length < k.registers.frames.length := t.registers.frames.length_right_le

/-- The first thread returns from the frames that are spent. -/
theorem Catches.catch_up (c : Catches (footing p resume call rest) ρ m k) (hm : m.Sound)
    (hidle : m.runnable = []) : ∃ m', Runs p rest m m' ∧ m'.Sound ∧ m'.runnable = [] ∧
      (Twins (footing p resume call rest) ρ m' k ∨ Left resume rest ρ m' k) := by
  induction c with
  | even t => exact ⟨_, .refl _, hm, hidle, .inl t⟩
  | out hleft hright hpc t =>
    exact ⟨_, .refl _, hm, hidle,
      .inr ⟨(List.cons.inj hleft).2.symm, (List.cons.inj hright).2.symm, hpc, t⟩⟩
  | behind hreturns hle hframes _ ih =>
    have adv := advances_returned hidle hreturns hframes
    obtain ⟨m', run, hrest⟩ := ih (adv.sound hm) adv.runnable
    exact ⟨m', .step hle adv run, hrest⟩

/-- What a step does to two machines. -/
theorem Twins.step_cases {f : Footing} (t : Twins f ρ m k) (hm : m.Sound) (hk : k.Sound)
    (hpq : f.Admits p q) :
    (∃ x m' y k', m.step p = .ok x m' ∧ k.step q = .ok y k' ∧ m'.Sound ∧ k'.Sound ∧
      ∃ σ, Catches f σ m' k' ∧ x.Matches σ y) ∨
    (∃ e m' k', m.step p = .error e m' ∧ k.step q = .error e k' ∧ k'.output = m'.output) ∨
    (∃ m', m.step p = .error .heapExhausted m') := by
  have hstep := twins_step hm hk t hpq
  have hleft := hm.leaves_step p
  have hright := hk.leaves_step q
  unfold LeavesProgress Relates at hstep
  cases hx : Machine.step p m with
  | ok x m' =>
    cases hy : Machine.step q k with
    | ok y k' =>
      rw [hx, hy] at hstep
      exact .inl ⟨x, m', y, k', rfl, rfl, hleft.of_ok hx, hright.of_ok hy, hstep⟩
    | error e k' =>
      rw [hx, hy] at hstep
      exact hstep.elim
  | error e m' =>
    cases hy : Machine.step q k with
    | ok y k' =>
      rw [hx, hy] at hstep
      exact .inr (.inr ⟨m', hstep ▸ rfl⟩)
    | error e' k' =>
      rw [hx, hy] at hstep
      rcases hstep with rfl | ⟨rfl, hout⟩
      · exact .inr (.inr ⟨m', rfl⟩)
      · exact .inr (.inl ⟨e', m', k', rfl, rfl, hout⟩)

theorem Progress.eq_advanced {x y : Progress} (h : x.Matches ρ y) : x = .advanced ↔ y = .advanced := by
  cases x <;> cases y <;> simp_all [Progress.Matches]

/-- Twins go on together, unless the first one runs out of nodes. -/
theorem Twins.trails {f : Footing} (t : Twins f ρ m k) (hm : m.Sound) (hk : k.Sound)
    (hpq : f.Admits p q) :
    (∀ m', Advances p m m' → ∃ k', Advances q k k' ∧ Trails f m' k') ∧
      (∀ k', Advances q k k' → (∃ m', Advances p m m' ∧ Trails f m' k') ∨
        ∃ m', m.step p = .error .heapExhausted m') := by
  have hcleared : ∀ {m' k' : Machine}, m'.Sound → k'.Sound → (∃ σ, Catches f σ m' k') →
      Trails f { m' with runnable := [] } { k' with runnable := [] } := fun hm' hk' ⟨σ, c⟩ =>
    ⟨hm'.congr rfl rfl rfl, hk'.congr rfl rfl rfl, rfl, σ, c.cleared⟩
  rcases t.step_cases hm hk hpq with
    ⟨x, m', y, k', hx, hy, hm', hk', σ, c, hxy⟩ | ⟨e, m', k', hx, hy, -⟩ | ⟨m', hx⟩
  · constructor
    · rintro _ ⟨m'', hstep, rfl⟩
      obtain ⟨rfl, rfl⟩ := EStateM.Result.ok.inj (hx.symm.trans hstep)
      obtain rfl := (Progress.eq_advanced hxy).1 rfl
      exact ⟨_, ⟨k', hy, rfl⟩, hcleared hm' hk' ⟨σ, c⟩⟩
    · rintro _ ⟨k'', hstep, rfl⟩
      obtain ⟨rfl, rfl⟩ := EStateM.Result.ok.inj (hy.symm.trans hstep)
      obtain rfl := (Progress.eq_advanced hxy).2 rfl
      exact .inl ⟨_, ⟨m', hx, rfl⟩, hcleared hm' hk' ⟨σ, c⟩⟩
  · constructor
    · rintro _ ⟨m'', hstep, rfl⟩
      exact nomatch hx.symm.trans hstep
    · rintro _ ⟨k'', hstep, rfl⟩
      exact nomatch hy.symm.trans hstep
  · constructor
    · rintro _ ⟨m'', hstep, rfl⟩
      exact nomatch hx.symm.trans hstep
    · exact fun _ _ => .inr ⟨m', hx⟩

namespace Trails

/-- The second thread runs through the states of the first one. -/
theorem runs (tr : Trails (footing p resume call rest) m k)
    (hpq : (footing p resume call rest).Admits p q) {m' : Machine} (run : Runs p rest m m') :
    ∃ k', Runs q rest k k' ∧ Trails (footing p resume call rest) m' k' := by
  induction run generalizing k with
  | refl => exact ⟨k, .refl k, tr⟩
  | step hlt adv _ ih =>
    obtain ⟨hm, hk, hidle, ρ, c⟩ := tr
    cases c with
    | even t =>
      obtain ⟨k₁, adv', tr'⟩ := (t.trails hm hk hpq).1 _ adv
      obtain ⟨k', run', htrails⟩ := ih tr'
      exact ⟨k', .step t.lt_right adv' run', htrails⟩
    | out hleft => exact absurd (congrArg List.length (List.cons.inj hleft).2) (Nat.ne_of_lt hlt)
    | behind hreturns _ hframes c =>
      have adv' := advances_returned hidle hreturns hframes
      obtain rfl := adv.unique adv'
      exact ih ⟨adv.sound hm, hk, adv.runnable, ρ, c⟩

/-- The first thread runs through the states of the second one, unless it runs out of nodes. -/
theorem runs_back (tr : Trails (footing p resume call rest) m k)
    (hpq : (footing p resume call rest).Admits p q)
    (room : ∀ l, ¬ Fails p rest .heapExhausted m l) {k' : Machine} (run : Runs q rest k k') :
    ∃ m', Runs p rest m m' ∧ Trails (footing p resume call rest) m' k' := by
  induction run generalizing m with
  | refl => exact ⟨m, .refl m, tr⟩
  | step hlt adv _ ih =>
    obtain ⟨hm, hk, hidle, ρ, c⟩ := tr
    obtain ⟨m₁, run₁, hm₁, -, t | left⟩ := c.catch_up hm hidle
    · rcases (t.trails hm₁ hk hpq).2 _ adv with ⟨m₂, adv₂, tr₂⟩ | ⟨l, hfull⟩
      · have run₂ := run₁.trans (.step t.lt_left adv₂ (.refl m₂))
        obtain ⟨m', run', htrails⟩ := ih tr₂ fun l ⟨x, hx, hfails⟩ =>
          room l ⟨x, run₂.trans hx, hfails⟩
        exact ⟨m', run₂.trans run', htrails⟩
      · exact absurd ⟨m₁, run₁, t.lt_left, hfull⟩ (room l)
    · exact absurd (congrArg List.length left.right) (Nat.ne_of_gt hlt)

/-- Both threads come to the return stack, or none of them does. -/
theorem returns (tr : Trails (footing p resume call rest) m k)
    (hpq : (footing p resume call rest).Admits p q) {m' : Machine} (h : Returns p rest m m') :
    ∃ k' ρ, Returns q rest k k' ∧ m'.Sound ∧ k'.Sound ∧ Left resume rest ρ m' k' := by
  obtain ⟨k', run', hm', hk', -, ρ, c⟩ := tr.runs hpq h.1
  cases c with
  | even t => exact absurd (congrArg List.length h.2) (Nat.ne_of_gt t.lt_left)
  | out hleft hright hpc t =>
    have left : Left resume rest ρ m' k' :=
      ⟨(List.cons.inj hleft).2.symm, (List.cons.inj hright).2.symm, hpc, t⟩
    exact ⟨k', ρ, ⟨run', left.right⟩, hm', hk', left⟩
  | behind _ hle => exact absurd (congrArg List.length h.2) (Nat.ne_of_gt hle)

theorem returns_back (tr : Trails (footing p resume call rest) m k)
    (hpq : (footing p resume call rest).Admits p q)
    (room : ∀ l, ¬ Fails p rest .heapExhausted m l) {k' : Machine} (h : Returns q rest k k') :
    ∃ m' ρ, Returns p rest m m' ∧ m'.Sound ∧ k'.Sound ∧ Left resume rest ρ m' k' := by
  obtain ⟨m₁, run₁, hm₁, hk', hidle, ρ, c⟩ := tr.runs_back hpq room h.1
  obtain ⟨m', run', hm', -, t | left⟩ := c.catch_up hm₁ hidle
  · exact absurd (congrArg List.length h.2) (Nat.ne_of_gt t.lt_right)
  · exact ⟨m', ρ, ⟨run₁.trans run', left.left⟩, hm', hk', left⟩

/-- Both threads end in the same fault, or none of them does. -/
theorem fails (tr : Trails (footing p resume call rest) m k)
    (hpq : (footing p resume call rest).Admits p q)
    (room : ∀ l, ¬ Fails p rest .heapExhausted m l) {m' : Machine} (h : Fails p rest fault m m') :
    ∃ k', Fails q rest fault k k' ∧ k'.output = m'.output := by
  obtain ⟨m₁, run₁, hlt, hstep⟩ := h
  obtain ⟨k₁, run', hm₁, hk₁, hidle, ρ, c⟩ := tr.runs hpq run₁
  cases c with
  | even t =>
    rcases t.step_cases hm₁ hk₁ hpq with
      ⟨x, m', y, k', hx, -⟩ | ⟨e, m', k', hx, hy, hout⟩ | ⟨l, hx⟩
    · exact nomatch hx.symm.trans hstep
    · obtain ⟨rfl, rfl⟩ := EStateM.Result.error.inj (hx.symm.trans hstep)
      exact ⟨k', ⟨k₁, run', t.lt_right, hy⟩, hout⟩
    · exact absurd ⟨m₁, run₁, hlt, hx⟩ (room l)
  | out hleft => exact absurd (congrArg List.length (List.cons.inj hleft).2) (Nat.ne_of_lt hlt)
  | behind hreturns _ hframes =>
    obtain ⟨_, hok, -⟩ := advances_returned hidle hreturns hframes
    exact nomatch hok.symm.trans hstep

theorem fails_back (tr : Trails (footing p resume call rest) m k)
    (hpq : (footing p resume call rest).Admits p q)
    (room : ∀ l, ¬ Fails p rest .heapExhausted m l) {k' : Machine} (h : Fails q rest fault k k') :
    ∃ m', Fails p rest fault m m' ∧ k'.output = m'.output := by
  obtain ⟨k₁, run', hlt, hstep⟩ := h
  obtain ⟨m₁, run₁, hm₁, hk₁, hidle, ρ, c⟩ := tr.runs_back hpq room run'
  obtain ⟨m₂, run₂, hm₂, -, t | left⟩ := c.catch_up hm₁ hidle
  · rcases t.step_cases hm₂ hk₁ hpq with
      ⟨x, m', y, k', hx, hy, -⟩ | ⟨e, m', k', hx, hy, hout⟩ | ⟨l, hx⟩
    · exact nomatch hy.symm.trans hstep
    · obtain ⟨rfl, rfl⟩ := EStateM.Result.error.inj (hy.symm.trans hstep)
      exact ⟨m', ⟨m₂, run₁.trans run₂, t.lt_left, hx⟩, hout⟩
    · exact absurd ⟨m₂, run₁.trans run₂, t.lt_left, hx⟩ (room l)
  · exact absurd (congrArg List.length left.right) (Nat.ne_of_gt hlt)

end Trails

end

end Machine

end ChannelMachine

import ChannelMachine.Proofs.Machine.Typing
import ChannelMachine.Proofs.Run.Twins
import ChannelMachine.Session

/-!
# Runs with and without the check

Two runs of one program go through the same states if the second one checks the types of elements and the
first one does not, until the second one refuses a value.  From then on it prints nothing more, while the
first one may go on (`Run.Resembles.refused`).
-/

namespace ChannelMachine

namespace Machine.Resembles

variable {m k : Machine}

section Threads

variable (r : Resembles m k)

include r

theorem suspended : Resembles m.suspend k.suspend := by
  cases r with
  | intro off like => exact .intro off like

theorem retired : Resembles m.retire k.retire := by
  cases r with
  | intro off like => exact .intro off like

theorem unqueued : Resembles { m with runnable := [] } { k with runnable := [] } := by
  cases r with
  | intro off like => exact .intro off like

theorem notedAll (e : Option Event) : Resembles (Run.noteAll m e) (Run.noteAll k e) := by
  cases e with
  | none => exact r
  | some e => exact r.noted e

/-- Both machines know a thread or none of them does. -/
theorem resumed (t : ThreadId) : Option.Rel Resembles (m.resume t) (k.resume t) := by
  unfold resume
  rw [r.threads]
  cases m.threads[t]? with
  | none => exact .none
  | some registers =>
    refine .some ?_
    cases r with
    | intro off like => exact .intro off like

end Threads

end Machine.Resembles

namespace Run

/-- The second run goes through the states of the first one, unless it has refused a value. -/
inductive Resembles : Run → Run → Prop where
  | running {m k : Machine} (scheduler : Scheduler) (left : Nat) :
      m.Sound → k.Sound → m.Resembles k → Resembles (.running m scheduler left) (.running k scheduler left)
  | idle {m k : Machine} (scheduler : Scheduler) :
      AtRest m → AtRest k → m.Resembles k → Resembles (.idle m scheduler) (.idle k scheduler)
  | ended {m k : Machine} (ending : Ending) :
      m.Resembles k → ending.outcome k = ending.outcome m → Resembles (.ended m ending) (.ended k ending)
  /-- The second one has refused a value. -/
  | refused {run : Run} {k : Machine} (expected got : Tag) : Machine.Continues k run.machine →
      Resembles run (.ended k (.failed (.channelItemType expected got)))

variable {m k : Machine}

namespace Resembles

theorem fail (r : m.Resembles k) (fault : Fault) : Resembles (fail m fault) (Run.fail k fault) :=
  .ended _ (r.noted _) rfl

theorem dispatch (hm : AtRest m) (hk : AtRest k) (r : m.Resembles k) (s : Scheduler) :
    Resembles (dispatch m s) (Run.dispatch k s) := by
  unfold Run.dispatch
  cases s.next with
  | error fault => exact fail r fault
  | ok chosen =>
    obtain ⟨t, s'⟩ := chosen
    have hnoted := hm.noted (s'.switchEvent t)
    have knoted := hk.noted (s'.switchEvent t)
    have rnoted := r.noted (s'.switchEvent t)
    dsimp only
    have hresume := rnoted.resumed t
    cases hl : (m.note (s'.switchEvent t)).resume t <;>
      cases hr : (k.note (s'.switchEvent t)).resume t <;> rw [hl, hr] at hresume <;> cases hresume
    · exact fail rnoted _
    next rresumed =>
      exact .running _ _ (hnoted.toResting.resume hl) (knoted.toResting.resume hr) rresumed

theorem proceed (hm : m.Sound) (hk : k.Sound) (r : m.Resembles k) (s : Scheduler) (left : Nat)
    {p : Progress} (hp : ∀ a, p = .finished a → m.heap.IsBlock a) :
    Resembles (proceed m s left p) (Run.proceed k s left p) := by
  cases p with
  | advanced =>
    rw [Run.proceed, Run.proceed]
    split
    · split
      · exact .idle _ hm.suspend hk.suspend r.suspended
      · exact .running _ _ hm hk r
    · exact .running _ _ hm hk r
  | blocked => exact .idle _ (hm.suspend.noteAll _) (hk.suspend.noteAll _) (r.suspended.notedAll _)
  | exited => exact .idle _ (hm.retire.noteAll _) (hk.retire.noteAll _) (r.retired.notedAll _)
  | finished a => exact .ended _ r (congrArg Outcome.finished (r.heap.unbox (hp a rfl)))
  | spinning => exact .running _ _ hm hk r

theorem tick (hm : m.Sound) (hk : k.Sound) (r : m.Resembles k) (program : Program) (s : Scheduler)
    (left : Nat) : Resembles (tick program m s left) (Run.tick program k s left) := by
  have hcontinues := continues_next program (.running m s left)
  change Machine.Continues m (Run.tick program m s left).machine at hcontinues
  unfold Run.tick at hcontinues ⊢
  rcases r.agrees_step hm hk program with hmirrors | ⟨expected, got, hrefused⟩
  · rcases hmirrors.cases with ⟨p, m', k', hx, hy, r'⟩ | ⟨e, m', k', hx, hy, r'⟩
    · rw [hx, hy]
      dsimp only
      have hm' : Machine.Sound { m' with runnable := [] } :=
        ((hm.leaves_step program).of_ok hx).congr rfl rfl rfl
      have hk' : Machine.Sound { k' with runnable := [] } :=
        ((hk.leaves_step program).of_ok hy).congr rfl rfl rfl
      rw [r'.runnable]
      have hend : ∀ a, p = .finished a → m'.heap.IsBlock a :=
        (hm.ensures_finished program).of_ok hx
      exact proceed hm' hk' r'.unqueued _ left hend
    · rw [hx, hy]
      exact fail r' e
  · rw [hrefused]
    refine .refused expected got (Machine.Continues.trans (.of_eq ?_) hcontinues)
    exact r.output.symm.trans (Machine.output_note ..).symm

/-- One step of two runs. -/
theorem next {run other : Run} (r : run.Resembles other) (program : Program) :
    (run.next program).Resembles (other.next program) := by
  cases r with
  | running s left hm hk r => exact tick hm hk r program s left
  | idle s hm hk r => exact dispatch hm hk r s
  | ended ending r houtcome => exact .ended ending r houtcome
  | refused expected got hout => exact .refused expected got (hout.trans (continues_next program _))

/-- What two runs come to after at most `n` steps. -/
theorem go {run other : Run} (r : run.Resembles other) (program : Program) (n : Nat) :
    (∃ m k ending, run.go program n = (m, ending) ∧ other.go program n = (k, ending) ∧
      m.Resembles k ∧ ending.outcome k = ending.outcome m) ∨
    ∃ m k ending expected got, run.go program n = (m, ending) ∧
      other.go program n = (k, .failed (.channelItemType expected got)) ∧ Machine.Continues k m := by
  induction n generalizing run other with
  | zero =>
    cases r with
    | running s left hm hk r => exact .inl ⟨_, _, .unfinished, rfl, rfl, r, rfl⟩
    | idle s hm hk r => exact .inl ⟨_, _, .unfinished, rfl, rfl, r, rfl⟩
    | ended ending r houtcome => exact .inl ⟨_, _, ending, rfl, rfl, r, houtcome⟩
    | refused expected got hout =>
      refine .inr ⟨run.machine, _, (run.go program 0).2, expected, got, ?_, rfl, hout⟩
      cases run <;> rfl
  | succ n ih =>
    rw [go_succ, go_succ]
    exact ih (r.next program)

end Resembles

end Run

end ChannelMachine

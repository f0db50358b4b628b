import ChannelMachine.Proofs.Machine.Output
import ChannelMachine.Proofs.Pairing.Stepping
import ChannelMachine.Proofs.Run.Safety

/-!
# Runs of twins

Two runs of one program on machines that are twins go through the same states, whatever their heaps
collect and whenever they do, until the first one runs out of nodes.  From then on it prints nothing
more, while the other one may go on (`Run.Twins.short`).
-/

namespace ChannelMachine

namespace Machine

variable {ρ : Heap.Pairing} {m k : Machine}

/-- The machine, after a collection if one is forced. -/
def collectedIf (m : Machine) : Bool → Machine
  | true =>
      match m.collect with
      | .ok _ k => k
      | .error _ k => k
  | false => m

theorem collectedIf_eq (m : Machine) (forced : Bool) : m.collectedIf forced =
    { m with heap := (m.collectedIf forced).heap, journal := (m.collectedIf forced).journal } := by
  cases forced <;> rfl

theorem Resting.grows_collectedIf (hm : m.Resting) (hroots : ∀ a ∈ m.roots, m.heap.InUse a)
    (forced : Bool) : Heap.Grows m.heap (m.collectedIf forced).heap m.roots := by
  cases forced with
  | true =>
    have c := (hm.heap.collected hroots).alike (alike_withHeap m _) (building_withHeap m _)
    exact ⟨c.toKeeps, c.building, c.sound⟩
  | false => exact .refl hm.heap _

theorem Resting.collectedIf (hm : m.Resting) (hroots : ∀ a ∈ m.roots, m.heap.InUse a)
    (forced : Bool) : (m.collectedIf forced).Resting := by
  have g := hm.grows_collectedIf hroots forced
  refine hm.transport g.sound (g.building.trans hm.building) ?_ fun a ha =>
    ⟨g.inUse_root hroots ha, g.toKeeps.tag (.root ha)⟩
  rw [collectedIf_eq]

theorem Sound.collectedIf (hm : m.Sound) (forced : Bool) : (m.collectedIf forced).Sound where
  toResting := hm.toResting.collectedIf hm.inUse_root forced
  registers := by
    have g := hm.toResting.grows_collectedIf hm.inUse_root forced
    rw [collectedIf_eq]
    refine hm.registers.transport fun a ha => ?_
    have hroot : a ∈ m.roots := mem_threadRoots.2 (.inl ha)
    exact ⟨g.inUse_root hm.inUse_root hroot, g.toKeeps.tag (.root hroot)⟩

namespace Twins

/-- A collection may be forced in either machine. -/
theorem collectedIf (t : Twins .plain ρ m k) (hm : m.Resting)
    (hroots : ∀ a ∈ m.roots, m.heap.InUse a) (hk : k.Resting) (left right : Bool) :
    Twins .plain (ρ.within (k.heap.Live k.roots)) (m.collectedIf left) (k.collectedIf right) := by
  have p := t.paired hm hroots hk
  have g := hm.grows_collectedIf p.left_roots left
  have g' := hk.grows_collectedIf p.right_roots right
  have same : m.heap.SameFrames (m.collectedIf left).heap m.registers.frames :=
    .of_same fun a ha => g.node a (.root (mem_roots_of_frames ha))
  refine t.transport (p.grow g g').toMatched ?_ (by rw [collectedIf_eq]) (by rw [collectedIf_eq])
    (fun a b hb hab => ⟨hab, .root hb⟩) same ?_ ?_
  · rw [g.toKeeps.nodeCount, g'.toKeeps.nodeCount]
    exact t.count
  · rintro a b ⟨hab, hb⟩ htag
    rw [collectedIf_eq m, collectedIf_eq k]
    exact t.channels a b hab ((g.toKeeps.tag (p.live_left hab hb)).symm.trans htag)
  · rintro a b ⟨hab, hb⟩ htag
    rw [collectedIf_eq m, collectedIf_eq k]
    exact t.groups a b hab ((g.toKeeps.tag (p.live_left hab hb)).symm.trans htag)

theorem suspended (t : Twins .plain ρ m k) (hm : m.heap.Intact) : Twins .plain ρ m.suspend k.suspend where
  toMatched := t.toMatched
  count := t.count
  registers := ⟨.nil, rfl, t.toMatched.constant (i := 4) hm (by decide), Footing.stands_of_partners .nil⟩
  threads := by
    intro u
    change Option.Rel _ (m.threads.insert m.current m.registers)[u]?
      (k.threads.insert k.current k.registers)[u]?
    rw [Std.TreeMap.getElem?_insert, Std.TreeMap.getElem?_insert, t.current]
    split
    · exact .some t.registers.matches_plain
    · exact t.threads u
  current := t.current
  nextThread := t.nextThread
  channels := t.channels
  groups := t.groups
  runnable := t.runnable
  builtins := t.builtins
  output := t.output
  typedChannels := t.typedChannels

theorem retired (t : Twins .plain ρ m k) (hm : m.heap.Intact) : Twins .plain ρ m.retire k.retire :=
  t.withRegisters ⟨.nil, rfl, t.toMatched.constant (i := 4) hm (by decide), Footing.stands_of_partners .nil⟩

/-- Both machines know a thread or none of them does. -/
theorem resumed (t : Twins .plain ρ m k) (u : ThreadId) :
    Option.Rel (Twins .plain ρ) (m.resume u) (k.resume u) := by
  have hrel := t.threads u
  unfold resume
  generalize m.threads[u]? = r at hrel ⊢
  generalize k.threads[u]? = s at hrel ⊢
  cases hrel with
  | none => exact .none
  | some hrs =>
    refine .some ⟨t.toMatched, t.count, hrs.follows _, fun v => ?_, rfl, t.nextThread, t.channels, t.groups,
      t.runnable, t.builtins, t.output, t.typedChannels⟩
    rw [Std.TreeMap.getElem?_erase, Std.TreeMap.getElem?_erase]
    split
    · exact .none
    · exact t.threads v

theorem unqueued {f : Footing} (t : Twins f ρ m k) :
    Twins f ρ { m with runnable := [] } { k with runnable := [] } :=
  ⟨t.toMatched, t.count, t.registers, t.threads, t.current, t.nextThread, t.channels, t.groups, rfl,
    t.builtins, t.output, t.typedChannels⟩

theorem notedAll (t : Twins .plain ρ m k) (e : Option Event) :
    Twins .plain ρ (Run.noteAll m e) (Run.noteAll k e) := by
  cases e with
  | none => exact t
  | some e => exact t.noted e e

end Twins

end Machine

namespace Run

/-- The second run goes through the states of the first one, as long as that has nodes left. -/
inductive Twins : Run → Run → Prop where
  | running {ρ : Heap.Pairing} {m k : Machine} (scheduler : Scheduler) (left : Nat) :
      m.Sound → k.Sound → m.Twins .plain ρ k → Twins (.running m scheduler left) (.running k scheduler left)
  | idle {ρ : Heap.Pairing} {m k : Machine} (scheduler : Scheduler) :
      AtRest m → AtRest k → m.Twins .plain ρ k → Twins (.idle m scheduler) (.idle k scheduler)
  | finished {m k : Machine} {a b : Address} :
      k.heap.unbox b = m.heap.unbox a → k.output = m.output →
      Twins (.ended m (.finished a)) (.ended k (.finished b))
  | failed {m k : Machine} (fault : Fault) : k.output = m.output →
      Twins (.ended m (.failed fault)) (.ended k (.failed fault))
  /-- The first one ran out of nodes. -/
  | short {m : Machine} {run : Run} : Machine.Continues m run.machine →
      Twins (.ended m (.failed .heapExhausted)) run

variable {ρ : Heap.Pairing} {m k : Machine}

/-- A run that is not over, after a collection if one is forced. -/
def collectedIf (forced : Bool) : Run → Run
  | .running m scheduler left => .running (m.collectedIf forced) scheduler left
  | .idle m scheduler => .idle (m.collectedIf forced) scheduler
  | .ended m ending => .ended m ending

theorem output_collectedIf (forced : Bool) (run : Run) :
    (run.collectedIf forced).machine.output = run.machine.output := by
  cases run <;> cases forced <;> rfl

theorem output_noteAll (m : Machine) (e : Option Event) : (noteAll m e).output = m.output := by
  cases e with
  | none => rfl
  | some e => exact Machine.output_note m e

theorem AtRest.collectedIf (hm : AtRest m) (forced : Bool) : AtRest (m.collectedIf forced) where
  toResting := hm.toResting.collectedIf hm.inUse_root forced
  idle := by
    rw [Machine.collectedIf_eq]
    exact hm.idle

/-! ## Later states print more -/

theorem output_proceed (m : Machine) (s : Scheduler) (left : Nat) (progress : Progress) :
    (proceed m s left progress).machine.output = m.output := by
  cases progress with
  | advanced =>
    rw [proceed]
    split
    · split <;> rfl
    · rfl
  | blocked => exact output_noteAll ..
  | exited => exact output_noteAll ..
  | finished value => rfl
  | spinning => rfl

theorem output_dispatch (m : Machine) (s : Scheduler) :
    (dispatch m s).machine.output = m.output := by
  unfold dispatch
  split
  next => exact Machine.output_note ..
  next t s' _ =>
    dsimp only
    split
    next => exact (Machine.output_note ..).trans (Machine.output_note ..)
    next k hresume =>
      have hk : k.output = (m.note (s'.switchEvent t)).output := by
        unfold Machine.resume at hresume
        split at hresume
        · cases hresume
        · obtain rfl := Option.some.inj hresume
          rfl
      exact hk.trans (Machine.output_note ..)

/-- A step of a run only adds to the output. -/
theorem continues_next (program : Program) (run : Run) :
    Machine.Continues run.machine (run.next program).machine := by
  cases run with
  | running m s left =>
    have hspeaks := Machine.speaks_step program m
    change Machine.Continues m (tick program m s left).machine
    unfold tick
    split
    next fault k heq =>
      exact (hspeaks.of_error heq).1.trans (.of_eq (Machine.output_note ..))
    next progress k heq =>
      exact (hspeaks.of_ok heq).trans (.of_eq (output_proceed ..))
  | idle m s => exact .of_eq (output_dispatch m s)
  | ended m ending => exact .refl m

/-! ## Steps of twins -/

namespace Twins

theorem renew (hm : m.Sound) (hk : k.Sound) (t : m.Twins .plain ρ k) (s : Scheduler) :
    Twins (renew m s) (Run.renew k s) := .running _ _ hm hk t

theorem dispatch (hm : AtRest m) (hk : AtRest k) (t : m.Twins .plain ρ k) (s : Scheduler) :
    Twins (dispatch m s) (Run.dispatch k s) := by
  unfold Run.dispatch
  cases s.next with
  | error fault => exact .failed fault (t.noted _ _).output
  | ok chosen =>
    obtain ⟨u, s'⟩ := chosen
    have hnoted := hm.noted (s'.switchEvent u)
    have knoted := hk.noted (s'.switchEvent u)
    have tnoted := t.noted (s'.switchEvent u) (s'.switchEvent u)
    dsimp only
    have hresume := tnoted.resumed u
    generalize hr : (m.note (s'.switchEvent u)).resume u = r at hresume ⊢
    generalize hs : (k.note (s'.switchEvent u)).resume u = s at hresume ⊢
    cases hresume with
    | none => exact .failed _ (tnoted.noted _ _).output
    | some tresumed =>
      exact renew (hnoted.toResting.resume hr) (knoted.toResting.resume hs) tresumed s'

theorem proceed (hm : m.Sound) (hk : k.Sound) (t : m.Twins .plain ρ k) (s : Scheduler) (left : Nat)
    {p q : Progress} (hpq : p.Matches ρ q) :
    Twins (proceed m s left p) (Run.proceed k s left q) := by
  have hintact := hm.heap.toIntact
  cases p with
  | advanced =>
    obtain rfl : q = .advanced := hpq
    rw [Run.proceed, Run.proceed]
    split
    · split
      · exact .idle _ hm.suspend hk.suspend (t.suspended hintact)
      · exact renew hm hk t s
    · exact .running _ _ hm hk t
  | blocked =>
    obtain rfl : q = .blocked := hpq
    exact .idle _ (hm.suspend.noteAll _) (hk.suspend.noteAll _)
      ((t.suspended hintact).notedAll _)
  | exited =>
    obtain rfl : q = .exited := hpq
    exact .idle _ (hm.retire.noteAll _) (hk.retire.noteAll _) ((t.retired hintact).notedAll _)
  | finished a =>
    cases q with
    | finished b => exact .finished (t.similar a b hpq).unbox t.output
    | _ => exact absurd hpq (by simp [Progress.Matches])
  | spinning =>
    obtain rfl : q = .spinning := hpq
    exact .running _ _ hm hk t

theorem tick (hm : m.Sound) (hk : k.Sound) (t : m.Twins .plain ρ k) (program : Program) (s : Scheduler)
    (left : Nat) : Twins (tick program m s left) (Run.tick program k s left) := by
  have hstep := Machine.twins_step hm hk t (.refl _ program)
  have hleft := hm.leaves_step program
  have hright := hk.leaves_step program
  have hspeaks := Machine.speaks_step program m
  have hcontinues := continues_next program (.running k s left)
  change Machine.Continues k (Run.tick program k s left).machine at hcontinues
  unfold Machine.LeavesProgress Relates at hstep
  unfold Run.tick at hcontinues ⊢
  cases hx : Machine.step program m with
  | ok p m' =>
    rw [hx] at hstep
    cases hy : Machine.step program k with
    | ok q k' =>
      rw [hy] at hstep
      obtain ⟨σ, c, hpq⟩ := hstep
      have u := c.twins
      have hm' : Machine.Sound { m' with runnable := [] } := (hleft.of_ok hx).congr rfl rfl rfl
      have hk' : Machine.Sound { k' with runnable := [] } := (hright.of_ok hy).congr rfl rfl rfl
      dsimp only
      rw [u.runnable]
      exact proceed hm' hk' u.unqueued _ left hpq
    | error e k' =>
      rw [hy] at hstep
      exact hstep.elim
  | error e m' =>
    rw [hx] at hstep
    dsimp only
    -- A machine without nodes has printed nothing in this step.
    have hshort : e = .heapExhausted → ∀ run : Run, Machine.Continues k run.machine →
        Twins (fail m' e) run := by
      rintro rfl run hrun
      refine .short (Machine.Continues.trans (.of_eq ?_) hrun)
      have hm' := (hspeaks.of_error hx).2 rfl
      exact t.output.trans (hm'.symm.trans (Machine.output_note ..).symm)
    cases hy : Machine.step program k with
    | ok q k' =>
      rw [hy] at hstep hcontinues
      exact hshort hstep _ hcontinues
    | error e' k' =>
      rw [hy] at hstep hcontinues
      rcases hstep with he | ⟨rfl, hout⟩
      · exact hshort he _ hcontinues
      · refine .failed _ ?_
        exact (Machine.output_note ..).trans (Eq.trans hout (Machine.output_note ..).symm)

/-- A collection may be forced in either run. -/
theorem collectedIf {run other : Run} (t : run.Twins other) (left right : Bool) :
    (run.collectedIf left).Twins (other.collectedIf right) := by
  cases t with
  | running s n hm hk t =>
    exact .running s n (hm.collectedIf left) (hk.collectedIf right)
      (t.collectedIf hm.toResting hm.inUse_root hk.toResting left right)
  | idle s hm hk t =>
    exact .idle s (hm.collectedIf left) (hk.collectedIf right)
      (t.collectedIf hm.toResting hm.inUse_root hk.toResting left right)
  | finished hvalue hout => exact .finished hvalue hout
  | failed fault hout => exact .failed fault hout
  | short hout => exact .short (hout.trans (.of_eq (output_collectedIf ..)))

/-- One step of two runs. -/
theorem next {run other : Run} (t : run.Twins other) (program : Program) :
    (run.next program).Twins (other.next program) := by
  cases t with
  | running s left hm hk t => exact tick hm hk t program s left
  | idle s hm hk t => exact dispatch hm hk t s
  | finished hvalue hout => exact .finished hvalue hout
  | failed fault hout => exact .failed fault hout
  | short hout => exact .short (hout.trans (continues_next program _))

end Twins

end Run

end ChannelMachine

import ChannelMachine.Proofs.Machine.Planning
import ChannelMachine.Proofs.Run.Threads
import ChannelMachine.Proofs.Source.Compiled

/-!
# Runs of compiled code keep to the plan

What a plan does not know of a thread is in its past: which instructions opened the scopes that it is
in, where it was started, and how many operands there were when the functions that it runs were called.
`past` takes all of that from the run.  With it every thread of every state has the shape that is
planned for its next instruction (`Fresh.keeps`).

The main thread is there as long as the run goes on, since no code of it ends a thread.
-/

namespace ChannelMachine.Run

/-! ## The past of a thread -/

/-- How many functions a thread runs that have not returned. -/
def calls (run : Run) (t : ThreadId) : Nat :=
  match run.thread? t with
  | some r => r.frames.countP fun a => run.machine.heap.tag a = .callframe
  | none => 0

/-- How many operands a thread has. -/
def height (run : Run) (t : ThreadId) : Nat :=
  match run.thread? t with
  | some r => r.stack.length
  | none => 0

/-- The bases of a thread that runs so many functions now and has so many operands: there is one more
if a function was called, and one less if one returned. -/
def rebase (old : List Nat) (calls height : Nat) : List Nat :=
  if old.length < calls then height :: old else if calls < old.length then old.tail else old

/-- How many operands there were when the functions were called that a thread runs after some steps,
innermost first. -/
def bases (program : Program) (run : Run) (t : ThreadId) : Nat → List Nat
  | 0 => []
  | n + 1 => rebase (bases program run t n) ((run.after program (n + 1)).calls t)
      ((run.after program (n + 1)).height t)

/-- A thread executed the instruction at an index, it had this environment and these frames to return
to behind it, and the frames have been there ever since. -/
def Opened (program : Program) (run : Run) (t : ThreadId) (n start : Nat) (environment : Address)
    (frames : List Address) : Prop :=
  ∃ i < n, (run.after program i).ExecutesAt t start ∧
    (∃ r, (run.after program (i + 1)).thread? t = some r ∧ r.environment = environment ∧
      r.frames = frames) ∧
    ∀ j, i < j → j ≤ n → ∀ r, (run.after program j).thread? t = some r → frames <:+ r.frames

/-- The instruction at an index started a thread. -/
def StartedAt (program : Program) (run : Run) (t : ThreadId) (i start : Nat) : Prop :=
  ∃ u n, (run.after program i).ExecutesAt u start ∧ program.at? start = some (.spawn n) ∧
    (run.after program i).Starts program t

/-- A thread is the main one, or the instruction at an index started it. -/
def Born (program : Program) (run : Run) (t : ThreadId) (n : Nat) : Option Nat → Prop
  | none => t = mainThread
  | some start => t ≠ mainThread ∧ ∃ i < n, run.StartedAt program t i start

/-- The past of a thread after some steps. -/
def past (program : Program) (run : Run) (n : Nat) (t : ThreadId) : Past where
  opened := run.Opened program t n
  born := run.Born program t n
  fresh := ∀ i < n, ¬ (run.after program i).Executes t
  bases := run.bases program t n

section Past

variable {program : Program} {run : Run} {t : ThreadId} {n start : Nat} {environment : Address}
  {frames : List Address}

theorem Opened.next (opened : run.Opened program t n start environment frames)
    (hframes : ∀ r, (run.after program (n + 1)).thread? t = some r → frames <:+ r.frames) :
    run.Opened program t (n + 1) start environment frames := by
  obtain ⟨i, hi, hexec, hafter, hkept⟩ := opened
  refine ⟨i, Nat.lt_succ_of_lt hi, hexec, hafter, fun j hij hj => ?_⟩
  rcases Nat.lt_or_eq_of_le hj with hlt | rfl
  · exact hkept j hij (Nat.le_of_lt_succ hlt)
  · exact hframes

theorem Born.next {origin : Option Nat} (born : run.Born program t n origin) :
    run.Born program t (n + 1) origin := by
  cases origin with
  | none => exact born
  | some start =>
    obtain ⟨hne, i, hi, hstarted⟩ := born
    exact ⟨hne, i, Nat.lt_succ_of_lt hi, hstarted⟩

theorem bases_next_of_eq
    (h : (run.after program (n + 1)).calls t = (run.bases program t n).length) :
    run.bases program t (n + 1) = run.bases program t n := by
  rw [bases, rebase, h, if_neg (Nat.lt_irrefl _), if_neg (Nat.lt_irrefl _)]

/-- The bases that an instruction leaves are told by their number. -/
theorem rebase_of_rebases {old bases : List Nat} {height : Nat} (h : Rebases old height bases) :
    rebase old bases.length height = bases := by
  unfold rebase
  cases h with
  | same => rw [if_neg (Nat.lt_irrefl _), if_neg (Nat.lt_irrefl _)]
  | called => exact if_pos (Nat.lt_succ_self _)
  | returned heq =>
    rw [heq, List.length_cons, if_neg (Nat.not_lt.2 (Nat.le_succ _)), if_pos (Nat.lt_succ_self _),
      List.tail_cons]

end Past

/-! ## States -/

/-- All threads of a state have the shapes that are planned for them. -/
structure Planned (plan : Plan) (pasts : ThreadId → Past) (run : Run) : Prop where
  /-- What may be called is known to the plan. -/
  callables : Heap.CallablesFit plan run.machine.heap
  /-- The builtins are those that the compiler counts on. -/
  builtins : run.machine.builtins = standardBuiltins
  /-- The threads. -/
  threads : ∀ (t : ThreadId) (r : Registers), run.thread? t = some r →
    r.Planned plan run.machine.heap (pasts t)

/-- A state keeps to the plan. -/
structure KeepsPlan (plan : Plan) (pasts : ThreadId → Past) (run : Run) : Prop where
  /-- All threads have the shapes that are planned. -/
  planned : run.Active → run.Planned plan pasts
  /-- The main thread is there. -/
  main : run.Active → run.thread? mainThread ≠ none
  /-- A fault is not one that only other code ends in. -/
  failed : ∀ m e, run = ended m (.failed e) → e.isIllFormed = false
  /-- The main thread ends the run with one operand. -/
  finished : ∀ m a, run = ended m (.finished a) → m.current = mainThread ∧ m.registers.stack = [a]

/-- There is a base for each function that a thread runs. -/
theorem calls_of_has {plan : Plan} {run : Run} {t : ThreadId} {r : Registers} {past : Past}
    {σ : Shape} (hr : run.thread? t = some r) (has : r.Has plan run.machine.heap past σ) :
    run.calls t = past.bases.length := by
  rw [calls, hr]
  exact has.framed.length_bases.symm

theorem calls_eq {plan : Plan} {run : Run} {t : ThreadId} {r : Registers} {past : Past}
    (hr : run.thread? t = some r) (planned : r.Planned plan run.machine.heap past) :
    run.calls t = past.bases.length := by
  obtain ⟨σ, -, has⟩ := planned
  exact calls_of_has hr has

section Steps

variable {plan : Plan} {program : Program} {run : Run} {n : Nat} {t : ThreadId} {r : Registers}
  {h : Heap}

/-- A thread that did nothing has executed no more than before. -/
theorem fresh_next (hquiet : ¬ (run.after program n).Executes t) :
    (run.past program (n + 1) t).fresh ↔ (run.past program n t).fresh := by
  refine ⟨fun h i hi => h i (Nat.lt_succ_of_lt hi), fun h i hi => ?_⟩
  rcases Nat.lt_succ_iff_lt_or_eq.1 hi with hlt | rfl
  · exact h i hlt
  · exact hquiet

/-- A thread that did nothing knows its frames. -/
theorem planned_next (hquiet : ¬ (run.after program n).Executes t)
    (hr' : (run.after program (n + 1)).thread? t = some r)
    (planned : r.Planned plan h (run.past program n t)) :
    r.Planned plan h { run.past program (n + 1) t with bases := run.bases program t n } := by
  refine planned.mono (fun _ _ _ hsuffix hopened => Opened.next hopened fun r' hr => ?_)
    (fun _ born => Born.next born) (fresh_next hquiet) rfl
  obtain rfl := Option.some.inj (hr'.symm.trans hr)
  exact hsuffix

/-- The bases of a thread that did nothing are the same. -/
theorem past_next_of_eq
    (h : (run.after program (n + 1)).calls t = (run.bases program t n).length) :
    { run.past program (n + 1) t with bases := run.bases program t n } =
      run.past program (n + 1) t := by
  unfold past
  rw [bases_next_of_eq h]

/-- A thread that is not there executes nothing. -/
theorem not_executes {run : Run} (h : run.thread? t = none) : ¬ run.Executes t := by
  rintro ⟨m, s, left, rfl, rfl⟩
  rw [thread?, if_pos rfl] at h
  cases h

/-- A thread that was never there has no bases. -/
theorem bases_of_new (hnew : ∀ i ≤ n, (run.after program i).thread? t = none) :
    run.bases program t n = [] := by
  induction n with
  | zero => rfl
  | succ n ih =>
    have hbases := ih fun i hi => hnew i (Nat.le_succ_of_le hi)
    rw [bases_next_of_eq, hbases]
    rw [calls, hnew (n + 1) (Nat.le_refl _), hbases]
    rfl

/-- No thread did anything. -/
theorem Planned.dispatched (hquiet : ∀ t, ¬ (run.after program n).Executes t) (planned : (run.after program n).Planned plan (run.past program n))
    (same : SameView (run.after program n) (run.after program (n + 1)))
    (hbuiltins : (run.after program (n + 1)).machine.builtins =
      (run.after program n).machine.builtins) :
    (run.after program (n + 1)).Planned plan (run.past program (n + 1)) := by
  refine ⟨same.heap ▸ planned.callables, hbuiltins.trans planned.builtins, fun t r hr => ?_⟩
  have hr' := (same.thread t).symm.trans hr
  have hplanned := planned.threads t r hr'
  have hcalls : (run.after program (n + 1)).calls t = (run.bases program t n).length :=
    calls_eq hr (same.heap.symm ▸ hplanned)
  rw [← past_next_of_eq hcalls, same.heap]
  exact planned_next (hquiet t) hr hplanned

end Steps

/-! ## Builtins -/

theorem builtins_note (m : Machine) (e : Event) : (m.note e).builtins = m.builtins := by
  unfold Machine.note
  split <;> rfl

theorem builtins_noteAll (m : Machine) (e : Option Event) :
    (noteAll m e).builtins = m.builtins := by
  cases e with
  | none => rfl
  | some e => exact builtins_note m e

theorem builtins_proceed (m : Machine) (s : Scheduler) (left : Nat) (p : Progress) :
    (proceed m s left p).machine.builtins = m.builtins := by
  cases p with
  | advanced =>
    rw [proceed]
    split
    next => split <;> rfl
    next => rfl
  | blocked => exact builtins_noteAll _ _
  | exited => exact builtins_noteAll _ _
  | finished => rfl
  | spinning => rfl

theorem builtins_dispatch (m : Machine) (s : Scheduler) :
    (dispatch m s).machine.builtins = m.builtins := by
  unfold dispatch
  split
  next => exact builtins_note _ _
  next t s' _ =>
    dsimp only
    split
    next => exact (builtins_note _ _).trans (builtins_note _ _)
    next k hresume =>
      unfold Machine.resume at hresume
      split at hresume
      next => cases hresume
      next =>
        obtain rfl := Option.some.inj hresume
        exact builtins_note m _

/-! ## Instructions -/

section Instructions

variable {plan : Plan} {program : Program} {run : Run} {n left : Nat} {m : Machine} {s : Scheduler}

/-- The pasts of the threads that do not run, and of one that is started now. -/
def others (program : Program) (run : Run) (n : Nat) (m : Machine) (u : ThreadId) : Past :=
  if u = m.nextThread then .begin m.registers.pc else run.past program n u

/-- The running thread keeps to the plan. -/
theorem comes_step (plans : Source.Plans program plan) (small : plan.Small)
    (hrun : run.after program n = running m s left) (rostered : (run.after program n).Rostered)
    (sound : (run.after program n).Sound)
    (planned : (run.after program n).Planned plan (run.past program n)) :
    Ensures (Machine.step program) m
      (Machine.Comes plan (run.others program n m) (run.past program n m.current).begun
        m.registers.pc)
      (fun e _ => e.isIllFormed = false) := by
  rw [hrun] at rostered sound planned
  obtain ⟨roster, hrunning⟩ := rostered
  obtain ⟨σ, hσ, has⟩ := planned.threads m.current m.registers (if_pos rfl)
  obtain ⟨i, hi, follows⟩ := plans.follows _ σ hσ
  have hhas : m.Has plan (run.others program n m) (run.past program n m.current) σ := by
    refine ⟨⟨planned.callables, planned.builtins, fun u r hr => ?_⟩, has⟩
    have hne : u ≠ m.current := by
      rintro rfl
      rw [roster.table_running hrunning] at hr
      cases hr
    have hold : u ≠ m.nextThread := by
      rintro rfl
      rw [roster.table_next] at hr
      cases hr
    rw [others, if_neg hold]
    exact planned.threads u r ((if_neg hne).trans hr)
  refine hhas.comes_step sound small hσ hi follows (plans.home _ σ hσ) fun _ _ => ?_
  rw [others, if_pos rfl]
  exact ⟨rfl, trivial, rfl⟩

/-- Only spawning puts a new thread into the table. -/
theorem spawn_of_new {k : Machine} {p : Progress} {d : Option Deal} {u : ThreadId}
    (acts : m.Acts program k p d) (hnone : m.threads[u]? = none) (hsome : k.threads[u]? ≠ none) :
    ∃ c, program.at? m.registers.pc = some (.spawn c) := by
  cases acts with
  | started instr => exact ⟨_, instr⟩
  | apart _ _ _ _ apart => exact absurd (apart.threads ▸ hnone) hsome
  | madeChannel _ _ crew => exact absurd (crew.threads ▸ hnone) hsome
  | sent _ _ _ _ crew => exact absurd (crew.threads ▸ hnone) hsome
  | full _ _ _ _ crew => exact absurd (crew.threads ▸ hnone) hsome
  | received _ _ _ _ crew => exact absurd (crew.threads ▸ hnone) hsome
  | empty _ _ _ _ crew => exact absurd (crew.threads ▸ hnone) hsome
  | madeGroup _ crew => exact absurd (crew.threads ▸ hnone) hsome
  | counted _ _ _ _ crew => exact absurd (crew.threads ▸ hnone) hsome
  | waits _ _ _ _ crew => exact absurd (crew.threads ▸ hnone) hsome

section Turned

variable {k : Machine} {p : Progress} {d : Option Deal} {u : ThreadId} {r : Registers}
  (fresh : run.Fresh) (hrun : run.after program n = running m s left) (acts : m.Acts program k p d)
  (turned : Turned (running m s left) (run.after program (n + 1)) m k p)

include hrun turned

include fresh acts in
/-- A thread that did not run, or that was just started. -/
theorem planned_other (hmain : (run.after program n).thread? mainThread ≠ none)
    (rests : k.Rests plan (run.others program n m)) (hu : u ≠ m.current)
    (hr : (run.after program (n + 1)).thread? u = some r) :
    r.Planned plan k.heap (run.past program (n + 1) u) := by
  have hk : k.threads[u]? = some r := (turned.other u hu).symm.trans hr
  have hquiet : ¬ (run.after program n).Executes u := by
    rw [hrun]
    rintro ⟨_, _, _, heq, rfl⟩
    exact hu (congrArg Machine.current (running.inj heq).1).symm
  have hplanned : r.Planned plan k.heap
      { run.past program (n + 1) u with bases := run.bases program u n } := by
    have hrest := rests.threads u r hk
    unfold others at hrest
    split at hrest
    next heq =>
      have rostered := fresh.rostered_after program n
      rw [hrun] at rostered hmain
      have hnone : m.threads[u]? = none := heq ▸ rostered.1.table_next
      have hnew : (run.after program n).Starts program u := by
        refine ⟨?_, fun h => Option.some_ne_none r (hr.symm.trans h)⟩
        rw [hrun, thread?, if_neg hu]
        exact hnone
      obtain ⟨c, hspawn⟩ := spawn_of_new acts hnone fun h => Option.some_ne_none r (hk.symm.trans h)
      have hne : u ≠ mainThread := by
        rintro rfl
        exact absurd (rostered.thread_lt (Option.some_ne_none s) hmain) (Nat.not_lt.2 (Nat.le_of_eq heq.symm))
      refine hrest.mono (fun _ _ _ _ h => h.elim) ?_ (iff_of_true (fun i hi => ?_) trivial) ?_
      · rintro _ rfl
        exact ⟨hne, n, Nat.lt_succ_self n, m.current, c, ⟨m, s, left, hrun, rfl, rfl⟩, hspawn, hnew⟩
      · exact not_executes (fresh.new_of_starts hnew (Nat.le_of_lt_succ hi))
      · exact bases_of_new fun i hi => fresh.new_of_starts hnew hi
    next => exact planned_next hquiet hr hrest
  rw [← past_next_of_eq (calls_eq hr (turned.heap.symm ▸ hplanned))]
  exact hplanned

/-- The thread that ran. -/
theorem planned_self (hp : p ≠ .exited)
    (arrives : k.Arrives plan (run.others program n m) (run.past program n m.current).begun
      m.registers.pc) :
    k.registers.Planned plan k.heap (run.past program (n + 1) m.current) := by
  obtain ⟨σ, bases, hσ, has, rebases⟩ := arrives
  have hself : (run.after program (n + 1)).thread? m.current = some k.registers :=
    turned.self.trans (if_neg hp)
  have hnow : (run.after program (n + 1)).calls m.current = bases.length :=
    calls_eq hself ⟨σ, hσ, turned.heap.symm ▸ has.registers⟩
  have hheight : (run.after program (n + 1)).height m.current = k.registers.stack.length := by
    rw [height, hself]
  have hbases : run.bases program m.current (n + 1) = bases := by
    rw [Run.bases, hnow, hheight]
    exact rebase_of_rebases rebases
  refine Registers.Planned.mono ⟨σ, hσ, has.registers⟩ ?_ (fun _ born => Born.next born)
    (iff_of_false (fun h => h n (Nat.lt_succ_self n) ?_) id) hbases
  rintro start environment inner hsuffix (⟨-, hopened⟩ | ⟨rfl, rfl, rfl⟩)
  · refine Opened.next hopened fun r hr => ?_
    obtain rfl := Option.some.inj (hself.symm.trans hr)
    exact hsuffix
  · refine ⟨n, Nat.lt_succ_self n, ⟨m, s, left, hrun, rfl, rfl⟩, ⟨_, hself, rfl, rfl⟩, ?_⟩
    intro j hj hle r hr
    obtain rfl := Nat.le_antisymm hle hj
    obtain rfl := Option.some.inj (hself.symm.trans hr)
    exact List.suffix_rfl
  · exact ⟨m, s, left, hrun, rfl⟩

end Turned

/-- The run goes on. -/
theorem keeps_turned {k : Machine} {p : Progress} (fresh : run.Fresh)
    (hrun : run.after program n = running m s left) (hstep : m.step program = .ok p k)
    (hmain : (run.after program n).thread? mainThread ≠ none) (hp : ∀ v, p ≠ .finished v)
    (rests : k.Rests plan (run.others program n m))
    (hself : p ≠ .exited → k.Arrives plan (run.others program n m)
      (run.past program n m.current).begun m.registers.pc)
    (hexited : p = .exited → m.current ≠ mainThread) :
    (run.after program (n + 1)).KeepsPlan plan (run.past program (n + 1)) := by
  have sound := fresh.sound_after program n
  rw [hrun] at sound
  have acts := (Machine.Sound.does_step sound program).of_ok hstep
  obtain ⟨leave, woken, started, joins, shifts, -⟩ := acts.passes sound
  have turned := fresh.turned hrun hstep hp
  have hactive := turned.active
  refine ⟨fun _ => ⟨turned.heap.symm ▸ rests.callables, ?_, fun t r hr => ?_⟩, fun _ => ?_,
    fun m' e heq => ?_, fun m' a heq => ?_⟩
  · rw [after_succ_of_running hrun, tick, hstep, builtins_proceed]
    exact rests.builtins
  · rw [turned.heap]
    by_cases ht : t = m.current
    · subst ht
      rw [turned.self] at hr
      split at hr
      next => cases hr
      next hne =>
        obtain rfl := Option.some.inj hr
        exact planned_self hrun turned hne (hself hne)
    · exact planned_other fresh hrun acts turned hmain rests ht hr
  · by_cases ht : mainThread = m.current
    · rw [ht, turned.self, if_neg fun h => hexited h ht.symm]
      exact Option.some_ne_none _
    · have hlt := (fresh.rostered_after program n).thread_lt (hrun ▸ Option.some_ne_none s) hmain
      rw [hrun, thread?, if_neg ht] at hmain
      rw [hrun] at hlt
      rw [turned.other _ ht, shifts.threads_eq (Nat.ne_of_lt hlt)]
      exact hmain
  · rw [heq] at hactive
    exact absurd rfl hactive
  · rw [heq] at hactive
    exact absurd rfl hactive

theorem keeps_fail {pasts : ThreadId → Past} {k : Machine} {e : Fault}
    (he : e.isIllFormed = false) : (fail k e).KeepsPlan plan pasts :=
  ⟨fun h => absurd rfl h, fun h => absurd rfl h, fun _ _ h => by cases h; exact he,
    fun _ _ h => by cases h⟩

/-- An instruction of compiled code keeps to the plan. -/
theorem keeps_stepped (plans : Source.Plans program plan) (small : plan.Small) (fresh : run.Fresh)
    (hrun : run.after program n = running m s left)
    (planned : (run.after program n).Planned plan (run.past program n))
    (hmain : (run.after program n).thread? mainThread ≠ none) :
    (run.after program (n + 1)).KeepsPlan plan (run.past program (n + 1)) := by
  have sound := fresh.sound_after program n
  have hcomes := comes_step plans small hrun (fresh.rostered_after program n) sound planned
  have hnext := after_succ_of_running hrun
  rw [hrun] at sound
  cases hstep : m.step program with
  | error e k =>
    rw [hnext, tick, hstep]
    exact keeps_fail (hcomes.of_error hstep)
  | ok p k =>
    rw [tick, hstep] at hnext
    cases hcomes.of_ok hstep with
    | goesOn hp arrives =>
      have hfinished : ∀ v, p ≠ .finished v := by
        rintro v rfl
        rcases hp with h | h <;> cases h
      have hexited : p ≠ .exited := by
        rintro rfl
        rcases hp with h | h <;> cases h
      obtain ⟨_, _, _, has, _⟩ := id arrives
      exact keeps_turned fresh hrun hstep hmain hfinished has.toRests (fun _ => arrives)
        fun h => absurd h hexited
    | exited born rests =>
      exact keeps_turned fresh hrun hstep hmain (by rintro _ ⟨⟩) rests (fun h => absurd rfl h)
        fun _ => born.1
    | @finished _ a born stack =>
      have acts := (Machine.Sound.does_step sound program).of_ok hstep
      have hcurrent : k.current = m.current := acts.finished.2.current
      rw [hnext]
      refine ⟨fun h => absurd rfl h, fun h => absurd rfl h, fun m' e h => ?_, fun m' b h => ?_⟩
      · cases (ended.inj h).2
      obtain ⟨rfl, hending⟩ := ended.inj h
      obtain rfl := Ending.finished.inj hending
      exact ⟨hcurrent.trans born, stack⟩

/-- Choosing a thread keeps to the plan. -/
theorem keeps_dispatched (fresh : run.Fresh) (hrun : run.after program n = idle m s)
    (planned : (run.after program n).Planned plan (run.past program n))
    (hmain : (run.after program n).thread? mainThread ≠ none) :
    (run.after program (n + 1)).KeepsPlan plan (run.past program (n + 1)) := by
  have hnext : run.after program (n + 1) = dispatch m s := by
    rw [after, hrun]
    rfl
  have moves := fresh.moves program n
  have rostered := fresh.rostered_after program n
  rw [hrun] at rostered
  obtain ⟨roster, -⟩ := rostered
  cases hs : s.next with
  | error e =>
    rw [hnext, dispatch, hs]
    refine keeps_fail ?_
    unfold Scheduler.next at hs
    split at hs
    next => cases hs
    next hready =>
      obtain rfl := Except.error.inj hs
      -- The main thread is blocked if none is ready.
      rw [hrun] at hmain
      have hblocked := (roster.table mainThread).1 (Option.isSome_iff_ne_none.2 hmain)
      rw [hready, or_iff_right List.not_mem_nil] at hblocked
      rw [if_neg fun h => absurd (List.isEmpty_iff.1 h ▸ hblocked) List.not_mem_nil]
      rfl
  | ok chosen =>
    obtain ⟨t, s'⟩ := chosen
    have hbuiltins : (run.after program (n + 1)).machine.builtins =
        (run.after program n).machine.builtins := by
      rw [hnext, hrun, builtins_dispatch]
      rfl
    obtain ⟨m', s'', left, hrunning, -⟩ := (executes_dispatch roster hs).2
    rw [← hnext] at hrunning
    have hnot : (run.after program (n + 1)).Active := by
      rw [hrunning]
      exact Option.some_ne_none s''
    have same : SameView (run.after program n) (run.after program (n + 1)) := by
      cases moves with
      | dispatched _ same => exact same
      | stepped here => cases hrun.symm.trans here
      | stopped _ ended => exact absurd hnot ended
    have hquiet : ∀ u, ¬ (run.after program n).Executes u := by
      rw [hrun]
      rintro u ⟨_, _, _, heq, -⟩
      cases heq
    refine ⟨fun _ => planned.dispatched hquiet same hbuiltins, fun _ => same.thread mainThread ▸ hmain,
      fun _ _ h => ?_, fun _ _ h => ?_⟩
    · cases hrunning.symm.trans h
    · cases hrunning.symm.trans h

end Instructions

/-! ## Runs -/

/-- All states of a run of compiled code keep to the plan if the first one does. -/
theorem Fresh.keeps {plan : Plan} {program : Program} {run : Run} (fresh : run.Fresh)
    (plans : Source.Plans program plan) (small : plan.Small)
    (first : run.KeepsPlan plan (run.past program 0)) (n : Nat) :
    (run.after program n).KeepsPlan plan (run.past program n) := by
  induction n with
  | zero => exact first
  | succ n ih =>
    cases hrun : run.after program n with
    | running m s left =>
      have hactive : (run.after program n).Active := hrun ▸ Option.some_ne_none s
      exact keeps_stepped plans small fresh hrun (ih.planned hactive) (ih.main hactive)
    | idle m s =>
      have hactive : (run.after program n).Active := hrun ▸ Option.some_ne_none s
      exact keeps_dispatched fresh hrun (ih.planned hactive) (ih.main hactive)
    | ended m ending =>
      have hnext : run.after program (n + 1) = ended m ending := by
        rw [after, hrun]
        rfl
      rw [hrun] at ih
      rw [hnext]
      exact ⟨fun h => absurd rfl h, fun h => absurd rfl h, ih.failed, ih.finished⟩

end ChannelMachine.Run

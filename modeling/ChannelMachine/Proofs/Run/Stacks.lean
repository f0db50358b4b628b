import ChannelMachine.Proofs.Run.Planned

/-!
# The stacks of compiled code

What stacks a thread has depends on where it is, and on nothing else: not on the values, nor on the
configuration, nor on how the threads take turns.  So the index of its next instruction tells how many
operands the running function has, how many frames there are in the environment, and how many scopes
are open since the function was called.

A compiled program therefore never ends in a fault of code that was put together wrongly, and its main
thread ends the run with one operand.
-/

namespace ChannelMachine

open Source

namespace Machine.Initial

variable {m : Machine} {config : Config}

/-- The builtins can be called, and nothing else can. -/
theorem callablesFit (hm : m.Initial config standardBuiltins) (plan : Plan) :
    Heap.CallablesFit plan m.heap := by
  intro a ha
  rcases hm.heap.cases ha with hconstant | hframe | henvironment | ⟨slot, hslot, hheader⟩
  · refine ⟨fun h => ?_, fun h => ?_⟩
    · rw [h] at hconstant
      exact absurd hconstant (by decide)
    · rw [h] at hconstant
      exact absurd hconstant (by decide)
  · exact Has.notCalled hframe nofun nofun
  · exact Has.notCalled henvironment nofun nofun
  · refine ⟨fun h => ?_, fun _ => ?_⟩
    · rw [Heap.tag, hheader] at h
      cases h
    · rw [Heap.payload, hheader]
      change (UInt32.ofNat slot).toNat < _
      rw [show (UInt32.ofNat slot).toNat = slot from
        UInt32.toNat_ofNat_of_lt (Nat.lt_trans hslot (by decide))]
      exact hslot

/-- The global environment has one frame. -/
theorem framesOf_global (hm : m.Initial config standardBuiltins) :
    m.heap.framesOf (Heap.globalEnvironment standardBuiltins.length) = [Heap.globalFrame] := by
  have hcount : m.heap.frameCount (Heap.globalEnvironment standardBuiltins.length) = 1 := by
    rw [Heap.frameCount, Heap.size, hm.heap.environment.header]
    rfl
  rw [Heap.framesOf, hcount]
  exact congrArg (fun a => [a]) (hm.heap.environment.word 0 _ rfl)

/-- It has a slot for each builtin. -/
theorem environmentFits (hm : m.Initial config standardBuiltins) :
    m.heap.EnvironmentFits (Heap.globalEnvironment standardBuiltins.length)
      [Scope.builtins.length] := by
  have hsize : m.heap.size Heap.globalFrame = standardBuiltins.length + 1 := by
    rw [Heap.size, hm.heap.frame.header, Heap.toNat_size hm.heap.fits]
  rw [Heap.EnvironmentFits, hm.framesOf_global, List.map_singleton, hsize]
  rfl

end Machine.Initial

namespace Run

variable {m : Machine} {config : Config} {program : Program} {plan : Plan}

/-- A machine that was just built has the main thread, and no other. -/
theorem thread?_begin (hm : m.Initial config standardBuiltins) (s : Scheduler) (t : ThreadId) :
    (begin m s).thread? t = if t = mainThread then
      some (.start (Heap.globalEnvironment standardBuiltins.length)) else none := by
  have hregisters : m.registers = .start (Heap.globalEnvironment standardBuiltins.length) :=
    congrArg Machine.registers hm.eq
  have hcurrent : m.current = mainThread := congrArg Machine.current hm.eq
  have hthreads : m.threads = ∅ := congrArg Machine.threads hm.eq
  change (m.threads.insert m.current m.registers)[t]? = _
  rw [hregisters, hcurrent, hthreads, Std.TreeMap.getElem?_insert]
  by_cases ht : t = mainThread
  · rw [if_pos ht, if_pos (ht ▸ Std.ReflCmp.compare_self)]
  · rw [if_neg ht, if_neg fun h => ht (Std.LawfulEqCmp.eq_of_compare h).symm]
    rfl

/-- The plan knows the main thread of a machine that was just built. -/
theorem keeps_begin (hm : m.Initial config standardBuiltins) (plans : Plans program plan)
    (s : Scheduler) : (begin m s).KeepsPlan plan ((begin m s).past program 0) := by
  refine ⟨fun _ => ⟨hm.callablesFit plan, congrArg Machine.builtins hm.eq, fun t r hr => ?_⟩,
    fun _ => ?_, (fun _ _ h => nomatch h), (fun _ _ h => nomatch h)⟩
  · rw [thread?_begin hm] at hr
    split at hr
    next ht =>
      obtain rfl := Option.some.inj hr
      exact ⟨start, plans.start, .outer .main ht nofun hm.environmentFits, rfl⟩
    next => cases hr
  · rw [thread?_begin hm, if_pos rfl]
    exact Option.some_ne_none _

/-- All states of a run of compiled code keep to its plan. -/
theorem keeps_after (hcreate : Machine.create config standardBuiltins = .ok m)
    (plans : Plans program plan) (hsize : program.code.size < 2 ^ 32) (n : Nat) :
    ((begin m (.create config.maxQuantum config.seed)).after program n).KeepsPlan plan
      ((begin m (.create config.maxQuantum config.seed)).past program n) := by
  have hspec := Machine.create_spec config standardBuiltins (by decide)
  rw [hcreate] at hspec
  refine (fresh_begin hcreate).keeps plans (fun pc σ hσ => ?_) (keeps_begin hspec.1 plans _) n
  obtain ⟨i, hi, -⟩ := plans.follows pc σ hσ
  exact Nat.lt_trans (Array.getElem?_eq_some_iff.1 hi).1 hsize

/-- How high the stacks of a thread are. -/
structure Heights where
  /-- The operands of the function that runs. -/
  operands : Nat
  /-- The frames of the environment. -/
  frames : Nat
  /-- The scopes that are open since the function was called. -/
  scopes : Nat

/-- The heights that a plan gives to an index. -/
def Heights.planned (plan : Plan) (pc : Nat) : Heights :=
  match plan pc with
  | some σ => ⟨σ.height, σ.scopes.length, σ.opened.length⟩
  | none => ⟨0, 0, 0⟩

/-- The heights of the stacks of a thread, of which the bottom belongs to the callers of the function
that runs. -/
def heights (run : Run) (r : Registers) (base : Nat) : Heights where
  operands := r.stack.length - base
  frames := run.machine.heap.frameCount r.environment
  scopes := (r.frames.takeWhile fun a => run.machine.heap.tag a = .blockframe).length

/-- A run whose stacks are as high as a table says for each index, and which does not end in a fault of
code that was put together wrongly. -/
structure WellFormed (program : Program) (run : Run) (table : Nat → Heights) : Prop where
  /-- The stacks are as high as the table says, and the callers of a function keep theirs. -/
  heights : ∀ n t r, (run.after program n).Active → (run.after program n).thread? t = some r →
    (run.bases program t n).headD 0 ≤ r.stack.length ∧
    (run.after program n).heights r ((run.bases program t n).headD 0) = table r.pc
  /-- The run does not end in a fault of code that was put together wrongly. -/
  failed : ∀ n k e, run.after program n = ended k (.failed e) →
    e ≠ .stackUnderflow ∧ e ≠ .returnStackUnderflow ∧ (∀ q, e ≠ .invalidPosition q) ∧
    (∀ size, e ≠ .nodeTooLarge size) ∧ e ≠ .outsideLoop ∧ (∀ slot, e ≠ .unknownBuiltin slot) ∧
    e ≠ .noThreads ∧ e ≠ .type .notBlockframe
  /-- Only the main thread comes to the end, with one operand. -/
  halt : ∀ n k s left, run.after program n = running k s left →
    program.at? k.registers.pc = some .halt → k.current = mainThread ∧ k.registers.stack.length = 1
  /-- It ends the run with this operand. -/
  finished : ∀ n k a, run.after program n = ended k (.finished a) →
    k.current = mainThread ∧ k.registers.stack = [a]

/-- Code that keeps to a plan has the heights that the plan gives. -/
theorem wellFormed (hcreate : Machine.create config standardBuiltins = .ok m)
    (plans : Plans program plan) (hsize : program.code.size < 2 ^ 32) :
    WellFormed program (begin m (.create config.maxQuantum config.seed)) (.planned plan) := by
  refine ⟨fun n t r hactive hr => ?_, fun n k e he => ?_, fun n k s left hrun hhalt => ?_,
    fun n k a ha => ?_⟩
  · obtain ⟨σ, hσ, framed, hheight⟩ :=
      ((keeps_after hcreate plans hsize n).planned hactive).threads t r hr
    refine ⟨hheight ▸ Nat.le_add_right .., ?_⟩
    rw [Heights.planned, hσ, Run.heights, framed.environmentFits.frameCount, framed.length_takeWhile]
    exact congrArg (Heights.mk · _ _) (hheight ▸ Nat.add_sub_cancel_left ..)
  · have he := (keeps_after hcreate plans hsize n).failed k e he
    have hne : ∀ e' : Fault, e'.isIllFormed = true → e ≠ e' := by
      rintro e' h rfl
      rw [he] at h
      cases h
    exact ⟨hne _ rfl, hne _ rfl, fun _ => hne _ rfl, fun _ => hne _ rfl, hne _ rfl,
      fun _ => hne _ rfl, hne _ rfl, hne _ rfl⟩
  · have planned := (keeps_after hcreate plans hsize n).planned (by rw [hrun]; exact nofun)
    rw [hrun] at planned
    obtain ⟨σ, hσ, framed, hheight⟩ := planned.threads k.current k.registers (if_pos rfl)
    obtain ⟨i, hi, follows⟩ := plans.follows _ σ hσ
    obtain rfl := Option.some.inj (hi.symm.trans hhalt)
    cases follows with
    | plain takes => cases takes
    | halt one level =>
      obtain ⟨hbases, origin, outer, born⟩ := framed.bases_eq_nil (level ▸ nofun)
      rw [level] at outer
      cases outer
      rw [hbases, one] at hheight
      exact ⟨born, hheight⟩
  · exact (keeps_after hcreate plans hsize n).finished k a ha

/-- The index tells how high the stacks of a thread are that runs compiled code, whatever the
configuration.  A machine that is not built has no room for its nodes. -/
theorem wellFormed_of_compile {source : Module} (hcompile : source.compile = .ok program)
    (hsize : program.code.size < 2 ^ 32) :
    ∃ table, ∀ config, match Machine.create config standardBuiltins with
      | .ok m => WellFormed program (begin m (.create config.maxQuantum config.seed)) table
      | .error failure => failure.fault = .heapExhausted := by
  obtain ⟨plan, plans, -⟩ := source.exists_plan hcompile
  refine ⟨.planned plan, fun config => ?_⟩
  split
  next m hcreate => exact wellFormed hcreate plans hsize
  next failure hcreate =>
    have hspec := Machine.create_spec config standardBuiltins (by decide)
    rw [hcreate] at hspec
    exact hspec.1

/-- A loop that is left at once. -/
theorem wellFormed_left_at_once : ∃ table, ∀ config,
    match Machine.create config standardBuiltins with
    | .ok m => WellFormed ⟨#[.enterScope 0, .constant (.bool true), .jumpUnless 6, .breakLoop, .pop,
        .jump 1, .loopEnd 5, .exitScope, .constant .undefined, .halt]⟩
        (begin m (.create config.maxQuantum config.seed)) table
    | .error failure => failure.fault = .heapExhausted :=
  have hcompile : Module.compile ⟨[.loop none (some (.bool true)) none [.breakLoop]]⟩ = .ok _ := rfl
  wellFormed_of_compile hcompile (by decide)

end Run

end ChannelMachine

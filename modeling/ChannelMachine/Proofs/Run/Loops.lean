import ChannelMachine.Proofs.Run.Stacks

/-!
# Leaving a loop

The compiler does not say in the code where a `break` or a `continue` goes to: the machine searches for
the end of the loop around.  `Module.enclosing` tells from the syntax which loop each instruction is in.
The search finds the end of that loop, and it counts the scopes that were opened since the loop started
(`leaves_enclosing_loop`).

What comes first in a loop stands inside of the loop.  So a `break` there leaves this loop, although the
compiler counts it as one of the loop around.
-/

namespace ChannelMachine

open Source

namespace Machine

variable {plan : Plan} {program : Program} {past : Past} {m : Machine} {σ : Shape} {i : Inside}

/-- Scopes that were opened in a loop are closed, and the thread goes on elsewhere. -/
theorem ensures_leave (has : m.registers.Has plan m.heap past σ)
    (finds : program.FindsLoop m.registers.pc i)
    (opened : σ.opened[i.scopes]? = some i.loop.start) (isBreak : Bool) :
    Ensures (leave program isBreak) m (fun p k => p = .advanced ∧ ∃ environment,
      past.opened i.loop.start environment (m.registers.frames.drop i.scopes) ∧
      i.scopes < m.registers.frames.length ∧
      (∀ a ∈ m.registers.frames.take i.scopes, m.heap.tag a = .blockframe) ∧
      k = m.withRegisters { m.registers with
        pc := if isBreak then i.loop.marker + 1 else i.loop.next
        environment
        frames := m.registers.frames.drop i.scopes }) fun _ _ => False := by
  have hlt : i.scopes < σ.opened.length := (List.getElem?_eq_some_iff.1 opened).1
  refine .bind (ensures_registersNow ?_)
  rw [finds.search]
  refine .bind (.bind (Has.ensures_exitScopes _ has.framed (Nat.le_of_lt hlt)
    fun environment framed hclosed => ensures_goTo (.pure ⟨rfl, environment, ?_, ?_, hclosed, rfl⟩)))
  -- The innermost of the scopes that stay is the one that the loop opened.
  all_goals
    rw [List.drop_eq_getElem_cons hlt, (List.getElem?_eq_some_iff.1 opened).2] at framed
    obtain ⟨_, _, hframes, -, hopened, -⟩ := framed.exit
  · exact hopened
  · refine Nat.not_le.1 fun hle => ?_
    cases (List.drop_eq_nil_of_le hle).symm.trans hframes

end Machine

namespace Run

/-- An instruction after some steps leaves a loop, or goes on with it: the thread goes on at an index,
where the loop is the innermost one around. -/
structure LeavesLoop (program : Program) (run : Run) (n : Nat) (m : Machine) (i : Inside)
    (target : Nat) : Prop where
  /-- The search ends at the end of the loop. -/
  finds : program.FindsLoop m.registers.pc i
  /-- The scopes that were opened in the loop are open, and so is that of the loop. -/
  length : i.scopes < m.registers.frames.length
  /-- There is a block frame for each of those that are closed. -/
  closed : ∀ a ∈ m.registers.frames.take i.scopes, m.heap.tag a = .blockframe
  /-- The frames that stay and the environment are those that the start of the loop left, and nothing
  else changes. -/
  resumes : ∃ environment,
    run.Opened program m.current n i.loop.start environment (m.registers.frames.drop i.scopes) ∧
    m.step program = .ok .advanced (m.withRegisters { m.registers with
      pc := target, environment, frames := m.registers.frames.drop i.scopes }) ∧
    (run.after program (n + 1)).thread? m.current = some { m.registers with
      pc := target, environment, frames := m.registers.frames.drop i.scopes }

/-- A `break` leaves the innermost loop of its function that it is in, and a `continue` goes on with
it.  A statement is in a loop if it is in the body of the loop or in what comes first in it. -/
theorem leaves_enclosing_loop {source : Module} {program : Program}
    (hcompile : source.compile = .ok program) (hsize : program.code.size < 2 ^ 32) {config : Config}
    {first : Machine} (hcreate : Machine.create config standardBuiltins = .ok first) {n left : Nat}
    {m : Machine} {s : Scheduler}
    (hrun : (begin first (.create config.maxQuantum config.seed)).after program n = running m s left)
    (isBreak : Bool) (hinstr : program.at? m.registers.pc =
      some (if isBreak then .breakLoop else .continueLoop)) :
    ∃ i, source.enclosing[m.registers.pc]? = some (some i) ∧
      LeavesLoop program (begin first (.create config.maxQuantum config.seed)) n m i
        (if isBreak then i.loop.marker + 1 else i.loop.next) := by
  obtain ⟨plan, plans, henclosing⟩ := source.exists_plan hcompile
  have planned := (keeps_after hcreate plans hsize n).planned (hrun ▸ Option.some_ne_none s)
  rw [hrun] at planned
  obtain ⟨σ, hσ, has⟩ := planned.threads m.current m.registers (if_pos rfl)
  obtain ⟨i, inside, finds, opened⟩ : ∃ i, σ.loop = some i ∧ program.FindsLoop m.registers.pc i ∧
      σ.opened[i.scopes]? = some i.loop.start := by
    obtain ⟨instruction, hi, follows⟩ := plans.follows _ σ hσ
    obtain rfl := Option.some.inj (hi.symm.trans hinstr)
    cases isBreak with
    | true =>
      cases follows with
      | plain takes => cases takes
      | breakLoop _ inside finds opened => exact ⟨_, inside, finds, opened⟩
    | false =>
      cases follows with
      | plain takes => cases takes
      | continueLoop _ inside finds opened => exact ⟨_, inside, finds, opened⟩
  refine ⟨i, inside ▸ henclosing _ σ hσ, ?_⟩
  have hleave := Machine.ensures_leave (m := m) has finds opened isBreak
  have hstep : m.step program = Machine.leave program isBreak m := by
    rw [Machine.step_eq hinstr]
    cases isBreak <;> rfl
  obtain ⟨p, k, hok, rfl, environment, hopened, hlength, hclosed, rfl⟩ := hleave.exists_ok
  rw [← hstep] at hok
  have turned := (fresh_begin hcreate).turned hrun hok (by rintro _ ⟨⟩)
  exact ⟨finds, hlength, hclosed, environment, hopened, hok, turned.self⟩

/-- A loop that is left from inside of a scope. -/
def leaving : Module := ⟨[.loop none (some (.bool true)) none [.const "x" .null, .breakLoop]]⟩

/-- The `break` is executed in step eight, and the thread goes on behind the end of the loop. -/
theorem leaves_enclosing_loop_leaving : ∃ program first m s left,
    leaving.compile = .ok program ∧
      Machine.create { heapWords := 200, seed := 7 } standardBuiltins = .ok first ∧
      (begin first (.create 15 7)).after program 8 = running m s left ∧
      m.registers.pc = 7 ∧
      LeavesLoop program (begin first (.create 15 7)) 8 m ⟨⟨0, 10, 11⟩, 1⟩ 12 := by
  obtain ⟨first, hcreate, heq⟩ := exists_sample
  have hcompile : leaving.compile = .ok ⟨#[.enterScope 0, .constant (.bool true), .jumpUnless 11,
    .enterScope 1, .constant .null, .store ⟨2, 0⟩, .pop, .breakLoop, .exitScope, .pop, .jump 1,
    .loopEnd 10, .exitScope, .constant .undefined, .halt]⟩ := rfl
  generalize hprogram : Program.mk _ = program at hcompile
  have hexec : (sample.after program 8).ExecutesAt 0 7 := by
    subst hprogram
    decide +kernel
  have hsize : program.code.size < 2 ^ 32 := by
    subst hprogram
    decide
  have hinstr : program.at? 7 = some .breakLoop := by
    subst hprogram
    rfl
  rw [heq] at hexec
  obtain ⟨m, s, left, hrun, -, hpc⟩ := hexec
  obtain ⟨i, hi, hleaves⟩ := leaves_enclosing_loop hcompile hsize hcreate hrun Bool.true (hpc ▸ hinstr)
  rw [hpc] at hi
  obtain rfl : ⟨⟨0, 10, 11⟩, 1⟩ = i := Option.some.inj (Option.some.inj hi)
  exact ⟨program, first, m, s, left, hcompile, hcreate, hrun, hpc, hleaves⟩

/-- A `break` in what comes first in a loop that stands in the body of another one. -/
def leavingFirst : Module := ⟨[.loop none none none
  [.loop (some (.block [.breakLoop])) (some (.bool false)) none [], .breakLoop]]⟩

/-- It is in the body of the outer loop, which ends at index sixteen, and not in that of the inner one,
which ends at index nine.  It leaves the inner one. -/
theorem leaves_inner_loop_leavingFirst : ∃ program, leavingFirst.compile = .ok program ∧
    program.at? 2 = some .breakLoop ∧ program.at? 9 = some (.loopEnd 8) ∧
    program.at? 16 = some (.loopEnd 15) ∧ (sample.after program 3).ExecutesAt mainThread 2 ∧
    (sample.after program 4).ExecutesAt mainThread 10 :=
  ⟨⟨#[.enterScope 0, .enterScope 0, .breakLoop, .pop, .constant (.bool false), .jumpUnless 9,
    .constant .undefined, .pop, .jump 4, .loopEnd 8, .exitScope, .constant .undefined, .pop,
    .breakLoop, .pop, .jump 1, .loopEnd 15, .exitScope, .constant .undefined, .halt]⟩, rfl, rfl, rfl,
    rfl, by decide +kernel, by decide +kernel⟩

end Run

end ChannelMachine

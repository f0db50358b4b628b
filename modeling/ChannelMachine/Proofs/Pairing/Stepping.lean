import ChannelMachine.Proofs.Pairing.Communication

/-!
# Steps of twins

A step does the same on two machines that are twins, also if the second program has tail calls in
places where the first one calls and then returns.
-/

namespace ChannelMachine

open Heap (Pairing)

/-! ## Programs that differ in tail calls -/

/-- The second program has tail calls in places where the first one calls and then returns, and is
the same everywhere else. -/
def Footing.Admits (f : Footing) (p q : Program) : Prop :=
  ∀ pc, q.at? pc = p.at? pc ∨
    ∃ n, p.at? pc = some (.call n) ∧ q.at? pc = some (.tailCall n) ∧ f.returns (pc + 1) ∧
      pc + 1 < UInt32.size ∧ f.left ≠ []

namespace Footing.Admits

variable {f : Footing} {p q : Program}

theorem refl (f : Footing) (p : Program) : f.Admits p p := fun _ => .inl rfl

theorem size_eq (h : f.Admits p q) : q.code.size = p.code.size := by
  have hnone : ∀ pc : Nat, q.code[pc]? = none ↔ p.code[pc]? = none := by
    intro pc
    rcases h pc with heq | ⟨n, hp, hq, -⟩
    · rw [show q.code[pc]? = p.code[pc]? from heq]
    · rw [show p.code[pc]? = _ from hp, show q.code[pc]? = _ from hq]
      exact iff_of_false (Option.some_ne_none _) (Option.some_ne_none _)
  simp only [Array.getElem?_eq_none_iff] at hnone
  exact Nat.le_antisymm ((hnone _).2 (Nat.le_refl _)) ((hnone _).1 (Nat.le_refl _))

theorem findLoopEnd_eq (h : f.Admits p q) (fuel : Nat) : ∀ pc depth closed,
    q.findLoopEnd fuel pc depth closed = p.findLoopEnd fuel pc depth closed := by
  induction fuel with
  | zero => exact fun _ _ _ => rfl
  | succ fuel ih =>
    intro pc depth closed
    rcases h pc with heq | ⟨n, hp, hq, -⟩
    · cases hi : p.at? pc with
      | none => simp only [Program.findLoopEnd, heq, hi]
      | some i =>
        cases i
        case closure =>
          rcases h (pc + 1) with hnext | ⟨n, hp, hq, -⟩
          · simp only [Program.findLoopEnd, heq, hi, hnext, ih]
          · simp only [Program.findLoopEnd, heq, hi, hp, hq, ih]
        all_goals simp only [Program.findLoopEnd, heq, hi, ih]
    · simp only [Program.findLoopEnd, hp, hq, ih]

theorem loopEndAfter_eq (h : f.Admits p q) (pc : Nat) : q.loopEndAfter pc = p.loopEndAfter pc := by
  rw [Program.loopEndAfter, Program.loopEndAfter, Program.searchBound, Program.searchBound,
    h.size_eq, h.findLoopEnd_eq]

end Footing.Admits

namespace Machine

variable {f : Footing} {ρ : Pairing} {m k : Machine}

section

variable (hm : m.Sound) (hk : k.Sound) (t : Twins f ρ m k)
include hm hk t

theorem twins_closeScope : LeavesTwins f closeScope closeScope m k :=
  (twins_exitScope hm hk t).andThen hm.leaves_exitScope hk.leaves_exitScope
    fun _ _ _ _ _ t => t.leaves_advance

omit hk in
theorem twins_halt : LeavesProgress f halt halt m k := by
  refine .bind (relates_registersNow (.pure ⟨ρ, .even t, ?_⟩))
  have hstack := t.registers.stack
  generalize m.registers.stack = stack at hstack
  generalize k.registers.stack = stack' at hstack
  cases hstack with
  | nil => exact t.undefined hm.toResting
  | cons hab _ => exact hab

theorem twins_execute {p q : Program} (hloop : ∀ pc, q.loopEndAfter pc = p.loopEndAfter pc)
    (i : Instruction) : LeavesProgress f (execute p i) (execute q i) m k := by
  have hgo : ∀ σ, Progress.Matches σ .advanced .advanced := fun _ => rfl
  cases i with
  | constant l => exact (twins_constant hm hk t l).returns hgo
  | load p => exact (twins_load hm hk t p).returns hgo
  | store p => exact (twins_store hm hk t p).returns hgo
  | closure arity entry => exact (twins_closure hm hk t arity entry).returns hgo
  | call n => exact (twins_call hm hk t n false).returns hgo
  | tailCall n => exact (twins_call hm hk t n true).returns hgo
  | ret => exact (twins_ret hm hk t).returns hgo
  | enterScope n => exact (twins_enterScope hm hk t n).returns hgo
  | exitScope => exact (twins_closeScope hm hk t).returns hgo
  | pop => exact (twins_drop t).returns hgo
  | unary op => exact (twins_unary hm hk t op).returns hgo
  | binary op => exact (twins_binary hm hk t op).returns hgo
  | jumpUnless target => exact (twins_jumpUnless t target).returns hgo
  | jump target => exact (t.leaves_goTo target).returns hgo
  | loopEnd _ => exact t.leaves_advance.returns hgo
  | breakLoop => exact twins_leave hm hk t hloop true
  | continueLoop => exact twins_leave hm hk t hloop false
  | spawn n => exact (twins_spawn hm t n).returns hgo
  | endThread => exact .pure ⟨ρ, .even t, rfl⟩
  | newChannel capacity => exact (twins_newChannel hm hk t capacity).returns hgo
  | send => exact twins_send hm hk t
  | receive => exact twins_receive hm hk t
  | newWaitGroup => exact (twins_newWaitGroup hm hk t).returns hgo
  | groupAdd => exact (twins_groupAdd hm hk t).returns hgo
  | groupDone => exact (twins_groupDone hm hk t).returns hgo
  | groupWait => exact twins_groupWait hm hk t
  | halt => exact twins_halt hm t

/-- A step of two programs of which the second one may have tail calls where the first one has
none. -/
theorem twins_step {p q : Program} (hpq : f.Admits p q) :
    LeavesProgress f (step p) (step q) m k := by
  refine .bind (relates_registersNow ?_)
  rw [t.registers.pc]
  rcases hpq m.registers.pc with heq | ⟨n, hp, hq, hreturns, hpc, hbottom⟩
  · rw [heq]
    cases p.at? m.registers.pc with
    | some i => exact twins_execute hm hk t hpq.loopEndAfter_eq i
    | none => exact twins_halt hm t
  · rw [hp, hq]
    exact (twins_call_spent hm hk t n hreturns hpc hbottom).returns fun _ => rfl

end

/-- Where no frame can be spent, the first machine has nothing to catch up. -/
theorem Catches.twins (c : Catches .plain ρ m k) : Twins .plain ρ m k := by
  cases c with
  | even t => exact t
  | out _ _ _ t => exact t
  | behind hreturns => exact hreturns.elim

end Machine

end ChannelMachine

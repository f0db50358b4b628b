import Mathlib.Data.Finset.Card
import Mathlib.Data.Finset.Prod
import Mathlib.Data.Nat.Find
import ChannelMachine.Proofs.Machine.Initial
import ChannelMachine.Proofs.Machine.Instructions
import ChannelMachine.Proofs.Source.Arrangement

/-!
# When the search for the end of a loop ends

The search goes on behind an instruction, and where a function is made it takes the jump over the body.  A
program may aim this jump anywhere.  Which index comes next depends on the index alone, and of two searches at
one index the deeper one ends no earlier (`Scan.Deepens`).  So a search that comes back to an index and is no
less deep there goes round for ever, and any other one ends after at most as many steps as there are pairs of
instructions (`exists_deepens`).  The bound within which the machine searches is above this.

If all bodies are jumped over forwards, no instruction is looked at twice (`Program.SkipsForward`).  Compiled
programs are of this kind.
-/

namespace ChannelMachine

namespace Program

/-! ## Searches step by step -/

/-- Where a search is. -/
structure Scan where
  /-- The index of the instruction that is looked at. -/
  pc : Nat
  /-- How many scopes were opened on the way and not closed. -/
  depth : Nat
  /-- How many other scopes were closed. -/
  closed : Nat

/-- The search from here on, in at most `fuel` steps. -/
def search (p : Program) (fuel : Nat) (s : Scan) : LoopSearch :=
  p.findLoopEnd fuel s.pc s.depth s.closed

/-- The index that is looked at next. -/
def behind (p : Program) (pc : Nat) : Nat :=
  match p.at? pc, p.at? (pc + 1) with
  | some (.closure ..), some (.jump target) => target
  | _, _ => pc + 1

/-- Where the search is after one step, if it goes on. -/
def advance (p : Program) (s : Scan) : Scan :=
  match p.at? s.pc with
  | some (.enterScope _) => ⟨p.behind s.pc, s.depth + 1, s.closed⟩
  | some .exitScope => ⟨p.behind s.pc, s.depth - 1, if s.depth = 0 then s.closed + 1 else s.closed⟩
  | _ => ⟨p.behind s.pc, s.depth, s.closed⟩

/-- Where the search is after some steps, if it goes on. -/
def scanned (p : Program) (n : Nat) (s : Scan) : Scan := p.advance^[n] s

/-- The answer of the search, if it ends here. -/
def answer? (p : Program) (s : Scan) : Option LoopSearch :=
  match p.at? s.pc with
  | none | some .halt => some .outside
  | some (.loopEnd next) => if s.depth = 0 then some (.found ⟨s.pc, next, s.closed⟩) else none
  | _ => none

section Steps

variable {p : Program} {s t : Scan} {fuel n : Nat}

theorem pc_advance (p : Program) (s : Scan) : (p.advance s).pc = p.behind s.pc := by
  unfold advance
  split <;> rfl

theorem scanned_succ (p : Program) (n : Nat) (s : Scan) :
    p.scanned (n + 1) s = p.advance (p.scanned n s) := Function.iterate_succ_apply' ..

theorem scanned_advance (p : Program) (n : Nat) (s : Scan) :
    p.scanned n (p.advance s) = p.scanned (n + 1) s := (Function.iterate_succ_apply ..).symm

/-- A search ends here, or it goes on with the next step. -/
theorem search_succ (p : Program) (fuel : Nat) (s : Scan) :
    p.search (fuel + 1) s = (p.answer? s).getD (p.search fuel (p.advance s)) := by
  obtain ⟨pc, depth, closed⟩ := s
  cases hi : p.at? pc with
  | none => simp [search, findLoopEnd, answer?, hi]
  | some i =>
    cases i with
    | exitScope | loopEnd => cases depth <;> simp [search, findLoopEnd, answer?, advance, behind, hi]
    | closure =>
      cases hj : p.at? (pc + 1) with
      | none => simp [search, findLoopEnd, answer?, advance, behind, hi, hj]
      | some j => cases j <;> simp [search, findLoopEnd, answer?, advance, behind, hi, hj]
    | _ => simp [search, findLoopEnd, answer?, advance, behind, hi]

theorem answer?_ne_unfinished : p.answer? s ≠ some .unfinished := by
  unfold answer?
  split
  next => nofun
  next => nofun
  next => split <;> nofun
  next => nofun

/-- A search that ends looks at an instruction. -/
theorem lt_size_of_goes (goes : p.answer? s = none) : s.pc < p.code.size := by
  refine Nat.not_le.1 fun hle => ?_
  have hnone : p.at? s.pc = none := Array.getElem?_eq_none hle
  rw [answer?, hnone] at goes
  cases goes

/-- A search is not over after so many steps if it has ended at none of them. -/
theorem search_eq_unfinished_iff (fuel : Nat) (s : Scan) :
    p.search fuel s = .unfinished ↔ ∀ k < fuel, p.answer? (p.scanned k s) = none := by
  induction fuel generalizing s with
  | zero => exact iff_of_true rfl fun _ h => absurd h (Nat.not_lt_zero _)
  | succ fuel ih =>
    rw [search_succ, Nat.forall_lt_succ_left']
    cases hanswer : p.answer? s with
    | none =>
      simp only [Option.getD_none, ih, scanned_advance]
      exact (and_iff_right hanswer).symm
    | some answer =>
      refine iff_of_false (fun h => ?_) fun h => ?_
      · exact answer?_ne_unfinished (hanswer.trans (congrArg some h))
      · exact Option.some_ne_none _ (hanswer.symm.trans h.1)

/-- More steps do not change an answer. -/
theorem search_of_le {fuel' : Nat} (hle : fuel ≤ fuel') (ends : p.search fuel s ≠ .unfinished) :
    p.search fuel' s = p.search fuel s := by
  induction fuel generalizing s fuel' with
  | zero => exact absurd rfl ends
  | succ fuel ih =>
    obtain ⟨fuel', rfl⟩ := Nat.exists_eq_add_one_of_ne_zero (Nat.ne_of_gt (Nat.lt_of_lt_of_le fuel.succ_pos hle))
    rw [search_succ] at ends
    rw [search_succ, search_succ]
    cases hanswer : p.answer? s with
    | some answer => rfl
    | none =>
      rw [hanswer] at ends
      exact ih (Nat.le_of_succ_le_succ hle) ends

/-! ## Searches that come back -/

/-- A search is at the index where it was before, and no less deep. -/
structure Scan.Deepens (s t : Scan) : Prop where
  /-- The index. -/
  pc : s.pc = t.pc
  /-- The depth. -/
  depth : s.depth ≤ t.depth

/-- Where a search goes on, a deeper one goes on. -/
theorem Scan.Deepens.goes (deepens : s.Deepens t) (goes : p.answer? s = none) : p.answer? t = none := by
  obtain ⟨hpc, hdepth⟩ := deepens
  unfold answer? at goes ⊢
  rw [← hpc]
  split at goes
  next => cases goes
  next => cases goes
  next =>
    split at goes
    next => cases goes
    next hne => exact if_neg fun hzero => hne (Nat.le_zero.1 (Nat.le_trans hdepth (Nat.le_of_eq hzero)))
  next => rfl

/-- Two searches at one index stay together. -/
theorem Scan.Deepens.advance (deepens : s.Deepens t) : (p.advance s).Deepens (p.advance t) where
  pc := by rw [pc_advance, pc_advance, deepens.pc]
  depth := by
    have hdepth := deepens.depth
    unfold Program.advance
    rw [← deepens.pc]
    split
    · exact Nat.succ_le_succ hdepth
    · exact Nat.sub_le_sub_right hdepth 1
    · exact hdepth

theorem Scan.Deepens.scanned (deepens : s.Deepens t) (n : Nat) :
    (p.scanned n s).Deepens (p.scanned n t) := by
  induction n with
  | zero => exact deepens
  | succ n ih =>
    rw [scanned_succ, scanned_succ]
    exact ih.advance

/-- A search goes round: it comes back to an index and is no less deep there. -/
def GoesRound (p : Program) (s : Scan) : Prop :=
  ∃ i j, i < j ∧ (p.scanned i s).Deepens (p.scanned j s) ∧ ∀ k < j, p.answer? (p.scanned k s) = none

/-- A search that goes round never ends. -/
theorem GoesRound.goes (round : p.GoesRound s) (n : Nat) : p.answer? (p.scanned n s) = none := by
  obtain ⟨i, j, hij, deepens, goes⟩ := round
  induction n using Nat.strongRecOn with
  | ind n ih =>
    rcases Nat.lt_or_ge n j with hlt | hge
    · exact goes n hlt
    -- After `j` steps it does what it did after `i` steps, at the same depth or deeper.
    · obtain ⟨m, rfl⟩ := Nat.exists_eq_add_of_le hge
      have hearlier := ih (i + m) (Nat.add_lt_add_right hij m)
      have hlater := deepens.scanned (p := p) m
      rw [Program.scanned, Program.scanned, Program.scanned, Program.scanned, ← Function.iterate_add_apply,
        ← Function.iterate_add_apply, Nat.add_comm m, Nat.add_comm m] at hlater
      exact hlater.goes hearlier

/-! ## The bound -/

theorem depth_scanned_le (p : Program) (n : Nat) (s : Scan) : (p.scanned n s).depth ≤ s.depth + n := by
  induction n with
  | zero => exact Nat.le_refl _
  | succ n ih =>
    rw [scanned_succ, advance]
    split <;> dsimp only <;> omega

/-- From an index on, the indices are always the same. -/
theorem pc_scanned_add {i j : Nat} (h : (p.scanned i s).pc = (p.scanned j s).pc) (n : Nat) :
    (p.scanned (i + n) s).pc = (p.scanned (j + n) s).pc := by
  induction n with
  | zero => exact h
  | succ n ih =>
    change (p.scanned (i + n + 1) s).pc = (p.scanned (j + n + 1) s).pc
    rw [scanned_succ, scanned_succ, pc_advance, pc_advance, ih]

/-- An index is looked at for the first time while there are instructions that were not looked at. -/
theorem lt_size_of_first (goes : ∀ k ≤ n, p.answer? (p.scanned k s) = none)
    (first : ∀ k < n, (p.scanned k s).pc ≠ (p.scanned n s).pc) : n < p.code.size := by
  have hinj : Set.InjOn (fun k => (p.scanned k s).pc) (Finset.range (n + 1)) := by
    have hne : ∀ i j, i < j → j ≤ n → (p.scanned i s).pc ≠ (p.scanned j s).pc := by
      intro i j hij hj heq
      have hlast := pc_scanned_add heq (n - j)
      rw [Nat.add_sub_cancel' hj] at hlast
      exact first (i + (n - j)) (by omega) hlast
    intro i hi j hj heq
    rw [Finset.coe_range, Set.mem_Iio, Nat.lt_succ_iff] at hi hj
    rcases Nat.lt_trichotomy i j with hlt | rfl | hlt
    · exact absurd heq (hne i j hlt hj)
    · rfl
    · exact absurd heq.symm (hne j i hlt hi)
  have hmaps : Set.MapsTo (fun k => (p.scanned k s).pc) (Finset.range (n + 1))
      (Finset.range p.code.size) := by
    intro k hk
    rw [Finset.coe_range, Set.mem_Iio, Nat.lt_succ_iff] at hk
    rw [Finset.coe_range, Set.mem_Iio]
    exact lt_size_of_goes (goes k hk)
  have hcard := Finset.card_le_card_of_injOn _ hmaps hinj
  rw [Finset.card_range, Finset.card_range] at hcard
  exact hcard

/-- A search that never goes round is at each index less deep than there are instructions. -/
theorem depth_lt_size (hstart : s.depth = 0) (goes : ∀ k ≤ n, p.answer? (p.scanned k s) = none)
    (never : ∀ i < n, ¬ (p.scanned i s).Deepens (p.scanned n s)) :
    (p.scanned n s).depth < p.code.size := by
  classical
  have hexists : ∃ i, (p.scanned i s).pc = (p.scanned n s).pc := ⟨n, rfl⟩
  have hpc := Nat.find_spec hexists
  have hfirst : ∀ k < Nat.find hexists, (p.scanned k s).pc ≠ (p.scanned n s).pc :=
    fun k => Nat.find_min hexists
  have hle : Nat.find hexists ≤ n := Nat.find_min' hexists rfl
  generalize Nat.find hexists = i at hpc hfirst hle
  have hi : i < p.code.size :=
    lt_size_of_first (fun k hk => goes k (Nat.le_trans hk hle)) fun k hk => hpc ▸ hfirst k hk
  have hdepth : (p.scanned n s).depth ≤ (p.scanned i s).depth := by
    rcases Nat.eq_or_lt_of_le hle with rfl | hlt
    · exact Nat.le_refl _
    · exact Nat.le_of_not_le fun hge => never i hlt ⟨hpc, hge⟩
  have hsteps := p.depth_scanned_le i s
  omega

/-- A search that goes on for that long goes round. -/
theorem exists_deepens (hstart : s.depth = 0)
    (goes : ∀ k ≤ p.code.size * p.code.size, p.answer? (p.scanned k s) = none) : p.GoesRound s := by
  by_contra hnever
  have never : ∀ i j, i < j → j ≤ p.code.size * p.code.size →
      ¬ (p.scanned i s).Deepens (p.scanned j s) := by
    intro i j hij hj deepens
    exact hnever ⟨i, j, hij, deepens, fun k hk => goes k (Nat.le_of_lt (Nat.lt_of_lt_of_le hk hj))⟩
  -- There are more steps than pairs of an index and a depth.
  let place : Nat → Nat × Nat := fun k => ((p.scanned k s).pc, (p.scanned k s).depth)
  have hmaps : ∀ k ∈ Finset.range (p.code.size * p.code.size + 1),
      place k ∈ Finset.range p.code.size ×ˢ Finset.range p.code.size := by
    intro k hk
    have hle := Nat.lt_succ_iff.1 (Finset.mem_range.1 hk)
    refine Finset.mem_product.2 ⟨Finset.mem_range.2 (lt_size_of_goes (goes k hle)), Finset.mem_range.2 ?_⟩
    exact depth_lt_size hstart (fun j hj => goes j (Nat.le_trans hj hle)) fun i hi => never i k hi hle
  have hcard : (Finset.range p.code.size ×ˢ Finset.range p.code.size).card <
      (Finset.range (p.code.size * p.code.size + 1)).card := by
    rw [Finset.card_product, Finset.card_range, Finset.card_range]
    exact Nat.lt_succ_self _
  obtain ⟨i, hi, j, hj, hne, heq⟩ := Finset.exists_ne_map_eq_of_card_lt_of_maps_to hcard hmaps
  have hi := Nat.lt_succ_iff.1 (Finset.mem_range.1 hi)
  have hj := Nat.lt_succ_iff.1 (Finset.mem_range.1 hj)
  obtain ⟨hpc, hdepth⟩ := Prod.mk.inj heq
  rcases Nat.lt_or_gt_of_ne hne with hlt | hlt
  · exact never i j hlt hj ⟨hpc, Nat.le_of_eq hdepth⟩
  · exact never j i hlt hi ⟨hpc.symm, Nat.le_of_eq hdepth.symm⟩

theorem lt_searchBound (p : Program) : p.code.size * p.code.size < p.searchBound := by
  have hle := Nat.mul_le_mul (Nat.le_succ p.code.size) (Nat.le_add_right p.code.size 2)
  exact Nat.lt_of_le_of_lt hle (Nat.mul_lt_mul_of_pos_left (Nat.lt_succ_self _) (Nat.succ_pos _))

end Steps

/-! ## Jumps forwards -/

/-- Behind a function the code goes on further down. -/
def SkipsForward (p : Program) : Prop :=
  ∀ pc arity entry target, p.at? pc = some (.closure arity entry) →
    p.at? (pc + 1) = some (.jump target) → pc < target

/-- Then a search looks further down with each step. -/
theorem SkipsForward.le_pc {p : Program} (skips : p.SkipsForward) (s : Scan) (n : Nat) :
    s.pc + n ≤ (p.scanned n s).pc := by
  have hbehind : ∀ pc, pc < p.behind pc := by
    intro pc
    unfold behind
    split
    next hclosure hjump => exact skips pc _ _ _ hclosure hjump
    next => exact Nat.lt_succ_self pc
  induction n with
  | zero => exact Nat.le_refl _
  | succ n ih =>
    rw [scanned_succ, pc_advance]
    exact Nat.lt_of_le_of_lt ih (hbehind _)

/-- It ends when it has looked at everything behind. -/
theorem SkipsForward.ends {p : Program} (skips : p.SkipsForward) (s : Scan) :
    p.search (p.code.size - s.pc + 1) s ≠ .unfinished := by
  intro hsearch
  have goes := (search_eq_unfinished_iff _ s).1 hsearch (p.code.size - s.pc) (Nat.lt_succ_self _)
  have hlt := lt_size_of_goes goes
  have hle := skips.le_pc s (p.code.size - s.pc)
  omega

end Program

/-- Compiled programs jump forwards over the bodies of functions. -/
theorem Source.Module.skipsForward {m : Module} {program : Program} (h : m.compile = .ok program) :
    program.SkipsForward := by
  obtain ⟨n, hsize, hhalt, segment⟩ := Module.exists_segment h
  intro pc arity entry target hclosure hjump
  have hlt : pc < n + 1 := hsize ▸ (Array.getElem?_eq_some_iff.1 hclosure).1
  rcases Nat.eq_or_lt_of_le (Nat.lt_succ_iff.1 hlt) with rfl | hlt
  · cases hclosure.symm.trans hhalt
  obtain ⟨i, hi, stands⟩ := segment.exists_stands (Nat.zero_le _) hlt
  obtain rfl := Option.some.inj (hi.symm.trans hclosure)
  cases stands with
  | straight straight => cases straight
  | closure across body =>
    obtain rfl := Instruction.jump.inj (Option.some.inj (hjump.symm.trans across))
    have := body.le
    omega

namespace Program

variable {p : Program} {pc fuel : Nat}

/-- Where the search for the end of the loop around an index starts. -/
def scanFrom (pc : Nat) : Scan := ⟨pc + 1, 0, 0⟩

theorem loopEndAfter_eq (p : Program) (pc : Nat) : p.loopEndAfter pc = p.search p.searchBound (scanFrom pc) := rfl

/-- The bound of the machine is high enough: without an answer there is none. -/
theorem loopEndAfter_eq_unfinished_iff (p : Program) (pc : Nat) :
    p.loopEndAfter pc = .unfinished ↔ p.GoesRound (scanFrom pc) := by
  rw [loopEndAfter_eq, search_eq_unfinished_iff]
  refine ⟨fun goes => exists_deepens rfl fun k hk => goes k ?_, fun round k _ => round.goes k⟩
  exact Nat.lt_of_le_of_lt hk p.lt_searchBound

/-- With another bound the answer is the same, or there is none. -/
theorem search_eq_or (p : Program) (pc fuel : Nat) :
    p.search fuel (scanFrom pc) = .unfinished ∨ p.search fuel (scanFrom pc) = p.loopEndAfter pc := by
  by_cases hsearch : p.search fuel (scanFrom pc) = .unfinished
  · exact .inl hsearch
  right
  by_cases hend : p.loopEndAfter pc = .unfinished
  · have round := (p.loopEndAfter_eq_unfinished_iff pc).1 hend
    exact absurd ((search_eq_unfinished_iff fuel _).2 fun k _ => round.goes k) hsearch
  · rw [loopEndAfter_eq] at hend ⊢
    rw [← search_of_le (Nat.le_max_left fuel p.searchBound) hsearch,
      ← search_of_le (Nat.le_max_right fuel p.searchBound) hend]

end Program

/-! ## Instructions that leave loops -/

namespace Machine

variable {m : Machine} {program : Program}

/-- A machine starts at the first instruction. -/
theorem pc_create {config : Config} (hcreate : create config standardBuiltins = .ok m) :
    m.registers.pc = 0 := by
  have hspec := create_spec config standardBuiltins (by decide)
  rw [hcreate] at hspec
  rw [hspec.1.eq]
  rfl

/-- Whatever scopes there are, closing some of them leaves the index as it is. -/
theorem ensures_exitScopes_any (n : Nat) : ∀ {m : Machine} {good : Unit → Machine → Prop}
    {bad : Fault → Machine → Prop},
    (∀ k, good () k) → (∀ e k, e = .returnStackUnderflow ∨ e = .type .notBlockframe → bad e k) →
    Ensures (exitScopes n) m good bad := by
  induction n with
  | zero => exact fun hgood _ => .pure (hgood _)
  | succ n ih =>
    intro m good bad hgood hbad
    refine .bind (.bind (ensures_registersNow ?_))
    cases m.registers.frames with
    | nil => exact .throw (hbad _ _ (.inl rfl))
    | cons frame rest =>
      refine .bind (ensures_setRegisters (.bind (ensures_readHeap ?_)))
      split
      next => exact .bind (ensures_readHeap (ensures_setRegisters (ih hgood hbad)))
      next => exact .throw (hbad _ _ (.inr rfl))

theorem step_leave_eq {isBreak : Bool}
    (hinstr : program.at? m.registers.pc = some (if isBreak then .breakLoop else .continueLoop)) :
    m.step program = leave program isBreak m := by
  rw [step_eq hinstr]
  cases isBreak <;> rfl

theorem leave_outside {isBreak : Bool} (hend : program.loopEndAfter m.registers.pc = .outside) :
    leave program isBreak m = .error .outsideLoop m := by
  have h : Ensures (leave program isBreak) m (fun _ _ => False) fun e k => e = .outsideLoop ∧ k = m := by
    refine .bind (ensures_registersNow ?_)
    rw [hend]
    exact .throw ⟨rfl, rfl⟩
  cases hleave : leave program isBreak m with
  | ok p k => exact (h.of_ok hleave).elim
  | error e k =>
    obtain ⟨rfl, rfl⟩ := h.of_error hleave
    rfl

theorem ensures_leave_found (isBreak : Bool) {exit : LoopExit}
    (hend : program.loopEndAfter m.registers.pc = .found exit) :
    Ensures (leave program isBreak) m
      (fun p k => p = .advanced ∧ k.registers.pc = if isBreak then exit.marker + 1 else exit.next)
      (fun e _ => e = .returnStackUnderflow ∨ e = .type .notBlockframe) := by
  refine .bind (ensures_registersNow ?_)
  rw [hend]
  exact .bind (.bind (ensures_exitScopes_any exit.closed (fun k => ensures_goTo (.pure ⟨rfl, rfl⟩))
    fun _ _ h => h))

theorem leave_unfinished {isBreak : Bool} (hend : program.loopEndAfter m.registers.pc = .unfinished) :
    leave program isBreak m = .ok .spinning m := by
  have h : Ensures (leave program isBreak) m (fun p k => p = .spinning ∧ k = m) fun _ _ => False := by
    refine .bind (ensures_registersNow ?_)
    rw [hend]
    exact .pure ⟨rfl, rfl⟩
  obtain ⟨p, k, hok, rfl, rfl⟩ := h.exists_ok
  exact hok

/-- The search for the end of the loop around the next instruction, and what follows from its answer:
the thread goes on at the given index. -/
structure Searches (program : Program) (m : Machine) (target : LoopExit → Nat) : Prop where
  /-- Where bodies are jumped over forwards, the search ends when it has looked once at everything
  behind. -/
  ends : program.SkipsForward → program.loopEndAfter m.registers.pc ≠ .unfinished ∧
    program.findLoopEnd (program.code.size - m.registers.pc) (m.registers.pc + 1) 0 0 =
      program.loopEndAfter m.registers.pc
  /-- So it is in compiled programs. -/
  compiled : ∀ source : Source.Module, source.compile = .ok program → program.SkipsForward
  /-- Whatever the bound, the search gives the answer that the machine gets, or none. -/
  answer : ∀ fuel, program.findLoopEnd fuel (m.registers.pc + 1) 0 0 = .unfinished ∨
    program.findLoopEnd fuel (m.registers.pc + 1) 0 0 = program.loopEndAfter m.registers.pc
  /-- The machine gets none exactly if the search goes round. -/
  endless : program.loopEndAfter m.registers.pc = .unfinished ↔
    program.GoesRound (Program.scanFrom m.registers.pc)
  /-- If there is no loop around, the instruction fails. -/
  outside : program.loopEndAfter m.registers.pc = .outside → m.step program = .error .outsideLoop m
  /-- If there is one, the thread leaves it or goes on with it, unless one of the scopes that are to be
  closed is missing. -/
  found : ∀ exit, program.loopEndAfter m.registers.pc = .found exit → Ensures (step program) m
    (fun p k => p = .advanced ∧ k.registers.pc = target exit)
    (fun e _ => e = .returnStackUnderflow ∨ e = .type .notBlockframe)
  /-- If the search does not end, the thread never gets on. -/
  spins : program.loopEndAfter m.registers.pc = .unfinished → m.step program = .ok .spinning m

/-- In each program the search for the end of a loop ends or goes round, and it ends if all bodies of functions are
jumped over forwards. -/
theorem searches_loop_end (program : Program) (m : Machine) (isBreak : Bool)
    (hinstr : program.at? m.registers.pc = some (if isBreak then .breakLoop else .continueLoop)) :
    Searches program m fun exit => if isBreak then exit.marker + 1 else exit.next := by
  have hstep := step_leave_eq hinstr
  have hlt : m.registers.pc < program.code.size := (Array.getElem?_eq_some_iff.1 hinstr).1
  refine ⟨fun skips => ?_, fun source => Source.Module.skipsForward, program.search_eq_or m.registers.pc,
    program.loopEndAfter_eq_unfinished_iff m.registers.pc, fun hend => hstep.trans (leave_outside hend),
    fun exit hend => ?_, fun hend => hstep.trans (leave_unfinished hend)⟩
  · have hsearch := skips.ends (Program.scanFrom m.registers.pc)
    have hfuel : program.code.size - (m.registers.pc + 1) + 1 = program.code.size - m.registers.pc := by
      omega
    change program.search (program.code.size - (m.registers.pc + 1) + 1) _ ≠ _ at hsearch
    rw [hfuel] at hsearch
    have heq := (program.search_eq_or m.registers.pc _).resolve_left hsearch
    exact ⟨heq ▸ hsearch, heq⟩
  · have h := ensures_leave_found isBreak hend
    unfold Ensures at h ⊢
    rw [hstep]
    exact h

/-- A search that jumps forwards over one function and backwards over another one, and ends. -/
def zigzag : Program := ⟨#[.breakLoop, .closure 0 1, .jump 5, .loopEnd 0, .halt, .enterScope 0, .loopEnd 5,
  .exitScope, .closure 0 0, .jump 3]⟩

/-- The loop around the first instruction ends at index three. -/
theorem searches_loop_end_zigzag : ∃ m,
    Machine.create { heapWords := 200, seed := 7 } standardBuiltins = .ok m ∧
      zigzag.at? m.registers.pc = some .breakLoop ∧
      zigzag.loopEndAfter m.registers.pc = .found ⟨3, 0, 0⟩ ∧
      Searches zigzag m fun exit => exit.marker + 1 := by
  obtain ⟨m, hcreate⟩ := exists_create { heapWords := 200, seed := 7 } (by decide)
  have hpc : m.registers.pc = 0 := pc_create hcreate
  have hinstr : zigzag.at? m.registers.pc = some .breakLoop := by
    rw [hpc]
    rfl
  refine ⟨m, hcreate, hinstr, ?_, searches_loop_end zigzag m true hinstr⟩
  rw [hpc]
  rfl

/-- A search that jumps back to where it started. -/
def circling : Program := ⟨#[.breakLoop, .closure 0 0, .jump 0]⟩

theorem goesRound_circling : circling.GoesRound (Program.scanFrom 0) := by
  refine ⟨0, 2, by decide, ⟨rfl, Nat.le_refl _⟩, fun k hk => ?_⟩
  match k, hk with
  | 0, _ => rfl
  | 1, _ => rfl

/-- It never ends, and the machine stays where it is. -/
theorem not_search_ends_circling : ∃ m,
    Machine.create { heapWords := 200, seed := 7 } standardBuiltins = .ok m ∧
      circling.at? m.registers.pc = some .breakLoop ∧
      (∀ fuel, circling.findLoopEnd fuel (m.registers.pc + 1) 0 0 = .unfinished) ∧
      m.step circling = .ok .spinning m := by
  obtain ⟨m, hcreate⟩ := exists_create { heapWords := 200, seed := 7 } (by decide)
  have hpc : m.registers.pc = 0 := pc_create hcreate
  have hinstr : circling.at? m.registers.pc = some (if true then .breakLoop else .continueLoop) := by
    rw [hpc]
    rfl
  have round : circling.GoesRound (Program.scanFrom m.registers.pc) := by
    rw [hpc]
    exact goesRound_circling
  refine ⟨m, hcreate, hinstr, fun fuel => ?_, (step_leave_eq hinstr).trans (leave_unfinished ?_)⟩
  · exact (Program.search_eq_unfinished_iff fuel (Program.scanFrom m.registers.pc)).2 fun k _ => round.goes k
  · exact (Program.loopEndAfter_eq_unfinished_iff circling m.registers.pc).2 round

end Machine

end ChannelMachine

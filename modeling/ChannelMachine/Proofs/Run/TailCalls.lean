import ChannelMachine.Proofs.Run.Alone
import ChannelMachine.Proofs.Run.Ledger

/-!
# Tail calls

A tail call is a call followed by a return.  Take two programs of which the second one has tail calls
where the first one calls and then returns (`Program.Shortens`), and a thread about to execute such a
call, with block frames, a call frame and `rest` on its return stack.  If nothing interrupts it, it does
the same in both programs (`Machine.SameCall`).

The return stack does not grow with the number of tail calls that are made one after the other
(`Machine.TailCalled.frames_eq`).
-/

namespace ChannelMachine

open Heap (Pairing)

/-- The second program has tail calls in places where the first one calls and then returns, and is the
same everywhere else.  The index of the return is kept in 32 bits. -/
def Program.Shortens (p q : Program) : Prop :=
  ∀ pc, q.at? pc = p.at? pc ∨
    ∃ n, p.at? pc = some (.call n) ∧ q.at? pc = some (.tailCall n) ∧
      p.at? (pc + 1) = some .ret ∧ q.at? (pc + 1) = some .ret ∧ pc + 1 < UInt32.size

namespace Machine

variable {p q : Program} {m k l : Machine} {call : Address} {rest : List Address}

/-! ## Where the called function returns to -/

/-- The return stack has some block frames on top of a call frame and of `rest`. -/
structure StandsOn (m : Machine) (call : Address) (rest : List Address) : Prop where
  /-- The block frames. -/
  frames : ∃ blocks, m.registers.frames = blocks ++ call :: rest ∧
    ∀ a ∈ blocks, m.heap.tag a = .blockframe
  /-- The call frame. -/
  call : m.heap.tag call = .callframe

theorem StandsOn.dropWhile (stands : m.StandsOn call rest) :
    (m.registers.frames.dropWhile fun a => m.heap.tag a = .blockframe) = call :: rest := by
  obtain ⟨blocks, hframes, hblocks⟩ := stands.frames
  rw [hframes, List.dropWhile_append_of_pos (by simpa using hblocks), List.dropWhile_cons_of_neg]
  simp [stands.call]

theorem StandsOn.transport (stands : m.StandsOn call rest)
    (hframes : k.registers.frames = m.registers.frames)
    (same : m.heap.SameFrames k.heap m.registers.frames) : k.StandsOn call rest := by
  obtain ⟨blocks, heq, hblocks⟩ := stands.frames
  rw [heq] at same
  refine ⟨⟨blocks, hframes.trans heq, fun a ha => ?_⟩, ?_⟩
  · exact (same a (List.mem_append_left _ ha)).1.trans (hblocks a ha)
  · exact (same call (by simp)).1.trans stands.call

/-- The running thread is about to call a function of the program. -/
def Calls (m : Machine) (n : Nat) : Prop :=
  ∃ function, m.registers.stack[n]? = some function ∧ m.heap.tag function = .closure

/-- A tail call to a function of the program leaves the nearest call frame on top. -/
theorem Sound.ensures_tailCall (hm : m.Sound) {n : Nat} (calls : m.Calls n)
    (stands : m.StandsOn call rest) :
    Ensures (Machine.call n true) m (fun _ k => k.registers.frames = call :: rest)
      (fun _ _ => True) := by
  obtain ⟨function, hfunction, htag⟩ := calls
  have harguments := hm.live_arguments n
  refine ensures_call_closure hfunction htag (hm.ensures_callClosure
    (List.mem_of_getElem? hfunction) htag (fun _ => trivial) fun _ hctag hcaptured =>
      .bind (ensures_argumentsNow ?_))
  refine .bind (ensures_onHeap ((hm.heap.newArguments_ensures hm.inUse_roots hcaptured hctag
    harguments).mono ?_ fun _ _ _ => trivial))
  rintro inside h ⟨frame, made⟩
  have same := Twins.sameFrames_of_grows made.toGrows
  exact .bind (ensures_registersNow (.bind (ensures_readHeap (ensures_setRegisters
    (stands.transport (k := m.withHeap h) rfl same).dropWhile))))

/-! ## Builtins -/

/-- What a call of a builtin does before the thread goes on. -/
def applyBuiltin (slot n : Nat) : Action Unit := do
  match (← get).builtins[slot]? with
  | none => throw (.unknownBuiltin slot)
  | some entry =>
      if entry.arity ≠ n then throw (.arity entry.arity n)
      let result ← runBuiltin entry.action (← argumentsNow n)
      replace (n + 1) result

theorem callBuiltin_eq (slot n : Nat) (tail : Bool) : callBuiltin slot n tail =
    applyBuiltin slot n >>= fun _ => if tail then ret else advance := by
  funext m
  unfold callBuiltin applyBuiltin
  have hget : (get : Action Machine) m = .ok m m := rfl
  simp only [bind, EStateM.bind, hget]
  cases m.builtins[slot]? with
  | none => rfl
  | some entry =>
    dsimp only
    by_cases harity : entry.arity ≠ n
    · simp only [if_pos harity]
      rfl
    · simp only [if_neg harity]
      have hargs : argumentsNow n m = .ok (m.registers.stack.take n).reverse m := rfl
      simp only [EStateM.bind, hargs]
      cases runBuiltin entry.action (m.registers.stack.take n).reverse m <;> rfl

/-- A builtin leaves the thread where it is. -/
theorem Sound.pc_applyBuiltin (hm : m.Sound) (slot n : Nat) :
    Ensures (applyBuiltin slot n) m (fun _ k => k.registers.pc = m.registers.pc)
      (fun _ _ => True) := by
  have t := hm.twins_self (f := .plain) (Footing.stands_of_partners (.self fun a ha =>
    ⟨rfl, (hm.registers.frames a ha).1⟩))
  refine .bind (.get ?_)
  split
  next => exact .throw trivial
  next entry _ =>
    have hrun : Ensures (runBuiltin entry.action (m.registers.stack.take n).reverse) m
        (fun _ k => k.registers.pc = m.registers.pc) (fun _ _ => True) := by
      have hself := twins_runBuiltin hm hm t entry.action (partners_arguments t n)
      unfold Relates at hself
      unfold Ensures
      cases hx : runBuiltin entry.action (m.registers.stack.take n).reverse m with
      | ok a k =>
        rw [hx] at hself
        exact hself.1
      | error => trivial
    by_cases harity : entry.arity ≠ n
    · simp only [if_pos harity]
      exact .bind (.throw trivial)
    · simp only [if_neg harity]
      exact .bind (ensures_argumentsNow (.bind (hrun.mono (fun _ _ h => ensures_replace h)
        fun _ _ h => h)))

/-- An instruction after which the thread goes on. -/
theorem advances_iff {i : Instruction} {x : Action Unit} (hi : p.at? m.registers.pc = some i)
    (hx : execute p i = proceed x) :
    Advances p m k ↔ ∃ l, x m = .ok () l ∧ k = { l with runnable := [] } := by
  unfold Advances
  rw [step_eq hi, hx]
  unfold proceed
  simp only [bind, EStateM.bind]
  constructor
  · rintro ⟨l, hstep, rfl⟩
    split at hstep
    next hresult =>
      cases hstep
      exact ⟨_, hresult, rfl⟩
    next => cases hstep
  · rintro ⟨l, hresult, rfl⟩
    rw [hresult]
    exact ⟨l, rfl, rfl⟩

/-- A return looks at the frames only. -/
theorem ret_iff : ret m = .ok () k ↔ ∃ call rest,
    (m.registers.frames.dropWhile fun a => m.heap.tag a ≠ .callframe) = call :: rest ∧
      k = m.returned call rest := by
  constructor
  · intro hret
    have hspec : Ensures ret m (fun _ k => ∃ call rest,
        (m.registers.frames.dropWhile fun a => m.heap.tag a ≠ .callframe) = call :: rest ∧
          k = m.returned call rest) (fun _ _ => True) := by
      refine .bind (ensures_registersNow (.bind (ensures_readHeap ?_)))
      split
      next => exact .bind (ensures_setRegisters (.throw trivial))
      next call rest hframes =>
        exact .bind (ensures_readHeap (.bind (ensures_readHeap (ensures_setRegisters
          ⟨call, rest, hframes, rfl⟩))))
    exact hspec.of_ok hret
  · rintro ⟨call, rest, hframes, rfl⟩
    exact ret_eq hframes

/-- A call of a builtin and the return behind it lead to where a tail call of it leads. -/
theorem Sound.advances_builtin (hm : m.Sound) {n : Nat} {function : Address}
    (hcall : p.at? m.registers.pc = some (.call n))
    (htail : q.at? m.registers.pc = some (.tailCall n))
    (hret : p.at? (m.registers.pc + 1) = some .ret)
    (hfunction : m.registers.stack[n]? = some function)
    (htag : m.heap.tag function = .builtin) :
    Advances q m k ↔ ∃ l, Advances p m l ∧ Advances p l k := by
  have hpc := hm.pc_applyBuiltin (m.heap.payload function).toNat n
  simp only [advances_iff hcall rfl, advances_iff htail rfl, call_builtin_eq _ hfunction htag,
    callBuiltin_eq]
  simp only [bind, EStateM.bind]
  cases hx : applyBuiltin (m.heap.payload function).toNat n m with
  | error => simp
  | ok u x =>
    -- The return is executed one instruction later, which it does not look at.
    let y : Machine := x.withRegisters { x.registers with pc := x.registers.pc + 1 }
    have hat : p.at? ({ y with runnable := [] } : Machine).registers.pc = some .ret := by
      rw [← hret, ← hpc.of_ok hx]
      rfl
    have hadvance : advance x = .ok () y := rfl
    simp only [if_pos, Bool.false_eq_true, if_false, hadvance]
    constructor
    · rintro ⟨l, hl, rfl⟩
      obtain ⟨call, rest, hframes, rfl⟩ := ret_iff.1 hl
      exact ⟨_, ⟨y, rfl, rfl⟩, (advances_iff hat rfl).2
        ⟨_, ret_iff.2 ⟨call, rest, hframes, rfl⟩, rfl⟩⟩
    · rintro ⟨_, ⟨_, heq, rfl⟩, hadv⟩
      obtain rfl : y = _ := (EStateM.Result.ok.inj heq).2
      obtain ⟨_, hl, rfl⟩ := (advances_iff hat rfl).1 hadv
      obtain ⟨call, rest, hframes, rfl⟩ := ret_iff.1 hl
      exact ⟨_, ret_iff.2 ⟨call, rest, hframes, rfl⟩, rfl⟩

/-! ## Tail calls one after the other -/

/-- The running thread makes tail calls to functions of the program, one after the other, where each of
them is made by what the one before has called: the nearest call frame stays `call`. -/
inductive TailCalled (program : Program) (call : Address) (rest : List Address) :
    Nat → Machine → Machine → Prop where
  | refl (m : Machine) : TailCalled program call rest 0 m m
  | next {count n : Nat} {m k l x : Machine} : TailCalled program call rest count m k →
      Runs program rest k l → program.at? l.registers.pc = some (.tailCall n) → l.Calls n →
      l.StandsOn call rest → Advances program l x → TailCalled program call rest (count + 1) m x

namespace TailCalled

variable {program : Program} {count : Nat}

theorem sound (called : TailCalled program call rest count m k) (hm : m.Sound) : k.Sound := by
  induction called with
  | refl => exact hm
  | next _ run _ _ _ adv ih => exact adv.sound (run.sound (ih hm))

/-- After any number of tail calls the nearest call frame lies on top. -/
theorem frames_eq (called : TailCalled program call rest count m k) (hm : m.Sound)
    (hcount : count ≠ 0) : k.registers.frames = call :: rest := by
  cases called with
  | refl => exact absurd rfl hcount
  | next before run htail calls stands adv =>
    obtain ⟨l, hcall, rfl⟩ := (advances_iff htail rfl).1 adv
    have hframes := ((run.sound (before.sound hm)).ensures_tailCall calls stands).of_ok hcall
    exact hframes

end TailCalled

/-! ## The law -/

/-- From a call in the first program on, and from a tail call in its place in the second one, a thread
that nothing interrupts does the same. -/
structure SameCall (p q : Program) (call : Address) (rest : List Address) (m : Machine) : Prop where
  /-- If it comes to `rest` after the call, it does after the tail call, in the same state. -/
  returns : ∀ k, Returns p rest m k → ∃ k' ρ, Returns q rest m k' ∧ Renamed ρ k k' ∧
    k.registers.pc = (m.heap.payload call).toNat
  /-- If it comes to `rest` after the tail call, it does after the call. -/
  returns_back : ∀ k', Returns q rest m k' → ∃ k ρ, Returns p rest m k ∧ Renamed ρ k k' ∧
    k'.registers.pc = (m.heap.payload call).toNat
  /-- If it ends in a fault after the call, it does after the tail call, in the same one. -/
  fails : ∀ fault k, Fails p rest fault m k → ∃ k', Fails q rest fault m k' ∧ k'.output = k.output
  /-- If it ends in a fault after the tail call, it does after the call. -/
  fails_back : ∀ fault k', Fails q rest fault m k' →
    ∃ k, Fails p rest fault m k ∧ k'.output = k.output
  /-- A builtin is called in one instruction and returned from in the next one, or both in one. -/
  builtin : ∀ n function, q.at? m.registers.pc = some (.tailCall n) →
    m.registers.stack[n]? = some function → m.heap.tag function = .builtin →
    ∀ k, Advances q m k ↔ ∃ l, Advances p m l ∧ Advances p l k
  /-- After tail calls to functions the nearest call frame lies on top, however many there were. -/
  depth : ∀ count k, count ≠ 0 → TailCalled q call rest count m k →
    k.registers.frames = call :: rest

theorem admits_footing (hpq : p.Shortens q) (resume : Nat) (call : Address)
    (rest : List Address) : (footing p resume call rest).Admits p q := by
  intro pc
  rcases hpq pc with heq | ⟨n, hp, hq, hret, -, hlt⟩
  · exact .inl heq
  · exact .inr ⟨n, hp, hq, hret, hlt, List.cons_ne_nil _ _⟩

theorem StandsOn.trails (stands : m.StandsOn call rest) (hm : m.Sound) (hidle : m.runnable = []) :
    Trails (footing p (m.heap.payload call).toNat call rest) m m := by
  obtain ⟨blocks, hframes, -⟩ := stands.frames
  have hself : ∀ l : List Address, (∀ a ∈ l, a ∈ m.registers.frames) →
      Heap.Partners m.heap.selves l l := fun l hl =>
    .self fun a ha => ⟨rfl, (hm.registers.frames a (hl a ha)).1⟩
  refine ⟨hm, hm, hidle, _, .even (hm.twins_self ?_)⟩
  rw [hframes] at hself ⊢
  refine Footing.stands_append (hself _ fun a => List.mem_append_left _)
    (hself _ fun a => List.mem_append_right _) ?_
  rintro _ ⟨⟩
  exact ⟨stands.call, rfl⟩

/-- A tail call is a call followed by a return, if there are nodes enough for the call. -/
theorem call_ret_eq_tailCall (hpq : p.Shortens q) (hm : m.Sound) (hidle : m.runnable = []) {n : Nat}
    (hcall : p.at? m.registers.pc = some (.call n))
    (htail : q.at? m.registers.pc = some (.tailCall n)) (stands : m.StandsOn call rest)
    (room : ∀ l, ¬ Fails p rest .heapExhausted m l) : SameCall p q call rest m := by
  have tr : Trails (footing p (m.heap.payload call).toNat call rest) m m := stands.trails hm hidle
  have admits := admits_footing hpq (m.heap.payload call).toNat call rest
  have hret : p.at? (m.registers.pc + 1) = some .ret := by
    rcases hpq m.registers.pc with heq | ⟨_, -, -, hret, -⟩
    · rw [hcall, htail] at heq
      cases heq
    · exact hret
  refine ⟨fun k h => ?_, fun k' h => ?_, fun fault k h => tr.fails admits room h,
    fun fault k' h => tr.fails_back admits room h, fun n' function htail' hfunction htag k => ?_,
    fun count k hcount called => called.frames_eq hm hcount⟩
  · obtain ⟨k', ρ, h', -, -, left⟩ := tr.returns admits h
    exact ⟨k', ρ, h', left.twins.renamed, left.pc⟩
  · obtain ⟨k, ρ, h', -, -, left⟩ := tr.returns_back admits room h
    exact ⟨k, ρ, h', left.twins.renamed, left.twins.registers.pc.trans left.pc⟩
  · obtain rfl : n = n' := by
      rw [htail] at htail'
      cases htail'
      rfl
    exact hm.advances_builtin hcall htail hret hfunction htag

/-! ## A function that calls another one -/

/-- Whether a thread that nothing interrupts has a return stack of a length after `n` instructions, and
a longer one before. -/
def reachesDepth (program : Program) (depth : Nat) : Nat → Machine → Bool
  | 0, m => m.registers.frames.length == depth
  | n + 1, m =>
      depth < m.registers.frames.length &&
        match m.step program with
        | .ok .advanced l => reachesDepth program depth n { l with runnable := [] }
        | _ => false

theorem exists_returns_of_reachesDepth {program : Program} (n : Nat) : ∀ {m : Machine},
    reachesDepth program 0 n m = true → ∃ k, Returns program [] m k := by
  induction n with
  | zero => exact fun {m} h => ⟨m, .refl m, List.eq_nil_of_length_eq_zero (by simpa [reachesDepth] using h)⟩
  | succ n ih =>
    intro m h
    rw [reachesDepth, Bool.and_eq_true, decide_eq_true_eq] at h
    obtain ⟨hlt, h⟩ := h
    split at h
    next l hstep =>
      obtain ⟨k, run, hframes⟩ := ih h
      exact ⟨k, .step hlt ⟨l, hstep, rfl⟩ run, hframes⟩
    next => cases h

/-- The function at index three calls the one at index six and returns. -/
def calling (tail : Bool) : Program := ⟨#[.closure 0 3, .call 0, .halt, .closure 0 6,
  if tail then .tailCall 0 else .call 0, .ret, .constant .null, .ret]⟩

/-- A run in a heap of thirty nodes. -/
def roomy : Run :=
  Run.ofBuilt (Machine.create { heapWords := 300, seed := 7 } standardBuiltins)

theorem shortens_calling : (calling false).Shortens (calling true) := by
  intro pc
  by_cases hpc : pc = 4
  · subst hpc
    exact .inr ⟨0, rfl, rfl, rfl, rfl, by decide⟩
  · refine .inl ?_
    have hat : ∀ tail, (calling tail).at? pc = ((calling false).code.set! 4
        (if tail then .tailCall 0 else .call 0))[pc]? := fun tail => by cases tail <;> rfl
    rw [hat true, hat false]
    simp [Ne.symm hpc]

open Run in
/-- After four steps the inner call is about to be made.  It is made and returned from, and so is the
outer one. -/
theorem call_ret_eq_tailCall_calling : ∃ first m s left call,
    Machine.create { heapWords := 300, seed := 7 } standardBuiltins = .ok first ∧
      (begin first (.create 15 7)).after (calling false) 4 = .running m s left ∧
      m.registers.pc = 4 ∧ (∃ k, Returns (calling false) [] m k) ∧
      SameCall (calling false) (calling true) call [] m := by
  obtain ⟨first, hcreate⟩ := exists_create { heapWords := 300, seed := 7 } (by decide)
  have heq : roomy = begin first (.create 15 7) := congrArg ofBuilt hcreate
  obtain ⟨hexec, hlength, htag, hidle, hdepth⟩ :
      (roomy.after (calling false) 4).ExecutesAt mainThread 4 ∧
      (roomy.after (calling false) 4).machine.registers.frames.length = 1 ∧
      (∀ a ∈ (roomy.after (calling false) 4).machine.registers.frames,
        (roomy.after (calling false) 4).machine.heap.tag a = .callframe) ∧
      (roomy.after (calling false) 4).machine.runnable = [] ∧
      reachesDepth (calling false) 0 4 (roomy.after (calling false) 4).machine = true := by
    decide +kernel
  rw [heq] at hexec hlength htag hidle hdepth
  obtain ⟨m, s, left, hrun, -, hpc⟩ := hexec
  rw [hrun] at hlength htag hidle hdepth
  have hsound := (reaches_after (calling false) (begin first (.create 15 7)) 4).sound_of_create hcreate
  rw [hrun] at hsound
  obtain ⟨call, hframes⟩ := List.length_eq_one_iff.1 hlength
  have stands : m.StandsOn call [] :=
    ⟨⟨[], hframes, fun _ h => nomatch h⟩, htag call (hframes ▸ List.mem_singleton.2 rfl)⟩
  obtain ⟨k, hreturns⟩ := exists_returns_of_reachesDepth 4 hdepth
  have hcall : (calling false).at? m.registers.pc = some (.call 0) := by
    rw [hpc]
    rfl
  have htail : (calling true).at? m.registers.pc = some (.tailCall 0) := by
    rw [hpc]
    rfl
  exact ⟨first, m, s, left, call, hcreate, hrun, hpc, ⟨k, hreturns⟩,
    call_ret_eq_tailCall shortens_calling hsound hidle hcall htail stands fun _ =>
      hreturns.not_fails⟩

end Machine

end ChannelMachine

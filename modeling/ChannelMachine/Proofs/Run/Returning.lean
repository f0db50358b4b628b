import ChannelMachine.Proofs.Machine.Origins
import ChannelMachine.Proofs.Run.Isolation
import ChannelMachine.Proofs.Run.Stacks

/-!
# Where calls and returns go on

The index of an instruction lies in a node for a while: the entry of a function from the time when the function
is made, and the index behind a call until the call returns.  A node has 32 bits for it, and so this index comes
back as its remainder (`Run.KeepsIndices`).  A jump keeps all of its target, and therefore a call of a function
need not go where a jump to its entry would go (`Run.not_keeps_entry_distant`).

`Remembers` is the invariant.  Each function that is live was made in an earlier step and has been live since, and
each call frame was pushed by a call of the thread on whose return stack it lies.  No collection and no
other instruction touches these nodes meanwhile.
-/

namespace ChannelMachine.Run

variable {program : Program} {run : Run} {n : Nat} {t : ThreadId} {a : Address}

/-! ## Origins -/

/-- A function was made in a step by the instruction for it, and it has been live since. -/
structure MadeIn (program : Program) (run : Run) (n : Nat) (a : Address) (i arity entry : Nat) : Prop where
  /-- The step is an earlier one. -/
  before : i < n
  /-- The instruction pushed the function. -/
  made : ∃ m s left p k, run.after program i = running m s left ∧
    program.at? m.registers.pc = some (.closure arity entry) ∧ m.step program = .ok p k ∧
    k.registers.stack = a :: m.registers.stack
  /-- It has been live. -/
  live : ∀ j, i < j → j ≤ n →
    (run.after program j).machine.heap.Live (run.after program j).machine.roots a

/-- A call frame was pushed in a step by a call of a thread that had these registers, and it has been on the
return stack of the thread since. -/
structure PushedIn (program : Program) (run : Run) (n : Nat) (t : ThreadId) (a : Address) (i : Nat)
    (r : Registers) : Prop where
  /-- The step is an earlier one. -/
  before : i < n
  /-- The call pushed the frame. -/
  called : ∃ m s left p k count, run.after program i = running m s left ∧ m.current = t ∧
    m.registers = r ∧ program.at? r.pc = some (.call count) ∧ m.step program = .ok p k ∧
    k.registers.frames = a :: r.frames
  /-- It has been on the stack, with the same frames below. -/
  kept : ∀ j, i < j → j ≤ n → ∃ r', (run.after program j).thread? t = some r' ∧
    (a :: r.frames) <:+ r'.frames

/-- Where the functions and the frames to return to come from, and what is written in them. -/
structure Remembers (program : Program) (run : Run) (n : Nat) : Prop where
  /-- The functions. -/
  functions : ∀ a, (run.after program n).machine.heap.Live (run.after program n).machine.roots a →
    (run.after program n).machine.heap.tag a = .closure → ∃ i arity entry,
      run.MadeIn program n a i arity entry ∧ (run.after program n).machine.heap.word a 1 = arity ∧
        (run.after program n).machine.heap.payload a = .ofNat entry
  /-- The call frames. -/
  frames : ∀ t r a rest, (run.after program n).thread? t = some r → (a :: rest) <:+ r.frames →
    (run.after program n).machine.heap.tag a = .callframe → ∃ i r',
      run.PushedIn program n t a i r' ∧ r'.frames = rest ∧
        (run.after program n).machine.heap.payload a = .ofNat (r'.pc + 1) ∧
        (run.after program n).machine.heap.word a 1 = r'.environment

/-! ## One step -/

/-- What is live is live through what the threads have in their registers. -/
theorem live_of_threads (rostered : run.Rostered) (sound : run.Sound) (hactive : run.Active)
    {roots : List Address}
    (hthreads : ∀ t r, run.thread? t = some r → ∀ b ∈ r.roots, run.machine.heap.Live roots b)
    (ha : run.machine.heap.Live run.machine.roots a) : run.machine.heap.Live roots a := by
  refine ha.trans sound.heap.toIntact fun b hb => ?_
  cases run with
  | running m s left =>
    rcases mem_threadRoots.1 hb with hroot | ⟨t, r, hr, hroot⟩
    · exact hthreads m.current m.registers (if_pos rfl) b hroot
    · refine hthreads t r ((if_neg ?_).trans hr) b hroot
      rintro rfl
      exact absurd (rostered.1.table_running rostered.2) (hr ▸ Option.some_ne_none r)
  | idle m s =>
    have hm : AtRest m := sound
    rcases mem_threadRoots.1 hb with hroot | ⟨t, r, hr, hroot⟩
    · replace hroot : b ∈ m.registers.roots := hroot
      rw [hm.idle] at hroot
      obtain rfl : b = Heap.undefined := List.mem_singleton.1 hroot
      exact hm.heap.toIntact.live_constant (i := 4) (by decide)
    · exact hthreads t r hr b hroot
  | ended m ending => exact absurd rfl hactive

theorem MadeIn.succ {i arity entry : Nat} (made : run.MadeIn program n a i arity entry)
    (ha : (run.after program (n + 1)).machine.heap.Live (run.after program (n + 1)).machine.roots a) :
    run.MadeIn program (n + 1) a i arity entry where
  before := Nat.lt_succ_of_lt made.before
  made := made.made
  live := by
    intro j hij hj
    rcases Nat.lt_or_eq_of_le hj with hlt | rfl
    · exact made.live j hij (Nat.le_of_lt_succ hlt)
    · exact ha

theorem PushedIn.succ {i : Nat} {r r' : Registers} (pushed : run.PushedIn program n t a i r)
    (hr' : (run.after program (n + 1)).thread? t = some r') (suffix : (a :: r.frames) <:+ r'.frames) :
    run.PushedIn program (n + 1) t a i r where
  before := Nat.lt_succ_of_lt pushed.before
  called := pushed.called
  kept := by
    intro j hij hj
    rcases Nat.lt_or_eq_of_le hj with hlt | rfl
    · exact pushed.kept j hij (Nat.le_of_lt_succ hlt)
    · exact ⟨r', hr', suffix⟩

/-- While no instruction is executed, nothing is forgotten. -/
theorem Remembers.dispatched (remembers : run.Remembers program n) (fresh : run.Fresh)
    (hactive : (run.after program (n + 1)).Active)
    (same : SameView (run.after program n) (run.after program (n + 1))) :
    run.Remembers program (n + 1) := by
  have hheap := same.heap
  refine ⟨fun a ha htag => ?_, fun t r a rest hr suffix htag => ?_⟩
  · have hlive : (run.after program n).machine.heap.Live (run.after program n).machine.roots a := by
      rw [← hheap]
      refine live_of_threads (fresh.rostered_after program (n + 1)) (fresh.sound_after program (n + 1))
        hactive (fun t r hr b hb => ?_) ha
      exact .root (mem_roots_of_registers (same.thread t ▸ hr) hb)
    rw [hheap] at htag ⊢
    obtain ⟨i, arity, entry, made, harity, hentry⟩ := remembers.functions a hlive htag
    exact ⟨i, arity, entry, made.succ ha, harity, hentry⟩
  · rw [hheap] at htag ⊢
    obtain ⟨i, r', pushed, rfl, hpc, henv⟩ :=
      remembers.frames t r a rest (same.thread t ▸ hr) suffix htag
    exact ⟨i, r', pushed.succ hr suffix, rfl, hpc, henv⟩

section Stepped

open Machine

variable {m k : Machine} {s : Scheduler} {left : Nat} {p : Progress} {e : Effect} {f : Nat → Address}
  {i : Instruction}

/-- A new function has the entry that the instruction names. -/
theorem of_made_closure (hm : m.Sound) (he : m.effectOf? program i = some e)
    (realizes : Realizes m k e f) {j : Nat} (hj : j < e.made.length)
    (htag : k.heap.tag (f j) = .closure) : ∃ arity entry, i = .closure arity entry ∧
      k.registers.stack = f j :: m.registers.stack ∧ k.heap.word (f j) 1 = arity ∧
      k.heap.payload (f j) = .ofNat entry := by
  obtain ⟨header, words, hmade⟩ : ∃ header words, e.made[j]? = some (.node header words) := by
    cases hmade : e.made[j] with
    | node header words => exact ⟨header, words, by rw [List.getElem?_eq_getElem hj, hmade]⟩
    | text text =>
      have hstring := (realizes.heap.string j text (by rw [List.getElem?_eq_getElem hj, hmade])).2.1
      rw [htag] at hstring
      cases hstring
  have new := realizes.heap.node j header words hmade
  have hheader : header.tag = .closure := by rw [← new.toHolds.tag, htag]
  obtain ⟨arity, entry, rfl⟩ := hm.functional he header words (List.mem_of_getElem? hmade) hheader
  cases hasEffect_of_effectOf? he
  obtain rfl : j = 0 := Nat.lt_one_iff.1 hj
  obtain ⟨rfl, rfl⟩ := Blueprint.node.inj (Option.some.inj hmade)
  refine ⟨arity, entry, rfl, ?_, new.toHolds.word 0 arity rfl, ?_⟩
  · rw [realizes.outline]
    exact congrArg (f 0 :: ·) (map_placed_known f _)
  · rw [Heap.payload, new.toHolds.header]
    rfl

/-- What an instruction does to the return stack of its thread. -/
theorem of_suffix_frames (hm : m.Sound) (he : m.effectOf? program i = some e)
    (realizes : Realizes m k e f) {rest : List Address} (suffix : (a :: rest) <:+ k.registers.frames)
    (htag : k.heap.tag a = .callframe) : (a :: rest) <:+ m.registers.frames ∨
      (∃ count, i = .call count) ∧ k.registers.frames = a :: m.registers.frames ∧
        rest = m.registers.frames ∧ k.heap.payload a = .ofNat (m.registers.pc + 1) ∧
        k.heap.word a 1 = m.registers.environment := by
  have houtline : k.registers.frames = e.registers.frames.map (Ref.placed f) := by
    rw [realizes.outline]
    rfl
  cases hm.reframes he with
  | leaves outer eq =>
    rw [houtline, eq, map_placed_known] at suffix
    exact .inl (suffix.trans outer)
  | enters eq =>
    subst eq
    have hframes : k.registers.frames = f 0 :: m.registers.frames := by
      rw [houtline]
      exact congrArg (f 0 :: ·) (map_placed_known f _)
    rw [hframes, List.suffix_cons_iff] at suffix
    rcases suffix with heq | suffix
    · obtain ⟨rfl, -⟩ := List.cons.inj heq
      have hblock := (realizes.heap.node 0 _ _ rfl).toHolds.tag
      rw [htag] at hblock
      cases hblock
    · exact .inl suffix
  | calls call eq =>
    subst eq
    have hframes : k.registers.frames = f 0 :: m.registers.frames := by
      rw [houtline]
      exact congrArg (f 0 :: ·) (map_placed_known f _)
    rw [hframes, List.suffix_cons_iff] at suffix
    rcases suffix with heq | suffix
    · obtain ⟨rfl, rfl⟩ := List.cons.inj heq
      have holds := (realizes.heap.node 0 _ _ rfl).toHolds
      refine .inr ⟨⟨_, call⟩, hframes, rfl, ?_, holds.word 0 m.registers.environment rfl⟩
      rw [Heap.payload, holds.header]
      rfl
    · exact .inl suffix

/-- An instruction forgets nothing. -/
theorem Remembers.stepped (remembers : run.Remembers program n) (fresh : run.Fresh)
    (here : run.after program n = running m s left) (hm : m.Sound) (hstep : m.step program = .ok p k)
    (hactive : (run.after program (n + 1)).Active)
    (turned : Turned (running m s left) (run.after program (n + 1)) m k p) :
    run.Remembers program (n + 1) := by
  have performs : Performs (step program) m (m.effect? program) := hm.performs_step
  obtain ⟨e, f, he, -, realizes⟩ := performs.of_ok hstep
  have steady := realizes.steady hm he
  have hheap := turned.heap
  obtain ⟨hfunctions, hframes⟩ := remembers
  rw [here] at hfunctions hframes
  refine ⟨fun a ha htag => ?_, fun t r a rest hr suffix htag => ?_⟩
  · have hlive : k.heap.Live k.roots a := by
      rw [← hheap]
      refine live_of_threads (fresh.rostered_after program (n + 1)) (fresh.sound_after program (n + 1))
        hactive (fun t r hr b hb => ?_) ha
      rw [hheap]
      by_cases ht : t = m.current
      · rw [ht, turned.self] at hr
        split at hr
        next => cases hr
        next => exact .root (mem_threadRoots.2 (.inl (Option.some.inj hr ▸ hb)))
      · rw [turned.other t ht] at hr
        exact .root (mem_threadRoots.2 (.inr ⟨t, r, hr, hb⟩))
    rw [hheap] at htag ⊢
    rcases realizes.live_or_made hm hlive with hold | ⟨j, hj, rfl⟩
    · have htag' : m.heap.tag a = .closure := (realizes.heap.tag hold).symm.trans htag
      have same := steady.same a hold (by rw [htag']; rfl)
      obtain ⟨i, arity, entry, made, harity, hentry⟩ := hfunctions a hold htag'
      refine ⟨i, arity, entry, made.succ ha, ?_, same.payload.trans hentry⟩
      exact (same.word 1 (by decide) (by decide)).trans harity
    · obtain ⟨arity, entry, hinstr, hstack, harity, hentry⟩ := of_made_closure hm he realizes hj htag
      refine ⟨n, arity, entry, ⟨Nat.lt_succ_self n, ⟨m, s, left, p, k, here, ?_, hstep, hstack⟩,
        fun j hn hj => Nat.le_antisymm hj hn ▸ ha⟩, harity, hentry⟩
      exact Program.at?_of_getD hinstr nofun
  · rw [hheap] at htag ⊢
    have hkept : ∀ r₀, (running m s left).thread? t = some r₀ → (a :: rest) <:+ r₀.frames → ∃ i r',
        run.PushedIn program (n + 1) t a i r' ∧ r'.frames = rest ∧
          k.heap.payload a = .ofNat (r'.pc + 1) ∧ k.heap.word a 1 = r'.environment := by
      intro r₀ hr₀ suffix₀
      have hold : m.heap.Live m.roots a := .root (mem_roots_of_registers hr₀
        (Registers.mem_roots.2 (.inr (.inr (suffix₀.mem List.mem_cons_self)))))
      have htag' : m.heap.tag a = .callframe := (realizes.heap.tag hold).symm.trans htag
      have same := steady.same a hold (by rw [htag']; rfl)
      obtain ⟨i, r', pushed, rfl, hpc, henv⟩ := hframes t r₀ a rest hr₀ suffix₀ htag'
      refine ⟨i, r', pushed.succ hr suffix, rfl, same.payload.trans hpc, ?_⟩
      exact (same.word 1 (by decide) (by decide)).trans henv
    by_cases ht : t = m.current
    · subst ht
      have hr' := hr
      rw [turned.self] at hr
      split at hr
      next => cases hr
      next =>
        obtain rfl := Option.some.inj hr
        rcases of_suffix_frames hm he realizes suffix htag with
          suffix | ⟨⟨count, hinstr⟩, hpushed, rfl, hpc, henv⟩
        · exact hkept m.registers (if_pos rfl) suffix
        · refine ⟨n, m.registers, ⟨Nat.lt_succ_self n, ⟨m, s, left, p, k, count, here, rfl, rfl, ?_,
            hstep, hpushed⟩, fun j hn hj => ?_⟩, rfl, hpc, henv⟩
          · exact Program.at?_of_getD hinstr nofun
          · obtain rfl := Nat.le_antisymm hj hn
            exact ⟨k.registers, hr', suffix⟩
    · rw [turned.other t ht] at hr
      rcases realizes.thread hr with hthread | ⟨hstarted, -⟩
      · exact hkept r ((if_neg ht).trans hthread) suffix
      · rw [hm.frames_of_started he hstarted] at suffix
        exact absurd (suffix.mem List.mem_cons_self) List.not_mem_nil

end Stepped

/-! ## All steps -/

/-- At the start there are no functions of the program, and nobody returns. -/
theorem remembers_begin {config : Config} {m : Machine} (hm : m.Initial config standardBuiltins)
    (program : Program) (s : Scheduler) : (begin m s).Remembers program 0 where
  functions := by
    intro a ha htag
    have hin := hm.sound.heap.inUse_of_live hm.sound.suspend.inUse_root ha
    -- A plan that knows no function is kept.
    obtain ⟨_, -, -, hplan⟩ := (hm.callablesFit (fun _ => none) a hin).closure htag
    cases hplan
  frames := by
    intro t r a rest hr suffix
    replace hr : (begin m s).thread? t = some r := hr
    rw [thread?_begin hm] at hr
    split at hr
    next =>
      obtain rfl := Option.some.inj hr
      exact absurd (suffix.mem List.mem_cons_self) List.not_mem_nil
    next => cases hr

theorem Fresh.remembers (fresh : run.Fresh) (start : run.Remembers program 0) (n : Nat)
    (hactive : (run.after program n).Active) : run.Remembers program n := by
  induction n with
  | zero => exact start
  | succ n ih =>
    have remembers := ih hactive.of_next
    cases fresh.moves program n with
    | dispatched _ same => exact remembers.dispatched fresh hactive same
    | stopped _ ended => exact absurd hactive ended
    | stepped here hm hstep _ turned => exact remembers.stepped fresh here hm hstep hactive (here ▸ turned)

/-! ## Indices in nodes -/

/-- A call of the running thread pushed the innermost call frame that it has now, and had these registers then. -/
structure CalledBy (program : Program) (run : Run) (n : Nat) (m : Machine) (r : Registers) : Prop where
  /-- The frame. -/
  frame : ∃ inner a i, m.registers.frames = inner ++ a :: r.frames ∧
    (∀ b ∈ inner, m.heap.tag b ≠ .callframe) ∧ m.heap.tag a = .callframe ∧
    run.PushedIn program n m.current a i r

/-- Where the threads of a run go on. -/
structure KeepsIndices (program : Program) (run : Run) : Prop where
  /-- A jump goes to its target. -/
  jumps : ∀ n m s left target, run.after program n = running m s left →
    program.at? m.registers.pc = some (.jump target) →
    m.step program = .ok .advanced (m.withRegisters { m.registers with pc := target })
  /-- A call of a function goes to what 32 bits hold of the entry with which the function was made, if
  the number of arguments is right. -/
  calls : ∀ n m s left (tail : Bool) count a, run.after program n = running m s left →
    program.at? m.registers.pc = some (if tail then .tailCall count else .call count) →
    m.registers.stack[count]? = some a → m.heap.tag a = .closure →
    ∃ i arity entry, run.MadeIn program n a i arity entry ∧
      (arity = count → m.GoesTo program (entry % 2 ^ 32)) ∧
      (arity ≠ count → m.step program = .error (.arity arity count) m)
  /-- A return goes to what they hold of the index behind the call, with the registers of the call.  It
  fails if there was none. -/
  returns : ∀ n m s left, run.after program n = running m s left →
    program.at? m.registers.pc = some .ret →
    (∃ r, run.CalledBy program n m r ∧ m.step program = .ok .advanced (m.withRegisters
      ⟨m.registers.stack, (r.pc + 1) % 2 ^ 32, r.environment, r.frames⟩)) ∨
    (∀ b ∈ m.registers.frames, m.heap.tag b ≠ .callframe) ∧
      ∃ k, m.step program = .error .returnStackUnderflow k
  /-- So does a tail call of a builtin. -/
  applies : ∀ n m s left count a p k, run.after program n = running m s left →
    program.at? m.registers.pc = some (.tailCall count) →
    m.registers.stack[count]? = some a → m.heap.tag a = .builtin → m.step program = .ok p k →
    ∃ r, run.CalledBy program n m r ∧ k.registers.pc = (r.pc + 1) % 2 ^ 32 ∧
      k.registers.environment = r.environment ∧ k.registers.frames = r.frames
  /-- Past the end of the program the run is over. -/
  past : ∀ n m s left, run.after program n = running m s left →
    program.code.size ≤ m.registers.pc →
    ∃ k, run.after program (n + 1) = ended k (.finished (m.registers.stack.head?.getD Heap.undefined))

/-- The call to which a thread returns. -/
theorem Remembers.exists_calledBy {m : Machine} {s : Scheduler} {left : Nat}
    (remembers : run.Remembers program n) (here : run.after program n = running m s left) {pc : Nat}
    {environment : Address} {frames : List Address}
    (hreturning : m.heap.returning? m.registers.frames = some (pc, environment, frames)) :
    ∃ r, run.CalledBy program n m r ∧ pc = (r.pc + 1) % 2 ^ 32 ∧ environment = r.environment ∧
      frames = r.frames := by
  obtain ⟨inner, a, hframes, hinner, htag, hpc, henv⟩ := Heap.of_returning? hreturning
  have hthread : (running m s left).thread? m.current = some m.registers := if_pos rfl
  have hremembered := remembers.frames m.current m.registers a frames
  rw [here] at hremembered
  obtain ⟨i, r, pushed, rfl, hpayload, henv'⟩ :=
    hremembered hthread (hframes ▸ List.suffix_append inner _) htag
  change m.heap.payload a = _ at hpayload
  rw [hpayload, UInt32.toNat_ofNat'] at hpc
  exact ⟨r, ⟨inner, a, i, hframes, hinner, htag, pushed⟩, hpc.symm, henv.symm.trans henv', rfl⟩

/-- Nodes keep 32 bits of the indices of instructions, and nothing that happens to a header touches them.  So a
call goes to the entry of the function, and a return goes behind the call, up to a multiple of `2 ^ 32`. -/
theorem keepsIndices {config : Config} {m : Machine}
    (hcreate : Machine.create config standardBuiltins = .ok m) (program : Program) :
    KeepsIndices program (begin m (.create config.maxQuantum config.seed)) ∧
      ∀ (h : Heap) (a : Address), a < h.words.size → h.UpdatesHeader a := by
  have fresh := fresh_begin hcreate
  have hspec := Machine.create_spec config standardBuiltins (by decide)
  rw [hcreate] at hspec
  generalize hrun : begin m (.create config.maxQuantum config.seed) = run at fresh ⊢
  have start : run.Remembers program 0 := hrun ▸ remembers_begin hspec.1 program _
  have here : ∀ {n m s left}, run.after program n = running m s left →
      m.Sound ∧ run.Remembers program n := by
    intro n m s left hn
    have sound := fresh.sound_after program n
    rw [hn] at sound
    exact ⟨sound, fresh.remembers start n (by rw [hn]; exact nofun)⟩
  refine ⟨⟨fun n m s left target hn => Machine.step_jump,
    fun n m s left tail count a hn hinstr ha htag => ?_, fun n m s left hn hinstr => ?_,
    fun n m s left count a p k hn hinstr ha htag hstep => ?_, fun n m s left hn hle => ?_⟩,
    fun h a => Heap.updatesHeader⟩
  · obtain ⟨hm, remembers⟩ := here hn
    have hremembered := remembers.functions a
    rw [hn] at hremembered
    obtain ⟨i, arity, entry, made, harity, hentry⟩ :=
      hremembered (Machine.Sound.live_stack (List.mem_of_getElem? ha)) htag
    change m.heap.word a 1 = arity at harity
    change m.heap.payload a = _ at hentry
    refine ⟨i, arity, entry, made, fun heq => ?_, fun hne => ?_⟩
    · have hgoes := hm.goesTo_call hinstr ha htag (harity.trans heq)
      rwa [hentry, UInt32.toNat_ofNat'] at hgoes
    · rw [← harity] at hne ⊢
      exact Machine.step_call_arity hinstr ha htag hne
  · cases hreturning : m.heap.returning? m.registers.frames with
    | none => exact .inr ⟨Heap.returning?_eq_none hreturning, Machine.step_ret_none hinstr hreturning⟩
    | some result =>
      obtain ⟨pc, environment, frames⟩ := result
      obtain ⟨r, calledBy, rfl, rfl, rfl⟩ := (here hn).2.exists_calledBy hn hreturning
      exact .inl ⟨r, calledBy, Machine.step_ret hinstr hreturning⟩
  · obtain ⟨hm, remembers⟩ := here hn
    obtain ⟨pc, environment, frames, hreturning, -, rfl, rfl, rfl⟩ :=
      hm.exists_returning hinstr ha htag hstep
    exact remembers.exists_calledBy hn hreturning
  · rw [after_succ_of_running hn, tick, Machine.step_past hle]
    exact ⟨_, rfl⟩

/-- A function that is called and returns. -/
def returning : Program := ⟨#[.jump 3, .constant .null, .ret, .closure 0 1, .call 0, .halt]⟩

/-- After five steps the function is about to return, and then the thread is behind the call. -/
theorem keepsIndices_returning : ∃ first m s left r,
    Machine.create { heapWords := 200, seed := 7 } standardBuiltins = .ok first ∧
      KeepsIndices returning (begin first (.create 15 7)) ∧
      (begin first (.create 15 7)).after returning 5 = running m s left ∧
      CalledBy returning (begin first (.create 15 7)) 5 m r ∧
      m.step returning = .ok .advanced (m.withRegisters
        ⟨m.registers.stack, (r.pc + 1) % 2 ^ 32, r.environment, r.frames⟩) ∧
      ((begin first (.create 15 7)).after returning 6).ExecutesAt mainThread 5 := by
  obtain ⟨first, hcreate, heq⟩ := exists_sample
  obtain ⟨hexec, hnext, htag⟩ : (sample.after returning 5).ExecutesAt mainThread 2 ∧
      (sample.after returning 6).ExecutesAt mainThread 5 ∧
      ∃ a ∈ (sample.after returning 5).machine.registers.frames,
        (sample.after returning 5).machine.heap.tag a = .callframe := by
    decide +kernel
  rw [heq] at hexec hnext htag
  obtain ⟨m, s, left, hrun, -, hpc⟩ := hexec
  rw [hrun] at htag
  obtain ⟨a, ha, htag⟩ := htag
  have h := (keepsIndices hcreate returning).1
  rcases h.returns 5 m s left hrun (hpc ▸ rfl) with ⟨r, calledBy, hstep⟩ | ⟨hnone, -⟩
  · exact ⟨first, m, s, left, r, hcreate, h, hrun, calledBy, hstep, hnext⟩
  · exact absurd htag (hnone a ha)

/-- A function whose entry has more than 32 bits. -/
def distant : Program := ⟨#[.closure 0 4294967296, .call 0, .halt]⟩

/-- A call of it starts the program again, where a jump to the same index ends it. -/
theorem not_keeps_entry_distant :
    (sample.after distant 1).ExecutesAt mainThread 0 ∧ distant.at? 0 = some (.closure 0 4294967296) ∧
      (sample.after distant 2).ExecutesAt mainThread 1 ∧ distant.at? 1 = some (.call 0) ∧
      distant.at? 4294967296 = none ∧ (sample.after distant 3).ExecutesAt mainThread 0 ∧
      (sample.after ⟨#[.jump 4294967296]⟩ 2).ExecutesAt mainThread 4294967296 := by
  decide +kernel

end ChannelMachine.Run

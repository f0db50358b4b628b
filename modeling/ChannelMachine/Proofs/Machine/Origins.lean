import Mathlib.Data.List.TakeWhile
import ChannelMachine.Proofs.Machine.Sparing

/-!
# Where functions and frames to return to come from

Only one kind of instruction makes functions, and only calls make frames to return to.  What an instruction
does to the return stack is one of three things (`Machine.Reframes`): some of the innermost frames go, a scope
is opened, or a function is called.

The index at which a function starts, and the one to which a call returns, are kept in the payload of a header.
A header is updated in place, so its other fields have to survive that (`Heap.UpdatesHeader`).
-/

namespace ChannelMachine

/-- What stands at an index, unless it is past the end. -/
theorem Program.at?_of_getD {program : Program} {pc : Nat} {i : Instruction}
    (hi : (program.at? pc).getD .halt = i) (hne : i ≠ .halt) : program.at? pc = some i := by
  cases hat : program.at? pc with
  | none =>
    rw [hat] at hi
    exact absurd hi.symm hne
  | some j =>
    rw [hat] at hi
    exact congrArg some hi

/-! ## Headers that are updated -/

namespace Heap

variable {h : Heap} {a : Address}

/-- What updates of a header do to the node at an address. -/
structure UpdatesHeader (h : Heap) (a : Address) : Prop where
  /-- The whole header is replaced. -/
  header : ∀ header, (h.setHeader a header).header a = header
  /-- A new payload leaves the kind, the mark and the size. -/
  payload : ∀ payload, (h.setPayload a payload).header a = { h.header a with payload }
  /-- So does a mark that is set. -/
  marked : Header.unpack (Header.marked (h.word a 0)) = { h.header a with mark := 1 }
  /-- And a mark that is taken away. -/
  cleared : h.isPermanent a = true ∨ (h.header a).mark ≠ 0 →
    (h.sweepNode a).header a = { h.header a with mark := 0 }
  /-- The other words stay. -/
  word : ∀ header b i, a ≠ b + i → (h.setHeader a header).word b i = h.word b i

theorem updatesHeader (ha : a < h.words.size) : h.UpdatesHeader a where
  header := header_setHeader_self ha
  payload := fun _ => header_setHeader_self ha _
  marked := Header.unpack_pack _
  cleared := by
    intro hkept
    have hcond : (h.isPermanent a || (h.header a).mark != 0) = true := by
      rcases hkept with hkept | hkept
      · rw [hkept, Bool.true_or]
      · rw [bne_iff_ne.2 hkept, Bool.or_true]
    rw [sweepNode, if_pos hcond, header_setHeader_self ha]
  word := fun header b i hne => word_setWord_of_ne h (i := 0) hne header.pack

/-! ## What is left of the return stack -/

/-- When scopes are closed, outer frames are left. -/
theorem suffix_of_closing? {frames' : List Address} {environment' : Address} : ∀ {n : Nat}
    {environment : Address} {frames : List Address},
    h.closing? n environment frames = some (environment', frames') → frames' <:+ frames
  | 0, _, _, hclosing => by
    obtain ⟨-, rfl⟩ := Prod.mk.inj (Option.some.inj hclosing)
    exact List.suffix_rfl
  | n + 1, _, [], hclosing => nomatch hclosing
  | n + 1, _, frame :: rest, hclosing => by
    unfold closing? at hclosing
    split at hclosing
    next => exact (suffix_of_closing? hclosing).trans (List.suffix_cons frame rest)
    next => cases hclosing

/-- A return goes to the innermost call frame. -/
theorem of_returning? {frames rest : List Address} {pc : Nat} {environment : Address}
    (hreturning : h.returning? frames = some (pc, environment, rest)) :
    ∃ inner call, frames = inner ++ call :: rest ∧ (∀ b ∈ inner, h.tag b ≠ .callframe) ∧
      h.tag call = .callframe ∧ (h.payload call).toNat = pc ∧ h.word call 1 = environment := by
  unfold returning? at hreturning
  split at hreturning
  next => cases hreturning
  next call rest' hdrop =>
    simp only [Option.some.injEq, Prod.mk.injEq] at hreturning
    obtain ⟨rfl, rfl, rfl⟩ := hreturning
    refine ⟨frames.takeWhile fun a => h.tag a ≠ .callframe, call, ?_, fun b hb => ?_, ?_, rfl, rfl⟩
    · rw [← hdrop, List.takeWhile_append_dropWhile]
    · have hkept := List.mem_takeWhile_imp hb
      exact of_decide_eq_true hkept
    · have htag := List.head?_dropWhile_not (fun a => decide (h.tag a ≠ .callframe)) frames
      rw [hdrop] at htag
      simpa using htag

theorem suffix_of_returning? {frames rest : List Address} {pc : Nat} {environment : Address}
    (hreturning : h.returning? frames = some (pc, environment, rest)) : rest <:+ frames := by
  obtain ⟨inner, call, rfl, -⟩ := of_returning? hreturning
  exact (List.suffix_cons call rest).trans (List.suffix_append inner _)

/-- Without a call frame there is no return. -/
theorem returning?_eq_none {frames : List Address} (hreturning : h.returning? frames = none) :
    ∀ b ∈ frames, h.tag b ≠ .callframe := by
  unfold returning? at hreturning
  split at hreturning
  next hdrop => exact fun b hb => of_decide_eq_true (List.dropWhile_eq_nil_iff.1 hdrop b hb)
  next => cases hreturning

end Heap

/-! ## Effects -/

namespace Effect

variable {e : Effect} {i : Instruction}

/-- Functions are made by the instruction for it only. -/
def Functional (e : Effect) (i : Instruction) : Prop :=
  ∀ header words, .node header words ∈ e.made → header.tag = .closure →
    ∃ arity entry, i = .closure arity entry

/-- Nothing is made. -/
theorem functional_nil (he : e.made = []) : e.Functional i := by
  intro header words hmem
  rw [he] at hmem
  cases hmem

/-- The new nodes are of other kinds. -/
theorem functional_of_tags
    (he : ∀ b ∈ e.made, ∀ header words, b = .node header words → header.tag ≠ .closure) :
    e.Functional i :=
  fun header words hmem htag => absurd htag (he _ hmem header words rfl)

end Effect

namespace Machine

variable {program : Program} {m : Machine} {e : Effect} {i : Instruction}

theorem functional_entering (slots : Nat) : (m.entering slots).Functional i := by
  refine Effect.functional_of_tags ?_
  simp only [entering, List.forall_mem_cons]
  refine ⟨?_, ?_, ?_, fun _ h => absurd h List.not_mem_nil⟩ <;>
    · rintro header words ⟨⟩ htag
      cases htag

theorem functional_invoking (function : Address) (n : Nat) :
    (m.invoking function n).Functional i := by
  refine Effect.functional_of_tags ?_
  simp only [invoking, List.forall_mem_cons]
  refine ⟨?_, ?_, ?_, fun _ h => absurd h List.not_mem_nil⟩ <;>
    · rintro header words ⟨⟩ htag
      cases htag

theorem functional_replacing (function : Address) (n : Nat) :
    (m.replacing function n).Functional i := by
  refine Effect.functional_of_tags ?_
  simp only [replacing, List.forall_mem_cons]
  refine ⟨?_, ?_, fun _ h => absurd h List.not_mem_nil⟩ <;>
    · rintro header words ⟨⟩ htag
      cases htag

/-- What an instruction does to the frames to return to. -/
inductive Reframes (m : Machine) (i : Instruction) (e : Effect) : Prop where
  /-- Some of the innermost go, or none. -/
  | leaves {frames : List Address} (suffix : frames <:+ m.registers.frames)
      (eq : e.registers.frames = frames.map .known) (functional : e.Functional i)
      (started : ∀ r, e.started = some r → r.frames = []) : Reframes m i e
  /-- A scope is opened. -/
  | enters {slots : Nat} (eq : e = m.entering slots) : Reframes m i e
  /-- A function is called. -/
  | calls {count : Nat} {function : Address} (call : i = .call count)
      (eq : e = m.invoking function count) : Reframes m i e

/-- Nothing is made, and no thread is started. -/
theorem reframes_moves {frames : List Address} (suffix : frames <:+ m.registers.frames)
    (eq : e.registers.frames = frames.map .known) (hmade : e.made = []) (hstarted : e.started = none) :
    Reframes m i e :=
  .leaves suffix eq (Effect.functional_nil hmade) fun r hr => by
    rw [hstarted] at hr
    cases hr

/-- The value of a builtin is made, and some of the innermost frames may go. -/
theorem reframes_answers {x : Product} (hx : x.IsScalar) {frames : List Address}
    (suffix : frames <:+ m.registers.frames) (eq : e.registers.frames = frames.map .known)
    (hmade : e.made = x.made) (hstarted : e.started = none) : Reframes m i e := by
  refine .leaves suffix eq (Effect.functional_of_tags fun b hb header words heq => ?_) fun r hr => ?_
  · rw [hmade] at hb
    rcases hx b hb with ⟨y, rfl⟩ | ⟨s, rfl⟩
    · obtain ⟨rfl, -⟩ := Blueprint.node.inj heq
      exact Tag.noConfusion
    · cases heq
  · rw [hstarted] at hr
    cases hr

namespace Sound

variable (hm : m.Sound)

include hm

/-- A frame comes or some go, and a function is made by the instruction for it only. -/
theorem reframes (he : m.effectOf? program i = some e) : Reframes m i e := by
  by_cases simple : i.isSimple = true ∧ ∀ n, i = .call n → m.callsFunction n = false
  · have stays := hm.stays simple.1 he simple.2
    refine .leaves List.suffix_rfl stays.frames (fun header words hmem htag => ?_) fun r hr => ?_
    · exact absurd htag (stays.made header words hmem).2
    · rw [stays.started] at hr
      cases hr
  cases hasEffect_of_effectOf? he with
  | invokes => exact .calls rfl rfl
  | replaces => exact .leaves (List.dropWhile_suffix _) rfl (functional_replacing _ _) nofun
  | applies _ _ _ product => exact reframes_answers (Heap.scalar_builtin product) List.suffix_rfl rfl rfl rfl
  | answers _ _ _ product returning =>
    exact reframes_answers (Heap.scalar_builtin product) (Heap.suffix_of_returning? returning) rfl rfl rfl
  | enterScope slots => exact .enters rfl
  | ret returning => exact reframes_moves (Heap.suffix_of_returning? returning) rfl rfl rfl
  | exitScope closing | breaks _ closing | continues _ closing =>
    exact reframes_moves (Heap.suffix_of_closing? closing) rfl rfl rfl
  | store | jumpUnless | jump | breakSpins | continueSpins | endThread | halt =>
    exact reframes_moves List.suffix_rfl rfl rfl rfl
  | spawn n =>
    refine .leaves List.suffix_rfl rfl (Effect.functional_nil rfl) fun r hr => ?_
    exact Option.some.inj hr ▸ rfl
  | closure arity entry => exact .leaves List.suffix_rfl rfl (fun _ _ _ _ => ⟨arity, entry, rfl⟩) nofun
  | _ => exact absurd ⟨rfl, fun _ h => by cases h⟩ simple

theorem functional (he : m.effectOf? program i = some e) : e.Functional i := by
  cases hm.reframes he with
  | leaves _ _ functional _ => exact functional
  | enters eq => exact eq ▸ functional_entering _
  | calls _ eq => exact eq ▸ functional_invoking _ _

/-- A thread that is started has nowhere to return to. -/
theorem frames_of_started (he : m.effectOf? program i = some e) {r : Registers}
    (hr : e.started = some r) : r.frames = [] := by
  cases hm.reframes he with
  | leaves _ _ _ started => exact started r hr
  | enters eq =>
    rw [eq] at hr
    cases hr
  | calls _ eq =>
    rw [eq] at hr
    cases hr

end Sound

/-! ## Where a thread goes on -/

/-- The next instruction takes the thread to an index, unless the nodes that it needs cannot be made. -/
def GoesTo (program : Program) (m : Machine) (pc : Nat) : Prop :=
  Ensures (step program) m (fun p k => p = .advanced ∧ k.registers.pc = pc) fun e _ =>
    e = .heapExhausted ∨ ∃ size, e = .nodeTooLarge size

/-- A jump goes wherever it says. -/
theorem step_jump {target : Nat} (hinstr : program.at? m.registers.pc = some (.jump target)) :
    m.step program = .ok .advanced (m.withRegisters { m.registers with pc := target }) := by
  rw [step_eq hinstr]
  rfl

/-- Behind the last instruction, the run is over. -/
theorem step_past (hle : program.code.size ≤ m.registers.pc) :
    m.step program = .ok (.finished (m.registers.stack.head?.getD Heap.undefined)) m := by
  have hnone : program.at? m.registers.pc = none := Array.getElem?_eq_none hle
  have h : Ensures (step program) m
      (fun p k => p = .finished (m.registers.stack.head?.getD Heap.undefined) ∧ k = m)
      fun _ _ => False := by
    refine .bind (ensures_registersNow ?_)
    rw [hnone]
    exact .bind (ensures_registersNow (.pure ⟨rfl, rfl⟩))
  obtain ⟨p, k, hok, rfl, rfl⟩ := h.exists_ok
  exact hok

/-- A return goes to where the innermost call frame says. -/
theorem step_ret (hinstr : program.at? m.registers.pc = some .ret) {pc : Nat}
    {environment : Address} {frames : List Address}
    (hreturning : m.heap.returning? m.registers.frames = some (pc, environment, frames)) :
    m.step program = .ok .advanced (m.withRegisters { m.registers with pc, environment, frames }) := by
  have h : Ensures (execute program .ret) m
      (fun p k => p = .advanced ∧ k = m.withRegisters { m.registers with pc, environment, frames })
      fun _ _ => False := by
    refine .bind (.bind (ensures_registersNow (.bind (ensures_readHeap ?_))))
    unfold Heap.returning? at hreturning
    cases hdrop : m.registers.frames.dropWhile fun a => m.heap.tag a ≠ .callframe with
    | nil =>
      rw [hdrop] at hreturning
      cases hreturning
    | cons call rest =>
      rw [hdrop] at hreturning
      simp only [Option.some.injEq, Prod.mk.injEq] at hreturning
      obtain ⟨rfl, rfl, rfl⟩ := hreturning
      exact .bind (ensures_readHeap (.bind (ensures_readHeap (ensures_setRegisters (.pure ⟨rfl, rfl⟩)))))
  obtain ⟨p, k, hok, rfl, rfl⟩ := h.exists_ok
  rw [step_eq hinstr]
  exact hok

theorem step_ret_none (hinstr : program.at? m.registers.pc = some .ret)
    (hreturning : m.heap.returning? m.registers.frames = none) :
    ∃ k, m.step program = .error .returnStackUnderflow k := by
  have h : Ensures (execute program .ret) m (fun _ _ => False) fun e _ => e = .returnStackUnderflow := by
    refine .bind (.bind (ensures_registersNow (.bind (ensures_readHeap ?_))))
    unfold Heap.returning? at hreturning
    cases hdrop : m.registers.frames.dropWhile fun a => m.heap.tag a ≠ .callframe with
    | nil => exact .bind (ensures_setRegisters (.throw rfl))
    | cons call rest =>
      rw [hdrop] at hreturning
      cases hreturning
  rw [step_eq hinstr]
  cases hexecute : execute program .ret m with
  | ok p k => exact (h.of_ok hexecute).elim
  | error e k =>
    obtain rfl := h.of_error hexecute
    exact ⟨k, rfl⟩

section Calls

variable {count : Nat} {a : Address} {tail : Bool}

theorem step_call_eq
    (hinstr : program.at? m.registers.pc = some (if tail then .tailCall count else .call count)) :
    m.step program = proceed (call count tail) m := by
  rw [step_eq hinstr]
  cases tail <;> rfl

/-- A function takes the number of arguments that it was made for. -/
theorem step_call_arity
    (hinstr : program.at? m.registers.pc = some (if tail then .tailCall count else .call count))
    (ha : m.registers.stack[count]? = some a) (htag : m.heap.tag a = .closure)
    (harity : m.heap.word a 1 ≠ count) :
    m.step program = .error (.arity (m.heap.word a 1) count) m := by
  have h : Ensures (proceed (call count tail)) m (fun _ _ => False)
      fun e k => e = .arity (m.heap.word a 1) count ∧ k = m :=
    .bind (ensures_call_closure ha htag (ensures_callClosure (fun _ => ⟨rfl, rfl⟩)
      fun h => absurd h harity))
  rw [step_call_eq hinstr]
  cases hproceed : proceed (call count tail) m with
  | ok p k => exact (h.of_ok hproceed).elim
  | error e k =>
    obtain ⟨rfl, rfl⟩ := h.of_error hproceed
    rfl

/-- A call goes to where the function says that it starts. -/
theorem Sound.goesTo_call (hm : m.Sound)
    (hinstr : program.at? m.registers.pc = some (if tail then .tailCall count else .call count))
    (ha : m.registers.stack[count]? = some a) (htag : m.heap.tag a = .closure)
    (harity : m.heap.word a 1 = count) : GoesTo program m (m.heap.payload a).toNat := by
  have hbad : ∀ {k : Heap} {sizes : List Nat} {e : Fault}, Heap.Failed m.heap k m.roots sizes e →
      e = .heapExhausted ∨ ∃ size, e = .nodeTooLarge size := by
    intro k sizes e failed
    exact failed.cause.imp_right fun ⟨size, _, he, _⟩ => ⟨size, he⟩
  have h : Ensures (proceed (call count tail)) m
      (fun p k => p = .advanced ∧ k.registers.pc = (m.heap.payload a).toNat)
      fun e _ => e = .heapExhausted ∨ ∃ size, e = .nodeTooLarge size := by
    refine .bind (ensures_call_closure ha htag (hm.ensures_callClosure (List.mem_of_getElem? ha)
      htag (fun h => absurd harity h) fun _ henv hlive => .bind (ensures_argumentsNow ?_)))
    cases tail with
    | true =>
      refine .bind (ensures_onHeap ((hm.heap.newArguments_ensures hm.inUse_roots hlive henv
        (hm.live_arguments count)).mono (fun inside k _ => ?_) fun _ _ failed => hbad failed))
      exact .bind (ensures_registersNow (.bind (ensures_readHeap (ensures_setRegisters (.pure ⟨rfl, rfl⟩)))))
    | false =>
      refine .bind (ensures_registersNow (.bind (ensures_onHeap ((hm.heap.newCall_ensures
        hm.inUse_roots (m.registers.pc + 1) live_environment hm.registers.tag hlive henv
        (hm.live_arguments count)).mono (fun r k _ => ?_) fun _ _ failed => hbad failed))))
      exact ensures_setRegisters (.pure ⟨rfl, rfl⟩)
  unfold GoesTo Ensures at *
  rw [step_call_eq hinstr]
  exact h

/-- A tail call of a builtin returns. -/
theorem Sound.exists_returning (hm : m.Sound)
    (hinstr : program.at? m.registers.pc = some (.tailCall count))
    (ha : m.registers.stack[count]? = some a) (htag : m.heap.tag a = .builtin) {p : Progress}
    {k : Machine} (hstep : m.step program = .ok p k) : ∃ pc environment frames,
      m.heap.returning? m.registers.frames = some (pc, environment, frames) ∧ p = .advanced ∧
        k.registers.pc = pc ∧ k.registers.environment = environment ∧ k.registers.frames = frames := by
  have performs : Performs (step program) m (m.effect? program) := hm.performs_step
  obtain ⟨e, f, he, rfl, realizes⟩ := performs.of_ok hstep
  rw [effect?, hinstr, Option.getD_some] at he
  have hcalls : m.callsFunction count = false := by
    rw [callsFunction, ha, Option.any_some, htag]
    rfl
  obtain ⟨x, printed, pc, environment, frames, -, hreturning, rfl⟩ := returning_of_tailCall hcalls he
  refine ⟨pc, environment, frames, hreturning, rfl, ?_⟩
  rw [realizes.outline]
  exact ⟨rfl, rfl, map_placed_known f frames⟩

end Calls

end Machine

end ChannelMachine

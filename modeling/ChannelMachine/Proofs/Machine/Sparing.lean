import ChannelMachine.Proofs.Machine.Inversion
import ChannelMachine.Proofs.Machine.Performing
import ChannelMachine.Proofs.Machine.Planned
import ChannelMachine.Proofs.Source.Rooms

/-!
# What effects spare

What an instruction changes of live nodes is in frames, channels and counters.  Functions, environments
and the frames to return to are never changed (`Realizes.steady`).  Most instructions also leave the
variables alone, make neither functions nor frames, and go on in the same scope (`Sound.stays`).
-/

namespace ChannelMachine

/-! ## Steady nodes -/

/-- Only frames, channels and counters are changed. -/
structure Effect.Spares (e : Effect) (h : Heap) : Prop where
  /-- The nodes that are written. -/
  writes : ∀ a i w, (a, i, w) ∈ e.writes → (h.tag a).isSteady = false
  /-- The channel whose kind of elements is recorded. -/
  kind : ∀ a t, e.kind = some (a, t) → (h.tag a).isSteady = false

/-- No variables are changed, and neither frames nor functions are made. -/
structure Effect.Tame (e : Effect) (h : Heap) : Prop where
  /-- The nodes that are written. -/
  writes : ∀ a i w, (a, i, w) ∈ e.writes → h.tag a = .channel ∨ h.tag a = .number
  /-- The channel whose kind of elements is recorded. -/
  kind : ∀ a t, e.kind = some (a, t) → h.tag a = .channel
  /-- The nodes that are made. -/
  made : ∀ header words, .node header words ∈ e.made →
    header.tag ≠ .frame ∧ header.tag ≠ .closure

namespace Effect.Tame

variable {e : Effect} {h : Heap}

/-- The heap stays the same. -/
theorem of_nothing (he : e.toChange = {}) : e.Tame h := by
  refine ⟨fun a i w hw => ?_, fun a t hk => ?_, fun header words hmem => ?_⟩
  · rw [he] at hw
    cases hw
  · rw [he] at hk
    cases hk
  · rw [he] at hmem
    cases hmem

/-- A node is made that is neither a frame nor a function. -/
theorem of_made {made : List Blueprint} (he : e.toChange = { made })
    (hmade : ∀ header words, .node header words ∈ made → header.tag ≠ .frame ∧ header.tag ≠ .closure) :
    e.Tame h := by
  refine ⟨fun a i w hw => ?_, fun a t hk => ?_, fun header words hmem => ?_⟩
  · rw [he] at hw
    cases hw
  · rw [he] at hk
    cases hk
  · rw [he] at hmem
    exact hmade header words hmem

theorem of_scalar {x : Product} (he : e.toChange = { made := x.made }) (hx : x.IsScalar) :
    e.Tame h := by
  refine .of_made he fun header words hmem => ?_
  rcases hx _ hmem with ⟨y, heq⟩ | ⟨s, heq⟩
  · obtain ⟨rfl, -⟩ := Blueprint.node.inj heq
    exact ⟨Tag.noConfusion, Tag.noConfusion⟩
  · cases heq

/-- Nodes of one kind are written. -/
theorem of_writes {writes : List (Address × Nat × Nat)} {kind : Option (Address × Tag)} {b : Address}
    (he : e.toChange = { writes, kind }) (hwrites : ∀ w ∈ writes, w.1 = b)
    (hkind : ∀ a t, kind = some (a, t) → h.tag a = .channel)
    (hb : h.tag b = .channel ∨ h.tag b = .number) : e.Tame h := by
  refine ⟨fun a i w hw => ?_, fun a t hk => ?_, fun header words hmem => ?_⟩
  · rw [he] at hw
    obtain rfl := hwrites _ hw
    exact hb
  · rw [he] at hk
    exact hkind a t hk
  · rw [he] at hmem
    cases hmem

end Effect.Tame

/-- What is spared is steady. -/
theorem Heap.Undergoes.steady {h k : Heap} {roots : List Address} {e : Effect} {f : Nat → Address}
    (u : h.Undergoes k roots e.toChange f) (spares : e.Spares h) : h.Steady k roots where
  same := by
    intro a ha hsteady
    refine u.same ha (fun t hk => ?_) ?_
    · exact absurd (hsteady.symm.trans (spares.kind a t hk)) Bool.noConfusion
    · rintro i ⟨w, hw⟩
      exact absurd (hsteady.symm.trans (spares.writes a i w hw)) Bool.noConfusion
  frame := fun _ ha _ => u.size ha

namespace Machine

variable {program : Program} {m k : Machine} {e : Effect} {f : Nat → Address} {i : Instruction}

/-! ## Instructions that stay in a scope -/

/-- The thread stays where it is or goes on to the next instruction, in the same scopes. -/
structure Stays (m : Machine) (e : Effect) : Prop extends e.Tame m.heap where
  /-- The environment. -/
  environment : e.registers.environment = .known m.registers.environment
  /-- The frames to return to. -/
  frames : e.registers.frames = m.registers.frames.map .known
  /-- The next instruction. -/
  pc : e.registers.pc = m.registers.pc ∨ e.registers.pc = m.registers.pc + 1
  /-- No thread is started. -/
  started : e.started = none

theorem stays_gives {n : Nat} {x : Product} (hx : x.IsScalar) {printed : String} :
    Stays m { Effect.gives m.registers n x with printed } :=
  ⟨.of_scalar rfl hx, rfl, rfl, .inr rfl, rfl⟩

theorem stays_known {n : Nat} (a : Address) : Stays m (.gives m.registers n (.known a)) :=
  stays_gives (Product.scalar_known a)

/-- Whether a call would be one of a function of the program. -/
def callsFunction (m : Machine) (n : Nat) : Bool :=
  m.registers.stack[n]?.any fun a => m.heap.tag a = .closure

theorem exists_function {n : Nat} (hcalls : m.callsFunction n = true) :
    ∃ a, m.registers.stack[n]? = some a ∧ m.heap.tag a = .closure := by
  obtain ⟨a, ha, htag⟩ := (Option.any_eq_true ..).1 hcalls
  exact ⟨a, ha, of_decide_eq_true htag⟩

/-- The effect of the call of a function of the program. -/
theorem invoking_of_call {n : Nat} {a : Address} (ha : m.registers.stack[n]? = some a)
    (htag : m.heap.tag a = .closure) (he : m.effectOf? program (.call n) = some e) :
    e = m.invoking a n := by
  cases hasEffect_of_effectOf? he with
  | invokes operand _ => exact Option.some.inj (operand.symm.trans ha) ▸ rfl
  | applies operand tag =>
    obtain rfl := Option.some.inj (operand.symm.trans ha)
    cases htag.symm.trans tag

/-- The effect of a tail call. -/
theorem replacing_of_tailCall {n : Nat} {a : Address} (ha : m.registers.stack[n]? = some a)
    (htag : m.heap.tag a = .closure) (he : m.effectOf? program (.tailCall n) = some e) :
    e = m.replacing a n := by
  cases hasEffect_of_effectOf? he with
  | replaces operand _ => exact Option.some.inj (operand.symm.trans ha) ▸ rfl
  | answers operand tag =>
    obtain rfl := Option.some.inj (operand.symm.trans ha)
    cases htag.symm.trans tag

/-- A tail call of anything else is one of a builtin, which returns. -/
theorem returning_of_tailCall {n : Nat} (hcalls : m.callsFunction n = false)
    (he : m.effectOf? program (.tailCall n) = some e) :
    ∃ x printed pc environment frames, x.IsScalar ∧
      m.heap.returning? m.registers.frames = some (pc, environment, frames) ∧
        e = { Effect.gives m.registers (n + 1) x with
          printed
          registers := ⟨x.ref :: (m.registers.stack.drop (n + 1)).map .known, pc,
            .known environment, frames.map .known⟩ } := by
  cases hasEffect_of_effectOf? he with
  | replaces operand tag => exact absurd hcalls (by simp [callsFunction, operand, tag])
  | answers _ _ _ product returning =>
    exact ⟨_, _, _, _, _, Heap.scalar_builtin product, returning, rfl⟩

/-- What a typed channel records is recorded for the channel. -/
theorem channel_of_recording {a b value : Address} {t : Tag}
    (hr : m.recording? a value = some (some (b, t))) : b = a := by
  unfold recording? at hr
  dsimp only at hr
  split at hr
  next =>
    split at hr
    next => exact (Prod.mk.inj (Option.some.inj (Option.some.inj hr))).1.symm
    next => split at hr <;> cases hr
  next => cases hr

theorem stays_waits (p : Place) : Stays m (.waits m.registers p) :=
  ⟨.of_nothing rfl, rfl, rfl, .inl rfl, rfl⟩

/-- What is recorded is recorded for a channel. -/
theorem tag_of_recording {a value : Address} {kind : Option (Address × Tag)}
    (htag : m.heap.tag a = .channel) (hr : m.recording? a value = some kind) :
    ∀ b t, kind = some (b, t) → m.heap.tag b = .channel := by
  rintro b t rfl
  exact channel_of_recording hr ▸ htag

namespace Sound

variable (hm : m.Sound)

include hm

theorem stays_adjusting {n j : Nat} {g : Address} {delta : Number}
    (hg : m.registers.stack[j]? = some g) (he : m.adjusting? g delta n = some e) : Stays m e := by
  unfold adjusting? at he
  dsimp only at he
  split at he
  next => cases he
  next hnot =>
    obtain rfl := Option.some.inj he
    have htag : m.heap.tag g = .waitGroup := of_not_not (not_or.1 hnot).1
    have hcounter := (hm.heap.counter (hm.isValue_stack hg).1 htag).2
    exact ⟨.of_writes (b := m.heap.word g 1) rfl (by simp) (fun _ _ h => by cases h) (.inr hcounter),
      rfl, rfl, .inr rfl, rfl⟩

/-- Most instructions stay in their scope, and so do calls of builtins. -/
theorem stays (simple : i.isSimple = true) (he : m.effectOf? program i = some e)
    (hcall : ∀ n, i = .call n → m.callsFunction n = false) : Stays m e := by
  cases hasEffect_of_effectOf? he with
  | constant l => exact stays_gives l.scalar_product
  | load => exact stays_known _
  | applies _ _ _ product => exact stays_gives (Heap.scalar_builtin product)
  | invokes operand tag => exact absurd (hcall _ rfl) (by simp [callsFunction, operand, tag])
  | pop | loopEnd => exact ⟨.of_nothing rfl, rfl, rfl, .inr rfl, rfl⟩
  | unary product => exact stays_gives (Heap.scalar_unary product)
  | binary product => exact stays_gives (Heap.scalar_binary product)
  | newChannel capacity =>
    refine ⟨.of_made rfl fun header words hmem => ?_, rfl, rfl, .inr rfl, rfl⟩
    obtain ⟨rfl, -⟩ := Blueprint.node.inj (List.mem_singleton.1 hmem)
    exact ⟨Tag.noConfusion, Tag.noConfusion⟩
  | sendWaits _ tag recording =>
    exact ⟨.of_writes rfl (fun _ h => absurd h List.not_mem_nil)
      (tag_of_recording tag recording) (.inl tag), rfl, rfl, .inl rfl, rfl⟩
  | sends _ tag recording =>
    exact ⟨.of_writes rfl (by simp) (tag_of_recording tag recording) (.inl tag), rfl, rfl, .inr rfl,
      rfl⟩
  | receives _ tag =>
    exact ⟨.of_writes rfl (by simp) nofun (.inl tag), rfl, rfl, .inr rfl, rfl⟩
  | newWaitGroup =>
    refine ⟨.of_made rfl fun header words hmem => ?_, rfl, rfl, .inr rfl, rfl⟩
    rcases List.mem_cons.1 hmem with heq | hmem
    · obtain ⟨rfl, -⟩ := Blueprint.node.inj heq
      exact ⟨Tag.noConfusion, Tag.noConfusion⟩
    · obtain ⟨rfl, -⟩ := Blueprint.node.inj (List.mem_singleton.1 hmem)
      exact ⟨Tag.noConfusion, Tag.noConfusion⟩
  | adds operand adjusting | finishes operand adjusting => exact hm.stays_adjusting operand adjusting
  | receiveWaits | awaits => exact stays_waits _
  | passes => exact stays_known _
  | _ => cases simple

/-- The effect of an assignment. -/
theorem exists_store {q : Position} (he : m.effectOf? program (.store q) = some e) :
    ∃ a frame, m.heap.slotOf? m.registers.environment q = some (frame, q.slot + 1) ∧
      m.heap.Live m.roots frame ∧ m.heap.tag frame = .frame ∧
      e = { Effect.moves { m.registers with pc := m.registers.pc + 1 } with
        writes := [(frame, q.slot + 1, a)] } := by
  cases hasEffect_of_effectOf? he with
  | store _ slot =>
    obtain ⟨hlive, htag, -⟩ :=
      hm.heap.live_slotOf? hm.inUse_root live_environment hm.registers.tag slot
    obtain ⟨-, -, rfl, -⟩ := Heap.of_slotOf?_eq slot
    exact ⟨_, _, slot, hlive, htag, rfl⟩

/-- Only a store writes to frames. -/
theorem tempers (he : m.effectOf? program i = some e) (hstore : ∀ q, i ≠ .store q) :
    (∀ a j w, (a, j, w) ∈ e.writes → m.heap.tag a = .channel ∨ m.heap.tag a = .number) ∧
      ∀ a t, e.kind = some (a, t) → m.heap.tag a = .channel := by
  have hmade : e.writes = [] → e.kind = none →
      (∀ a j w, (a, j, w) ∈ e.writes → m.heap.tag a = .channel ∨ m.heap.tag a = .number) ∧
        ∀ a t, e.kind = some (a, t) → m.heap.tag a = .channel := by
    intro hwrites hkind
    refine ⟨fun a j w hw => ?_, fun a t hk => ?_⟩
    · rw [hwrites] at hw
      cases hw
    · rw [hkind] at hk
      cases hk
  by_cases simple : i.isSimple = true ∧ ∀ n, i = .call n → m.callsFunction n = false
  · have stays := hm.stays simple.1 he simple.2
    exact ⟨stays.writes, stays.kind⟩
  cases hasEffect_of_effectOf? he with
  | store => exact absurd rfl (hstore _)
  | applies | answers | invokes | replaces | ret | exitScope | enterScope | closure | jumpUnless | jump
  | breaks | continues | breakSpins | continueSpins | spawn | endThread | halt => exact hmade rfl rfl
  | _ => exact absurd ⟨rfl, fun _ h => by cases h⟩ simple

/-- No instruction changes what is steady. -/
theorem spares (he : m.effectOf? program i = some e) : e.Spares m.heap := by
  by_cases hstore : ∀ q, i ≠ .store q
  · obtain ⟨hwrites, hkind⟩ := hm.tempers he hstore
    refine ⟨fun a j w hw => ?_, fun a t hk => ?_⟩
    · rcases hwrites a j w hw with htag | htag
      all_goals
        rw [htag]
        rfl
    · rw [hkind a t hk]
      rfl
  · simp only [not_forall, not_not] at hstore
    obtain ⟨q, rfl⟩ := hstore
    obtain ⟨a, frame, -, -, htag, rfl⟩ := hm.exists_store he
    refine ⟨fun b j w hw => ?_, fun b t hk => by cases hk⟩
    obtain ⟨rfl, -⟩ := Prod.mk.inj (List.mem_singleton.1 hw)
    rw [htag]
    rfl

end Sound

/-- What is steady stays the same. -/
theorem Realizes.steady (realizes : Realizes m k e f) (hm : m.Sound)
    (he : m.effectOf? program i = some e) : m.heap.Steady k.heap m.roots :=
  realizes.heap.steady (hm.spares he)

/-- A slot of a frame changes only if it is stored to. -/
theorem Sound.exists_store_of_ne (hm : m.Sound) {p : Progress} (hstep : m.step program = .ok p k)
    {a : Address} (ha : m.heap.Live m.roots a) (htag : m.heap.tag a = .frame) {slot : Nat}
    (hslot : slot + 1 < m.heap.size a) (hne : k.heap.word a (slot + 1) ≠ m.heap.word a (slot + 1)) :
    ∃ q, program.at? m.registers.pc = some (.store q) ∧ q.slot = slot ∧
      m.heap.slotOf? m.registers.environment q = some (a, slot + 1) := by
  have performs : Performs (step program) m (m.effect? program) := hm.performs_step
  obtain ⟨e, f, he, -, realizes⟩ := performs.of_ok hstep
  have hle : m.heap.size a ≤ nodeSize := (hm.heap.typed a (hm.inUse_of_live ha)).le
  have hwrites : e.toChange.Writes a (slot + 1) := by
    by_contra hnot
    refine hne ?_
    rw [realizes.heap.word a _ ha (Nat.le_add_left 1 slot) (Nat.lt_of_lt_of_le hslot hle),
      Change.wordAt_of_not hnot]
  obtain ⟨w, hw⟩ := hwrites
  by_cases hstore : ∃ q, program.at? m.registers.pc = some (.store q)
  · obtain ⟨q, hq⟩ := hstore
    rw [effect?, hq] at he
    obtain ⟨value, frame, hframe, -, -, rfl⟩ := hm.exists_store he
    obtain ⟨rfl, hword⟩ := Prod.mk.inj (List.mem_singleton.1 hw)
    obtain rfl : slot = q.slot := Nat.succ.inj (Prod.mk.inj hword).1
    exact ⟨q, hq, rfl, hframe⟩
  · have hnot : ∀ q, (program.at? m.registers.pc).getD .halt ≠ .store q := by
      intro q heq
      cases hi : program.at? m.registers.pc with
      | none =>
        rw [hi] at heq
        cases heq
      | some i =>
        rw [hi] at heq
        exact hstore ⟨q, hi.trans (congrArg some heq)⟩
    rcases (hm.tempers he hnot).1 a _ w hw with htag' | htag'
    all_goals
      rw [htag] at htag'
      cases htag'

end Machine

end ChannelMachine

import ChannelMachine.Proofs.Machine.Shapes
import ChannelMachine.Proofs.Machine.Turns

/-!
# Every instruction keeps to the plan

A function that is made is one that the plan knows, so a call of whatever function the stack holds
comes to an entry that is planned, and its frame leads back to where the plan expects the result.
Instructions that wait leave the thread at the same index.  `Has.comes_step` has all of it: a step of
the running thread, by the rules of `Follows`.
-/

namespace ChannelMachine.Machine

variable {plan : Plan} {pasts : ThreadId → Past} {past : Past} {pc : Nat} {m : Machine}
  {σ τ : Shape} {α β : Type}

/-- A node of few words is only refused because there is no room. -/
theorem refused_isIllFormed {h k : Heap} {roots : List Address} {n : Nat} {e : Fault}
    (refused : Heap.Refused h k roots n e) (hpos : 1 ≤ n) (hle : n ≤ nodeSize) :
    e.isIllFormed = false :=
  (refused.failed (List.mem_singleton.2 rfl)).isIllFormed fun _ hn =>
    List.mem_singleton.1 hn ▸ ⟨hpos, hle⟩

namespace Has

/-! ## Functions -/

/-- An index that is kept in 32 bits. -/
theorem toNat_ofNat (small : plan.Small) {n : Nat} (h : plan n = some σ) :
    (UInt32.ofNat n).toNat = n :=
  UInt32.toNat_ofNat_of_lt (small n σ h)

theorem leaves_closure (has : m.Has plan pasts past σ) (hm : m.Sound) (small : plan.Small)
    {arity entry : Nat} (fits : σ.Fits arity) (next : plan (m.registers.pc + 1) = some (σ.lift 1))
    (body : plan entry = some (σ.entry arity)) :
    LeavesPlanned plan pasts past pc (closure arity entry) m := by
  refine .bind (ensures_registersNow (.bind (Machine.ensures_onHeap ?_)))
  have hmade := (hm.heap.newClosure_ensures hm.inUse_roots arity entry Sound.live_environment
    hm.registers.tag).and (hm.heap.newClosure_inherits hm.inUse_roots arity entry
    m.registers.environment)
  refine hmade.mono ?_ fun _ _ refused => refused_isIllFormed refused.1 (by decide) (by decide)
  rintro a k ⟨made, inherits⟩
  have hcallables : Heap.CallablesFit plan k := by
    refine has.callables.inherits hm.heap made.toGrows.sound inherits ?_
    rintro _ - rfl
    have hheader := made.toHolds.header
    refine ⟨fun _ => ⟨σ, ?_, ?_, ?_⟩, fun hbuiltin => ?_⟩
    · rw [made.toHolds.word 0 arity rfl]
      exact fits
    · rw [made.toHolds.word 1 m.registers.environment rfl]
      exact made.toGrows.steady.environmentFits hm.heap hm.inUse_root Sound.live_environment
        hm.registers.tag has.registers.framed.environmentFits
    · rw [made.toHolds.word 0 arity rfl, Heap.payload, hheader]
      exact (congrArg plan (toNat_ofNat small body)).trans body
    · rw [made.toHolds.tag] at hbuiltin
      cases hbuiltin
  exact (has.withHeap hm made.toGrows hcallables).leaves_push_advance next a

theorem leaves_ret (has : m.Has plan pasts past σ) (height : σ.height = 1)
    (level : σ.level = .function) : LeavesPlanned plan pasts past pc ret m := by
  have hframed := has.registers.framed
  rw [level] at hframed
  obtain ⟨call, rest, τ, outer, hframes, hbases, hresume, hrest⟩ := hframed.ret
  refine .bind (ensures_registersNow (.bind (ensures_readHeap ?_)))
  rw [hframes]
  refine .bind (ensures_readHeap (.bind (ensures_readHeap (ensures_setRegisters ?_))))
  refine Rests.arrives (σ := τ.lift 1) (has.toRests.congr rfl rfl rfl) hrest ?_ (.returned hbases)
    hresume
  have hlen := has.registers.height
  rw [hbases, height] at hlen
  exact hlen

/-! ## Builtins -/

section Needs

variable {h : Heap} {a b : Address} {e : Fault}

theorem lengthOf_isIllFormed (he : h.lengthOf a = .error e) : e.isIllFormed = false := by
  unfold Heap.lengthOf at he
  split at he
  next => cases he
  next => cases he
  next =>
    obtain rfl := Except.error.inj he
    rfl

theorem needNumber_isIllFormed (he : h.needNumber a = .error e) : e.isIllFormed = false := by
  unfold Heap.needNumber at he
  split at he
  next => cases he
  next =>
    obtain rfl := Except.error.inj he
    rfl

theorem needNumbers_isIllFormed (he : h.needNumbers a b = .error e) : e.isIllFormed = false := by
  unfold Heap.needNumbers at he
  split at he
  next hneed =>
    obtain rfl := Except.error.inj he
    exact needNumber_isIllFormed hneed
  next hneed _ =>
    obtain rfl := Except.error.inj he
    exact needNumber_isIllFormed hneed
  next => cases he

end Needs

theorem printed (has : m.Has plan pasts past σ) (text : String) :
    ({ m with output := m.output ++ text } : Machine).Has plan pasts past σ :=
  has.congr rfl rfl rfl rfl

theorem ensures_printAll (as : List Address) : ∀ {m : Machine}, m.Has plan pasts past σ →
    Ensures (printAll as) m
      (fun _ k => k.Has plan pasts past σ ∧ k.registers = m.registers)
      (fun e _ => e.isIllFormed = false) := by
  induction as with
  | nil => exact fun has => .pure ⟨has, rfl⟩
  | cons a rest ih =>
    exact fun has => .bind (ensures_readHeap (.bind (ensures_update (ih (has.printed _)))))

theorem ensures_runBuiltin (has : m.Has plan pasts past σ) (hm : m.Sound) (b : Builtin)
    (arguments : List Address) :
    Ensures (runBuiltin b arguments) m
      (fun _ k => k.Has plan pasts past σ ∧ k.registers = m.registers)
      (fun e _ => e.isIllFormed = false) := by
  have hnumber : ∀ x, Ensures (onHeap (Heap.newNumber x)) m
      (fun _ k => k.Has plan pasts past σ ∧ k.registers = m.registers)
      (fun e _ => e.isIllFormed = false) := fun x =>
    has.ensures_onHeap hm (makesPlain_newNumber hm.heap x) fun _ _ hk => ⟨hk, rfl⟩
  have hneed : ∀ {β : Type} (f : Heap → Except Fault β) (g : β → Action Address),
      (∀ e, f m.heap = .error e → e.isIllFormed = false) →
      (∀ x, Ensures (g x) m (fun _ k => k.Has plan pasts past σ ∧ k.registers = m.registers)
        (fun e _ => e.isIllFormed = false)) →
      Ensures (need f >>= g) m (fun _ k => k.Has plan pasts past σ ∧ k.registers = m.registers)
        (fun e _ => e.isIllFormed = false) := by
    intro β f g hf hg
    refine .bind (.bind (ensures_readHeap ?_))
    split
    next => exact .pure (hg _)
    next e he => exact .throw (hf e he)
  unfold runBuiltin
  split
  next => exact .bind ((has.ensures_printAll _).mono (fun _ _ hk => .pure hk) fun _ _ he => he)
  next => exact .bind ((has.ensures_printAll _).mono
      (fun _ _ hk => .bind (ensures_update (.pure ⟨hk.1.printed _, hk.2⟩))) fun _ _ he => he)
  next => exact hneed _ _ (fun _ => lengthOf_isIllFormed) fun _ => hnumber _
  next => exact hneed _ _ (fun _ => needNumber_isIllFormed) fun _ => hnumber _
  next => exact hneed _ _ (fun _ => needNumbers_isIllFormed) fun _ => hnumber _
  next => exact hneed _ _ (fun _ => needNumbers_isIllFormed) fun _ => hnumber _
  next => exact .bind (ensures_readHeap
      (has.ensures_onHeap hm (makesPlain_newString hm.heap _) fun _ _ hk => ⟨hk, rfl⟩))
  next => exact .throw rfl

/-- Calling a builtin that the compiler counts on, up to what follows with its result. -/
theorem leaves_callBuiltin {n : Nat} (has : m.Has plan pasts past (σ.lift (n + 1))) (hm : m.Sound)
    {slot : Nat} (hslot : slot < standardBuiltins.length) {tail : Bool}
    (after : ∀ k : Machine, k.Has plan pasts past (σ.lift 1) → k.registers.pc = m.registers.pc →
      LeavesPlanned plan pasts past pc (if tail then ret else advance) k) :
    LeavesPlanned plan pasts past pc (callBuiltin slot n tail) m := by
  refine ensures_callBuiltin (fun hnone => ?_) (fun _ _ _ => rfl) fun entry _ _ => ?_
  · rw [has.builtins, List.getElem?_eq_getElem hslot] at hnone
    cases hnone
  · refine .bind ((has.ensures_runBuiltin hm _ _).mono ?_ fun _ _ he => he)
    rintro a k ⟨hk, hregisters⟩
    have hpc : k.registers.pc = m.registers.pc := congrArg Registers.pc hregisters
    exact .bind (ensures_replace (after _ (hk.replaced a) hpc))

/-! ## Calls -/

/-- What is called may be: it is a function or a builtin that the plan knows. -/
theorem callable (has : m.Has plan pasts past σ) (hm : m.Sound) {i : Nat} {a : Address}
    (ha : m.registers.stack[i]? = some a) : Heap.CallableFits plan m.heap a :=
  has.callables a (hm.isValue_stack ha).1

theorem length_arguments {n : Nat} (has : m.Has plan pasts past (σ.lift (n + 1))) :
    (m.registers.stack.take n).reverse.length = n := by
  rw [List.length_reverse, List.length_take]
  exact Nat.min_eq_left (Nat.le_of_lt (has.registers.lt_length (Nat.lt_succ_self n)))

/-- The sizes of the nodes of a call. -/
theorem sizes_arguments {n : Nat} (has : m.Has plan pasts past (σ.lift (n + 1)))
    {ρ : Shape} {captured : Address} (fits : ρ.Fits n)
    (henv : m.heap.EnvironmentFits captured ρ.scopes) :
    ∀ size ∈ [(m.registers.stack.take n).reverse.length + 1, m.heap.frameCount captured + 2],
      1 ≤ size ∧ size ≤ nodeSize := by
  obtain ⟨harity, hscopes⟩ := fits.sizes
  rw [has.length_arguments, henv.frameCount]
  intro size hsize
  rcases List.mem_cons.1 hsize with rfl | hsize
  · exact ⟨Nat.le_add_left .., harity⟩
  · rw [List.mem_singleton.1 hsize]
    exact ⟨Nat.le_add_left .., hscopes⟩

/-- The operands under a function and its arguments. -/
theorem length_drop {n : Nat} (has : m.Has plan pasts past (σ.lift (n + 1))) :
    (m.registers.stack.drop (n + 1)).length = past.bases.headD 0 + σ.height :=
  has.registers.dropped.height

theorem leaves_callClosure {n : Nat} (has : m.Has plan pasts past (σ.lift (n + 1))) (hm : m.Sound)
    (small : plan.Small) (begun : ¬ past.fresh) {function : Address}
    (hfunction : function ∈ m.registers.stack)
    (htag : m.heap.tag function = .closure) (next : plan (m.registers.pc + 1) = some (σ.lift 1)) :
    LeavesPlanned plan pasts past pc (callClosure function n false) m := by
  obtain ⟨ρ, hfits, henv, hentry⟩ :=
    (has.callables function (hm.registers.stack _ hfunction).1).closure htag
  have harguments := hm.live_arguments n
  refine hm.ensures_callClosure hfunction htag (fun _ => rfl) fun harity hctag hcaptured =>
    .bind (ensures_argumentsNow ?_)
  rw [harity] at hfits hentry
  refine .bind (ensures_registersNow (.bind (Machine.ensures_onHeap ?_)))
  have hmade := (hm.heap.newCall_ensures hm.inUse_roots (m.registers.pc + 1) Sound.live_environment
    hm.registers.tag hcaptured hctag harguments).and (hm.heap.adds_newCall hm.inUse_roots
    (m.registers.pc + 1) Sound.live_environment hm.registers.tag hcaptured hctag harguments
    (P := fun _ => True) fun _ _ => trivial)
  refine hmade.mono ?_ fun _ _ failed => failed.1.isIllFormed (has.sizes_arguments hfits henv)
  rintro ⟨call, inside⟩ k ⟨⟨hcall, frame, made⟩, adds⟩
  have hk := has.withPlain hm made.toGrows adds
  have hinside := hm.inside_fits hcaptured hctag henv made
  rw [has.length_arguments] at hinside
  have same := (alike_withHeap m k).toSameArena.same call
  have hresume : plan ((m.withHeap k).heap.payload call).toNat = some (σ.lift 1) := by
    rw [same.payload, Heap.payload, hcall.toHolds.header]
    exact (congrArg plan (toNat_ofNat small next)).trans next
  have hlink := (same.word 1 (by decide) (by decide)).trans (hcall.toHolds.word 0 _ rfl)
  have hframed := Framed.call (τ := σ) begun hk.registers.framed (same.tag.trans hcall.toHolds.tag) hlink
    hresume hinside
  refine ensures_setRegisters (Rests.arrives (σ := ρ.entry n) (hk.toRests.congr rfl rfl rfl) hframed
    has.length_drop ?_ hentry)
  rw [← has.length_drop]
  exact .called

/-- A function is called in place of the running one, which has no other operands. -/
theorem leaves_tailCallClosure {n : Nat} (has : m.Has plan pasts past (σ.lift (n + 1)))
    (hm : m.Sound) (height : σ.height = 0) (level : σ.level = .function) {function : Address}
    (hfunction : function ∈ m.registers.stack) (htag : m.heap.tag function = .closure) :
    LeavesPlanned plan pasts past pc (callClosure function n true) m := by
  obtain ⟨ρ, hfits, henv, hentry⟩ :=
    (has.callables function (hm.registers.stack _ hfunction).1).closure htag
  have harguments := hm.live_arguments n
  refine hm.ensures_callClosure hfunction htag (fun _ => rfl) fun harity hctag hcaptured =>
    .bind (ensures_argumentsNow ?_)
  rw [harity] at hfits hentry
  refine .bind (Machine.ensures_onHeap ?_)
  have hmade := (hm.heap.newArguments_ensures hm.inUse_roots hcaptured hctag harguments).and
    (hm.heap.adds_newArguments hm.inUse_roots hcaptured hctag harguments
      (P := fun _ => True) fun _ _ => trivial)
  refine hmade.mono ?_ fun _ _ failed => failed.1.isIllFormed (has.sizes_arguments hfits henv)
  rintro inside k ⟨⟨frame, made⟩, adds⟩
  have hk := has.withPlain hm made.toGrows adds
  have hinside := hm.inside_fits hcaptured hctag henv made
  rw [has.length_arguments] at hinside
  have hframed := hk.registers.framed
  rw [show (σ.lift (n + 1)).level = .function from level] at hframed
  refine .bind (ensures_registersNow (.bind (ensures_readHeap (ensures_setRegisters ?_))))
  refine Rests.arrives (σ := ρ.entry n) (hk.toRests.congr rfl rfl rfl) (hframed.tailCall hinside)
    ?_ .same hentry
  exact has.length_drop.trans (congrArg _ height)

/-- A call that has its operands, up to what follows with the result of a builtin and up to the call
of a function of the program. -/
theorem leaves_calling {n : Nat} (has : m.Has plan pasts past (σ.lift (n + 1))) (hm : m.Sound)
    {tail : Bool}
    (after : ∀ k : Machine, k.Has plan pasts past (σ.lift 1) → k.registers.pc = m.registers.pc →
      LeavesPlanned plan pasts past pc (if tail then ret else advance) k)
    (hclosure : ∀ a ∈ m.registers.stack, m.heap.tag a = .closure →
      LeavesPlanned plan pasts past pc (callClosure a n tail) m) :
    LeavesPlanned plan pasts past pc (call n tail) m := by
  refine ensures_call (fun hunder => ?_) (fun a ha htag => ?_)
    (fun a ha => hclosure a (List.mem_of_getElem? ha)) fun _ => rfl
  · exact absurd (has.registers.lt_length (Nat.lt_succ_self n))
      (Nat.not_lt.2 (List.getElem?_eq_none_iff.1 hunder))
  · exact has.leaves_callBuiltin hm ((has.callable hm ha).builtin htag) after

theorem leaves_call {n : Nat} (has : m.Has plan pasts past (σ.lift (n + 1))) (hm : m.Sound)
    (small : plan.Small) (begun : ¬ past.fresh)
    (next : plan (m.registers.pc + 1) = some (σ.lift 1)) :
    LeavesPlanned plan pasts past pc (call n false) m :=
  has.leaves_calling hm (fun _ hk hpc => hk.leaves_advance (hpc ▸ next))
    fun _ ha htag => has.leaves_callClosure hm small begun ha htag next

theorem leaves_tailCall {n : Nat} (has : m.Has plan pasts past (σ.lift (n + 1))) (hm : m.Sound)
    (height : σ.height = 0) (level : σ.level = .function) :
    LeavesPlanned plan pasts past pc (call n true) m :=
  has.leaves_calling hm (fun _ hk _ => hk.leaves_ret (congrArg (· + 1) height) level)
    fun _ ha htag => has.leaves_tailCallClosure hm height level ha htag

/-! ## Threads -/

/-- The new thread starts in front of its call with the operands that are taken away here. -/
theorem leaves_spawn {n : Nat} (has : m.Has plan pasts past (σ.lift (n + 1)))
    (born : (pasts m.nextThread).born (some m.registers.pc)) (fresh : (pasts m.nextThread).fresh)
    (bases : (pasts m.nextThread).bases = [])
    (start : plan (m.registers.pc + 1) = some ((σ.spawned m.registers.pc).lift (n + 1)))
    (next : plan (m.registers.pc + 3) = some (σ.lift 1)) :
    LeavesPlanned plan pasts past pc (spawn n) m := by
  have hlt : n < m.registers.stack.length := has.registers.lt_length (Nat.lt_succ_self n)
  refine .bind (ensures_registersNow ?_)
  rw [if_neg (Nat.not_lt.2 hlt)]
  refine .bind (ensures_update ?_)
  have hplanned : Registers.Planned plan m.heap (pasts m.nextThread)
      ⟨m.registers.stack.take (n + 1), m.registers.pc + 1, m.registers.environment, []⟩ := by
    refine ⟨_, start, ?_, ?_⟩
    · rw [bases]
      exact .outer (.spawned _) born (fun _ _ => fresh) has.registers.framed.environmentFits
    · rw [bases, List.length_take, Nat.min_eq_left hlt]
      simp [Shape.lift, Shape.spawned]
  have hk : Has plan pasts { m with
      threads := m.threads.insert m.nextThread ⟨m.registers.stack.take (n + 1),
        m.registers.pc + 1, m.registers.environment, []⟩
      nextThread := m.nextThread + 1
      runnable := m.runnable ++ [m.nextThread] } past (σ.lift (n + 1)) := by
    refine ⟨⟨has.callables, has.builtins, fun u r hr => ?_⟩, has.registers⟩
    rw [Std.TreeMap.getElem?_insert] at hr
    split at hr
    next heq =>
      obtain rfl := Option.some.inj hr
      obtain rfl := Std.LawfulEqCmp.eq_of_compare heq
      exact hplanned
    next => exact has.threads u r hr
  have hnoted := hk.noted (.spawned m.nextThread m.current)
  exact .bind (ensures_replace ((hnoted.replaced _).leaves_goTo next))

theorem woken (has : m.Has plan pasts past σ) (t : ThreadId) {good : Unit → Machine → Prop}
    {bad : Fault → Machine → Prop}
    (h : ∀ k : Machine, k.Has plan pasts past σ → k.registers = m.registers → good () k) :
    Ensures (wake t) m good bad := by
  have hk : ({ m with runnable := m.runnable ++ [t] } : Machine).Has plan pasts past σ :=
    has.congr rfl rfl rfl rfl
  refine ensures_update (h _ (hk.noted (.woken t)) ?_)
  unfold Machine.note
  split <;> rfl

theorem wokenAll (ts : List ThreadId) : ∀ {m : Machine}, m.Has plan pasts past σ →
    ∀ {good : Unit → Machine → Prop} {bad : Fault → Machine → Prop},
    (∀ k : Machine, k.Has plan pasts past σ → k.registers = m.registers → good () k) →
    Ensures (wakeAll ts) m good bad := by
  induction ts with
  | nil => exact fun has _ _ h => .pure (h _ has rfl)
  | cons t rest ih =>
    refine fun has _ _ h => .bind (has.woken t fun k hk hregisters => ih hk fun l hl hregisters' => ?_)
    exact h l hl (hregisters'.trans hregisters)

/-! ## Channels -/

/-- A node of another kind is not called. -/
theorem notCalled {h : Heap} {a : Address} {tag : Tag} (htag : h.tag a = tag)
    (hclosure : tag ≠ .closure) (hbuiltin : tag ≠ .builtin) : Heap.CallableFits plan h a :=
  ⟨fun h => absurd (htag.symm.trans h) hclosure, fun h => absurd (htag.symm.trans h) hbuiltin⟩

theorem leaves_newChannel (has : m.Has plan pasts past σ) (hm : m.Sound)
    (next : plan (m.registers.pc + 1) = some (σ.lift 1)) (capacity : Nat) :
    LeavesPlanned plan pasts past pc (newChannel capacity) m := by
  refine .bind (Machine.ensures_onHeap ?_)
  refine ((hm.heap.newChannel_ensures hm.inUse_roots capacity).and
    (hm.heap.newChannel_inherits hm.inUse_roots capacity)).mono ?_ ?_
  · rintro a k ⟨⟨-, made⟩, inherits⟩
    have hcallables : Heap.CallablesFit plan k := by
      refine has.callables.inherits hm.heap made.toGrows.sound inherits ?_
      rintro _ - rfl
      exact notCalled made.toHolds.tag nofun nofun
    have hk := has.withHeap hm made.toGrows hcallables
    have hreset : Has plan pasts { m.withHeap k with
        channels := (m.withHeap k).channels.reset a } past σ := hk.congr rfl rfl rfl rfl
    exact .bind (ensures_update (hreset.leaves_push_advance next a))
  · rintro e k ⟨⟨rfl, -, -⟩ | ⟨hle, refused⟩, -⟩
    · rfl
    · unfold maxCapacity nodeSize at hle
      unfold ringStart at refused
      exact refused_isIllFormed refused (by omega) (by unfold nodeSize; omega)

theorem wokenAt (has : m.Has plan pasts past σ) (side : Side) (a : Address)
    {good : Unit → Machine → Prop} {bad : Fault → Machine → Prop}
    (h : ∀ k : Machine, k.Has plan pasts past σ → k.registers = m.registers → good () k) :
    Ensures (wakeAt side a) m good bad := by
  refine .bind (.modifyGet ?_)
  have hk : ({ m with channels := (m.channels.dequeue side a).2 } : Machine).Has plan pasts past σ :=
    has.congr rfl rfl rfl rfl
  dsimp only
  split
  · exact hk.woken _ h
  · exact .pure (h _ hk rfl)

theorem ensures_checkElement (has : m.Has plan pasts past σ) (hm : m.Sound) {channel : Address}
    (hin : m.heap.InUse channel) (htag : m.heap.tag channel = .channel) (value : Address) :
    Ensures (checkElement channel value) m (fun _ k => k.Has plan pasts past σ)
      (fun e _ => e.isIllFormed = false) := by
  refine .bind (ensures_readHeap (.bind (ensures_readHeap ?_)))
  split
  next => exact ensures_updateHeap (has.updated hm (hm.heap.setElementKind hin htag _) htag rfl nofun)
  next =>
    split
    · exact .throw rfl
    · exact .pure has

theorem comes_send (has : m.Has plan pasts past (σ.lift 2)) (hm : m.Sound)
    (here : plan m.registers.pc = some (σ.lift 2))
    (next : plan (m.registers.pc + 1) = some (σ.lift 1)) :
    Ensures send m (Comes plan pasts past pc) (fun e _ => e.isIllFormed = false) := by
  refine .bind (has.ensures_peek (by decide) fun value hvalue => ?_)
  refine .bind (has.ensures_peek (by decide) fun channel hchannel => ?_)
  refine .bind (ensures_channel (fun htag => .bind (.get ?_)) fun _ => rfl)
  -- What follows the check of the element, on a machine with the same operands.
  have hrest : ∀ k : Machine, k.Sound → k.registers = m.registers → k.heap.tag channel = .channel →
      k.Has plan pasts past (σ.lift 2) → Ensures (do
        if ← readHeap (·.isFull channel) then
          waitAt .writer channel
          return Progress.blocked
        updateHeap (·.channelPush channel value)
        replace 2 Heap.undefined
        advance
        wakeAt .reader channel
        if ← readHeap (·.isUnbuffered channel) then
          waitAt .sender channel
          return .blocked
        return .advanced) k (Comes plan pasts past pc) (fun e _ => e.isIllFormed = false) := by
    intro k hk hregisters htag hhas
    have hc := hk.isValue_stack (i := 1) (hregisters ▸ hchannel)
    have hv := hk.isValue_stack (i := 0) (hregisters ▸ hvalue)
    refine .bind (ensures_readHeap ?_)
    split
    next =>
      have hwait : Has plan pasts { k with
          channels := k.channels.enqueue .writer channel k.current } past (σ.lift 2) :=
        hhas.congr rfl rfl rfl rfl
      exact .bind (ensures_update (.pure (.goesOn (.inr rfl) (hwait.arrives (hregisters ▸ here)))))
    next =>
      have hpushed := hhas.updated hk (hk.heap.channelPush hc.1 htag hv.1 hv.2) htag rfl nofun
      refine .bind (ensures_updateHeap (.bind (ensures_replace (.bind (ensures_advance ?_)))))
      refine .bind (((hpushed.replaced Heap.undefined).moved _).wokenAt .reader channel
        fun l hl hlregisters => .bind (ensures_readHeap ?_))
      have hnext : plan l.registers.pc = some (σ.lift 1) := by
        rw [hlregisters]
        exact hregisters ▸ next
      split
      next =>
        have hwait : Has plan pasts { l with
            channels := l.channels.enqueue .sender channel l.current } past (σ.lift 1) :=
          hl.congr rfl rfl rfl rfl
        exact .bind (ensures_update (.pure (.goesOn (.inr rfl) (hwait.arrives hnext))))
      next => exact .pure (.goesOn (.inl rfl) (hl.arrives hnext))
  split
  next =>
    have hin := (hm.isValue_stack hchannel).1
    refine .bind (((hm.ensures_checkElement hin htag value).and
      (has.ensures_checkElement hm hin htag value)).mono ?_ fun _ _ he => he.2)
    exact fun _ k ⟨⟨hk, hregisters, htag⟩, hhas⟩ => hrest k hk hregisters htag hhas
  next => exact hrest m hm rfl htag has

theorem comes_receive (has : m.Has plan pasts past (σ.lift 1)) (hm : m.Sound)
    (here : plan m.registers.pc = some (σ.lift 1))
    (next : plan (m.registers.pc + 1) = some (σ.lift 1)) :
    Ensures receive m (Comes plan pasts past pc) (fun e _ => e.isIllFormed = false) := by
  refine .bind (has.ensures_peek (by decide) fun channel hchannel => ?_)
  refine .bind (ensures_channel (fun htag => .bind (ensures_readHeap ?_)) fun _ => rfl)
  have hin := (hm.isValue_stack hchannel).1
  split
  next =>
    have hwait : Has plan pasts { m with
        channels := m.channels.enqueue .reader channel m.current } past (σ.lift 1) :=
      has.congr rfl rfl rfl rfl
    exact .bind (ensures_update (.pure (.goesOn (.inr rfl) (hwait.arrives here))))
  next =>
    have hpopped := has.updated hm (hm.heap.channelPop hin htag) htag rfl nofun
    refine .bind (ensures_readHeap (.bind (ensures_updateHeap (.bind (ensures_replace
      (.bind (ensures_advance (.bind (ensures_readHeap ?_)))))))))
    have hmoved := (hpopped.replaced (m.heap.channelFront channel)).moved (m.registers.pc + 1)
    have hlast : ∀ k : Machine, k.Has plan pasts past (σ.lift 1) →
        k.registers.pc = m.registers.pc + 1 → Ensures (do
          wakeAt .writer channel
          return Progress.advanced) k (Comes plan pasts past pc) (fun e _ => e.isIllFormed = false) :=
      fun k hk hpc => .bind (hk.wokenAt .writer channel fun l hl hregisters =>
        .pure (.goesOn (.inl rfl) (hl.arrives (by rw [hregisters, hpc]; exact next))))
    split
    · exact .bind (hmoved.wokenAt .sender channel fun k hk hregisters => hlast k hk (by rw [hregisters]; rfl))
    · exact hlast _ hmoved rfl

/-! ## Wait-groups -/

theorem leaves_newWaitGroup (has : m.Has plan pasts past σ) (hm : m.Sound)
    (next : plan (m.registers.pc + 1) = some (σ.lift 1)) :
    LeavesPlanned plan pasts past pc newWaitGroup m := by
  refine .bind (Machine.ensures_onHeap ?_)
  refine ((hm.heap.newWaitGroup_ensures hm.inUse_roots).and
    (hm.heap.newWaitGroup_inherits hm.inUse_roots)).mono ?_ fun _ _ failed => failed.1.isIllFormed ?_
  · rintro a k ⟨⟨counter, hcounter, made⟩, inherits⟩
    have hcallables : Heap.CallablesFit plan k := by
      refine has.callables.inherits hm.heap made.toGrows.sound inherits ?_
      rintro b - (rfl | rfl)
      · rw [made.toHolds.word 0 counter rfl]
        exact notCalled hcounter.toHolds.tag nofun nofun
      · exact notCalled made.toHolds.tag nofun nofun
    have hk := has.withHeap hm made.toGrows hcallables
    have hreset : Has plan pasts { m.withHeap k with
        groups := (m.withHeap k).groups.reset a } past σ := hk.congr rfl rfl rfl rfl
    exact .bind (ensures_update (hreset.leaves_push_advance next a))
  · intro n hn
    rw [List.mem_singleton.1 hn]
    decide

theorem ensures_adjust (has : m.Has plan pasts past σ) (hm : m.Sound) {group : Address}
    (hin : m.heap.InUse group) (htag : m.heap.tag group = .waitGroup) (delta : Number) :
    Ensures (adjust group delta) m
      (fun _ k => k.Has plan pasts past σ ∧ k.registers = m.registers)
      (fun e _ => e.isIllFormed = false) := by
  refine .bind (.get ?_)
  dsimp only
  split
  next => exact .bind (.throw rfl)
  next =>
    refine .bind (ensures_readHeap ?_)
    split
    next => exact .bind (.throw rfl)
    next =>
      have hcounter := hm.heap.counter hin htag
      have hk := has.updated hm (hm.heap.setGroupCount hin htag
        ((m.heap.groupCount group).add delta)) hcounter.2 rfl nofun
      refine .bind (ensures_updateHeap ?_)
      split
      next =>
        have hreset : Has plan pasts { m with
            heap := m.heap.setGroupCount group ((m.heap.groupCount group).add delta)
            groups := m.groups.reset group } past σ := hk.congr rfl rfl rfl rfl
        exact .bind (ensures_update (hreset.wokenAll _ fun l hl hregisters => ⟨hl, hregisters⟩))
      next => exact .pure ⟨hk, rfl⟩

theorem leaves_groupAdd (has : m.Has plan pasts past (σ.lift 2)) (hm : m.Sound)
    (next : plan (m.registers.pc + 1) = some (σ.lift 1)) :
    LeavesPlanned plan pasts past pc groupAdd m := by
  refine .bind (has.ensures_peek (by decide) fun delta _ => ?_)
  refine .bind (has.ensures_peek (by decide) fun group hgroup => ?_)
  refine .bind (ensures_waitGroup (fun htag => .bind (ensures_readHeap ?_)) fun _ => rfl)
  split
  next => exact .bind (ensures_readHeap (.throw rfl))
  next x _ =>
    refine .bind ((has.ensures_adjust hm (hm.isValue_stack hgroup).1 htag x).mono ?_ fun _ _ he => he)
    rintro _ k ⟨hk, hregisters⟩
    exact hk.leaves_replace_advance (hregisters ▸ next) _

theorem leaves_groupDone (has : m.Has plan pasts past (σ.lift 1)) (hm : m.Sound)
    (next : plan (m.registers.pc + 1) = some (σ.lift 1)) :
    LeavesPlanned plan pasts past pc groupDone m := by
  refine .bind (has.ensures_peek (by decide) fun group hgroup => ?_)
  refine .bind (ensures_waitGroup (fun htag => ?_) fun _ => rfl)
  refine .bind ((has.ensures_adjust hm (hm.isValue_stack hgroup).1 htag _).mono ?_ fun _ _ he => he)
  rintro _ k ⟨hk, hregisters⟩
  exact hk.leaves_replace_advance (hregisters ▸ next) _

theorem comes_groupWait (has : m.Has plan pasts past (σ.lift 1))
    (here : plan m.registers.pc = some (σ.lift 1))
    (next : plan (m.registers.pc + 1) = some (σ.lift 1)) :
    Ensures groupWait m (Comes plan pasts past pc) (fun e _ => e.isIllFormed = false) := by
  refine .bind (has.ensures_peek (by decide) fun group _ => ?_)
  refine .bind (ensures_waitGroup (fun _ => .bind (ensures_readHeap ?_)) fun _ => rfl)
  split
  next =>
    have hwait : Has plan pasts { m with groups := m.groups.enqueue group m.current } past
        (σ.lift 1) := has.congr rfl rfl rfl rfl
    exact .bind (ensures_update (.pure (.goesOn (.inr rfl) (hwait.arrives here))))
  next =>
    refine .bind (ensures_replace (.bind (ensures_advance (.pure (.goesOn (.inl rfl) ?_)))))
    exact ((has.replaced Heap.undefined).moved _).arrives next

/-! ## Steps -/

theorem comes_proceed {x : Action Unit} (hx : LeavesPlanned plan pasts past pc x m) :
    Ensures (proceed x) m (Comes plan pasts past pc) (fun e _ => e.isIllFormed = false) :=
  .bind (hx.mono (fun _ _ hk => .pure (.goesOn (.inl rfl) hk)) fun _ _ he => he)

/-- An instruction that replaces some operands by one keeps to the plan. -/
theorem comes_plain {n : Nat} {i : Instruction} (has : m.Has plan pasts past (σ.lift n))
    (hm : m.Sound) (small : plan.Small) (begun : ¬ past.fresh) (program : Program)
    (takes : i.takes? = some n) (here : plan m.registers.pc = some (σ.lift n))
    (next : plan (m.registers.pc + 1) = some (σ.lift 1)) :
    Ensures (execute program i) m (Comes plan pasts past pc) (fun e _ => e.isIllFormed = false) := by
  cases i with
  | constant l =>
    obtain rfl := Option.some.inj takes
    exact comes_proceed (has.leaves_constant hm next l)
  | newChannel capacity =>
    obtain rfl := Option.some.inj takes
    exact comes_proceed (has.leaves_newChannel hm next capacity)
  | newWaitGroup =>
    obtain rfl := Option.some.inj takes
    exact comes_proceed (has.leaves_newWaitGroup hm next)
  | unary op =>
    obtain rfl := Option.some.inj takes
    exact comes_proceed (has.leaves_unary hm next op)
  | receive =>
    obtain rfl := Option.some.inj takes
    exact has.comes_receive hm here next
  | groupDone =>
    obtain rfl := Option.some.inj takes
    exact comes_proceed (has.leaves_groupDone hm next)
  | groupWait =>
    obtain rfl := Option.some.inj takes
    exact has.comes_groupWait here next
  | binary op =>
    obtain rfl := Option.some.inj takes
    exact comes_proceed (has.leaves_binary hm next op)
  | send =>
    obtain rfl := Option.some.inj takes
    exact has.comes_send hm here next
  | groupAdd =>
    obtain rfl := Option.some.inj takes
    exact comes_proceed (has.leaves_groupAdd hm next)
  | call n =>
    obtain rfl := Option.some.inj takes
    exact comes_proceed (has.leaves_call hm small begun next)
  | _ => cases takes

/-- A new thread behind its call has the shape that it has in front of it. -/
theorem ending {start n : Nat} (has : m.Has plan pasts past ((σ.spawned start).lift n)) :
    m.Has plan pasts past ((σ.ending start).lift n) := by
  refine ⟨has.toRests, ?_, has.registers.height⟩
  have hframed := has.registers.framed
  change Framed plan m.heap past _ _ σ.scopes [] (.spawned start) _ at hframed
  change Framed plan m.heap past _ _ σ.scopes [] (.ending start) _
  generalize m.registers.frames = frames, past.bases = bases, σ.scopes = scopes at hframed ⊢
  cases hframed with
  | outer outer born _ fits =>
    cases outer
    exact .outer (.ending start) born nofun fits

/-- Elsewhere the thread goes on with the shape that it has. -/
theorem begun (has : m.Has plan pasts past σ) (hlevel : ∀ start, σ.level ≠ .spawned start) :
    m.Has plan pasts past.begun σ :=
  ⟨has.toRests, has.registers.framed.begun hlevel, has.registers.height⟩

/-- The running thread keeps to the plan. -/
theorem comes_step {program : Program} {i : Instruction} (has : m.Has plan pasts past σ)
    (hm : m.Sound) (small : plan.Small) (here : plan m.registers.pc = some σ)
    (hi : program.at? m.registers.pc = some i) (follows : Follows program plan m.registers.pc σ i)
    (home : σ.AtHome program plan m.registers.pc)
    (start : ∀ n, i = .spawn n → (pasts m.nextThread).born (some m.registers.pc) ∧
      (pasts m.nextThread).fresh ∧ (pasts m.nextThread).bases = []) :
    Ensures (step program) m (Comes plan pasts past.begun m.registers.pc)
      (fun e _ => e.isIllFormed = false) := by
  refine .bind (ensures_registersNow ?_)
  rw [hi]
  dsimp only
  by_cases hlevel : ∀ start, σ.level ≠ .spawned start
  · replace has := has.begun hlevel
    cases follows with
    | plain takes next => exact has.comes_plain hm small id program takes here next
    | load hq next => exact comes_proceed (has.leaves_load hm hq next)
    | store hq next => exact comes_proceed (has.leaves_store hm hq next)
    | closure fits next body => exact comes_proceed (has.leaves_closure hm small fits next body)
    | tailCall height level =>
      obtain ⟨ρ, rfl, hzero, hρ⟩ := σ.exists_lift height
      exact comes_proceed (has.leaves_tailCall hm hzero (hρ.trans level))
    | ret height level => exact comes_proceed (has.leaves_ret height level)
    | enterScope fits opens next => exact comes_proceed (has.leaves_enterScope hm fits opens next)
    | exitScope opens next => exact comes_proceed (has.leaves_closeScope opens next)
    | pop next => exact comes_proceed (has.leaves_drop next)
    | jumpUnless next jumps => exact comes_proceed (has.leaves_jumpUnless next jumps)
    | jump jumps => exact comes_proceed (has.leaves_goTo jumps)
    | loopEnd next => exact comes_proceed (has.leaves_advance next)
    | breakLoop height inside finds opened jumps =>
      exact (has.leaves_leave Bool.true height finds.search opened jumps).mono
        (fun _ _ h => .goesOn (.inl h.1) h.2) fun _ _ he => he
    | continueLoop height inside finds opened jumps =>
      exact (has.leaves_leave Bool.false height finds.search opened jumps).mono
        (fun _ _ h => .goesOn (.inl h.1) h.2) fun _ _ he => he
    | spawn call stop first ending next =>
      obtain ⟨born, fresh, bases⟩ := start _ rfl
      exact comes_proceed (has.leaves_spawn born fresh bases first next)
    | firstCall => exact absurd rfl (hlevel _)
    | endThread _ level =>
      obtain ⟨-, origin, outer, born⟩ := has.registers.framed.bases_eq_nil (level ▸ nofun)
      rw [level] at outer
      cases outer
      exact .pure (.exited born has.toRests)
    | halt height level =>
      obtain ⟨hbases, origin, outer, born⟩ := has.registers.framed.bases_eq_nil (level ▸ nofun)
      rw [level] at outer
      cases outer
      have hlen := has.registers.height
      rw [hbases, height] at hlen
      obtain ⟨a, ha⟩ := List.length_eq_one_iff.1 hlen
      refine .bind (ensures_registersNow (.pure ?_))
      rw [ha]
      exact .finished born ha
  · -- A new thread calls its function, and what follows is the end of the thread.
    obtain ⟨start, hstart⟩ := Classical.not_forall.1 hlevel
    rw [Shape.AtHome, Classical.not_not.1 hstart] at home
    obtain ⟨-, ρ, n, rfl, hcall, next, -⟩ := home
    obtain rfl := Option.some.inj (hi.symm.trans hcall)
    exact comes_proceed ((has.ending.begun nofun).leaves_call hm small id next)

end Has

end ChannelMachine.Machine

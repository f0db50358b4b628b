import Mathlib.Algebra.Group.Nat.Defs
import ChannelMachine.Proofs.Machine.Planned
import ChannelMachine.Proofs.Machine.Safety

/-!
# Instructions keep to the plan

An instruction that follows its shape takes a thread to an index where the plan has the shape that the
thread then has (`Machine.Arrives`).  It never ends in a fault that says that a stack is too short, that
a frame is missing or that there is no such variable (`Fault.isIllFormed`); what may still fail is what
depends on values.  The proof goes by the rules of `Follows`.
-/

namespace ChannelMachine

/-- Whether only code that was not compiled ends in a fault. -/
def Fault.isIllFormed : Fault → Bool
  | .stackUnderflow | .returnStackUnderflow | .invalidPosition _ | .nodeTooLarge _ | .outsideLoop
  | .unknownBuiltin _ | .noThreads | .type .notBlockframe => true
  | _ => false

/-- The bases of a thread after an instruction: those from before, or a function was called or
returned. -/
inductive Rebases (old : List Nat) (height : Nat) : List Nat → Prop where
  /-- The function goes on. -/
  | same : Rebases old height old
  /-- A function was called. -/
  | called : Rebases old height (height :: old)
  /-- A function returned. -/
  | returned {base : Nat} {outer : List Nat} (eq : old = base :: outer) : Rebases old height outer

/-- Sizes of nodes that one more frame needs. -/
theorem Shape.Fits.sizes {σ : Shape} {slots : Nat} (fits : σ.Fits slots) :
    slots + 1 ≤ nodeSize ∧ σ.scopes.length + 2 ≤ nodeSize := by
  obtain ⟨hslots, hscopes⟩ := fits
  unfold maxSlots at hslots hscopes
  omega

/-- Nodes that are not too large are only refused because there is no room. -/
theorem Heap.Failed.isIllFormed {h k : Heap} {roots : List Address} {sizes : List Nat} {e : Fault}
    (failed : Heap.Failed h k roots sizes e) (hsizes : ∀ n ∈ sizes, 1 ≤ n ∧ n ≤ nodeSize) :
    e.isIllFormed = false := by
  rcases failed.cause with rfl | ⟨n, hn, -, htoo⟩
  · rfl
  · exact absurd (hsizes n hn) htoo

/-- Indices in the plan fit into 32 bits. -/
def Plan.Small (plan : Plan) : Prop := ∀ pc σ, plan pc = some σ → pc < 2 ^ 32

namespace Registers.Has

variable {plan : Plan} {h : Heap} {past : Past} {r : Registers} {σ : Shape}

theorem pushed (has : r.Has plan h past σ) (a : Address) :
    ({ r with stack := a :: r.stack } : Registers).Has plan h past (σ.lift 1) :=
  ⟨has.framed, (congrArg (· + 1) has.height).trans (Nat.add_assoc ..)⟩

theorem dropped {n : Nat} (has : r.Has plan h past (σ.lift n)) :
    ({ r with stack := r.stack.drop n } : Registers).Has plan h past σ := by
  refine ⟨has.framed, ?_⟩
  have hlen : r.stack.length = past.bases.headD 0 + (σ.height + n) := has.height
  rw [List.length_drop, hlen]
  omega

theorem moved (has : r.Has plan h past σ) (pc : Nat) :
    ({ r with pc } : Registers).Has plan h past σ :=
  ⟨has.framed, has.height⟩

/-- The operands that an instruction takes are there. -/
theorem lt_length {n i : Nat} (has : r.Has plan h past (σ.lift n)) (hi : i < n) :
    i < r.stack.length := by
  have hlen : r.stack.length = past.bases.headD 0 + (σ.height + n) := has.height
  omega

end Registers.Has

namespace Machine

/-- What may be called is known to the plan, and the threads that do not run have the shapes that are
planned. -/
structure Rests (plan : Plan) (pasts : ThreadId → Past) (m : Machine) : Prop where
  /-- What may be called is known to the plan. -/
  callables : Heap.CallablesFit plan m.heap
  /-- The builtins are those that the compiler counts on. -/
  builtins : m.builtins = standardBuiltins
  /-- The threads that do not run. -/
  threads : ∀ (u : ThreadId) (r : Registers), m.threads[u]? = some r →
    r.Planned plan m.heap (pasts u)

/-- The running thread has a shape, and the others have the shapes that are planned. -/
structure Has (plan : Plan) (pasts : ThreadId → Past) (m : Machine) (past : Past) (σ : Shape) :
    Prop extends Rests plan pasts m where
  /-- The running thread. -/
  registers : m.registers.Has plan m.heap past σ

/-- The running thread has the shape that is planned where it is, after an instruction that was at an
index. -/
def Arrives (plan : Plan) (pasts : ThreadId → Past) (past : Past) (pc : Nat) (m : Machine) : Prop :=
  ∃ σ bases, plan m.registers.pc = some σ ∧ m.Has plan pasts (past.after pc m.registers bases) σ ∧
    Rebases past.bases m.registers.stack.length bases

/-- How an instruction may end. -/
inductive Comes (plan : Plan) (pasts : ThreadId → Past) (past : Past) (pc : Nat) :
    Progress → Machine → Prop where
  /-- The thread goes on, now or later. -/
  | goesOn {p : Progress} {k : Machine} (hp : p = .advanced ∨ p = .blocked)
      (arrives : k.Arrives plan pasts past pc) : Comes plan pasts past pc p k
  /-- A thread that is not the main one ends. -/
  | exited {k : Machine} {start : Nat} (born : past.born (some start))
      (rests : k.Rests plan pasts) : Comes plan pasts past pc .exited k
  /-- The main thread ends with one operand. -/
  | finished {k : Machine} {a : Address} (born : past.born none)
      (stack : k.registers.stack = [a]) : Comes plan pasts past pc (.finished a) k

/-- An action leaves the running thread where it has the shape that is planned. -/
def LeavesPlanned {α : Type} (plan : Plan) (pasts : ThreadId → Past) (past : Past) (pc : Nat)
    (x : Action α) (m : Machine) : Prop :=
  Ensures x m (fun _ k => k.Arrives plan pasts past pc) (fun e _ => e.isIllFormed = false)

variable {plan : Plan} {pasts : ThreadId → Past} {past : Past} {pc : Nat} {m : Machine}
  {σ τ : Shape} {α β : Type}

/-- The registers fit the plan again. -/
theorem Rests.arrives (rests : m.Rests plan pasts) {bases : List Nat}
    (framed : Framed plan m.heap past m.registers.environment m.registers.frames σ.scopes σ.opened
      σ.level bases)
    (height : m.registers.stack.length = bases.headD 0 + σ.height)
    (rebases : Rebases past.bases m.registers.stack.length bases)
    (here : plan m.registers.pc = some σ) : m.Arrives plan pasts past pc :=
  ⟨σ, bases, here, ⟨rests, framed.after List.suffix_rfl, height⟩, rebases⟩

/-! ## Changes of a machine -/

/-- The environment inside of a scope or of a function that was just made. -/
theorem Sound.inside_fits (hm : m.Sound) {k : Heap} {captured frame inside : Address}
    {values scopes : List Nat} (hlive : m.heap.Live m.roots captured)
    (htag : m.heap.tag captured = .environment) (fits : m.heap.EnvironmentFits captured scopes)
    (made : Heap.MadeEnvironment m.heap k m.roots captured values frame inside) :
    (m.withHeap k).heap.EnvironmentFits inside (values.length :: scopes) :=
  (fits.extend hm.heap hm.inUse_root hlive htag made).arena (alike_withHeap m k).toSameArena
    (made.toGrows.sound.typed inside made.newInside.toInUse).le

namespace Rests

/-- The heap changes, but for what is steady. -/
theorem transport {k : Machine} (rests : m.Rests plan pasts) (hm : m.Sound)
    (steady : m.heap.Steady k.heap m.roots) (callables : Heap.CallablesFit plan k.heap)
    (hthreads : k.threads = m.threads) (hbuiltins : k.builtins = m.builtins) :
    k.Rests plan pasts where
  callables := callables
  builtins := hbuiltins.trans rests.builtins
  threads := by
    intro u r hr
    rw [hthreads] at hr
    exact (rests.threads u r hr).steady steady hm.heap hm.inUse_root (hm.threads u r hr)
      fun a ha => mem_threadRoots.2 (.inr ⟨u, r, hr, ha⟩)

/-- Only some parts of the machine count. -/
theorem congr {k : Machine} (rests : m.Rests plan pasts) (hheap : k.heap = m.heap)
    (hthreads : k.threads = m.threads) (hbuiltins : k.builtins = m.builtins) :
    k.Rests plan pasts :=
  ⟨hheap ▸ rests.callables, hbuiltins.trans rests.builtins, hheap ▸ hthreads ▸ rests.threads⟩

end Rests

namespace Has

/-- The heap changes, but for what is steady. -/
theorem transport {k : Machine} (has : m.Has plan pasts past σ) (hm : m.Sound)
    (steady : m.heap.Steady k.heap m.roots) (callables : Heap.CallablesFit plan k.heap)
    (hregisters : k.registers = m.registers) (hthreads : k.threads = m.threads)
    (hbuiltins : k.builtins = m.builtins) : k.Has plan pasts past σ where
  toRests := has.toRests.transport hm steady callables hthreads hbuiltins
  registers := by
    rw [hregisters]
    exact has.registers.steady steady hm.heap hm.inUse_root hm.registers
      fun a ha => mem_threadRoots.2 (.inl ha)

/-- Only some parts of the machine count. -/
theorem congr {k : Machine} (has : m.Has plan pasts past σ) (hheap : k.heap = m.heap)
    (hregisters : k.registers = m.registers) (hthreads : k.threads = m.threads)
    (hbuiltins : k.builtins = m.builtins) : k.Has plan pasts past σ where
  toRests := has.toRests.congr hheap hthreads hbuiltins
  registers := by
    rw [hheap, hregisters]
    exact has.registers

theorem noted (has : m.Has plan pasts past σ) (e : Event) : (m.note e).Has plan pasts past σ := by
  unfold Machine.note
  split
  · exact has.congr rfl rfl rfl rfl
  · exact has

theorem withRegisters (has : m.Has plan pasts past σ) {r : Registers}
    (hr : r.Has plan m.heap past τ) : (m.withRegisters r).Has plan pasts past τ :=
  ⟨⟨has.callables, has.builtins, has.threads⟩, hr⟩

/-- The heap has grown. -/
theorem withHeap (has : m.Has plan pasts past σ) (hm : m.Sound) {k : Heap}
    (g : Heap.Grows m.heap k m.roots) (callables : Heap.CallablesFit plan k) :
    (m.withHeap k).Has plan pasts past σ := by
  have arena := (alike_withHeap m k).toSameArena
  exact has.transport hm (g.steady.arena arena) (callables.arena g.sound arena) rfl rfl rfl

/-- Plain nodes were added to the heap. -/
theorem withPlain (has : m.Has plan pasts past σ) (hm : m.Sound) {k : Heap}
    (g : Heap.Grows m.heap k m.roots) {values : Address → Prop}
    (adds : Heap.AddsPlain m.heap k values) :
    (m.withHeap k).Has plan pasts past σ :=
  has.withHeap hm g (has.callables.addsPlain hm.heap g.sound adds)

/-- A node was written that is not steady. -/
theorem rewritten (has : m.Has plan pasts past σ) (hm : m.Sound) {k : Heap} {a : Address}
    (u : Heap.Updated m.heap k a) (hkind : (m.heap.tag a).isSteady = false)
    (hsize : m.heap.tag a = .frame → k.size a = m.heap.size a) {l : Machine}
    (arena : Heap.SameArena k l.heap) (hregisters : l.registers = m.registers)
    (hthreads : l.threads = m.threads) (hbuiltins : l.builtins = m.builtins) :
    l.Has plan pasts past σ :=
  has.transport hm ((u.steady hm.heap hm.inUse_root hkind hsize).arena arena)
    ((has.callables.updated hm.heap u hkind hsize).arena u.sound arena) hregisters hthreads hbuiltins

/-- A channel or a counter was written. -/
theorem updated (has : m.Has plan pasts past σ) (hm : m.Sound) {k : Heap} {a : Address} {tag : Tag}
    (u : Heap.Updated m.heap k a) (htag : m.heap.tag a = tag) (hkind : tag.isSteady = false)
    (hframe : tag ≠ .frame) : ({ m with heap := k } : Machine).Has plan pasts past σ :=
  has.rewritten hm u (htag ▸ hkind) (fun h => absurd (htag.symm.trans h) hframe)
    ⟨rfl, rfl, rfl, rfl⟩ rfl rfl rfl

theorem pushed (has : m.Has plan pasts past σ) (a : Address) :
    (m.withRegisters { m.registers with stack := a :: m.registers.stack }).Has plan pasts past
      (σ.lift 1) :=
  has.withRegisters (has.registers.pushed a)

theorem replaced {n : Nat} (has : m.Has plan pasts past (σ.lift n)) (a : Address) :
    (m.withRegisters { m.registers with stack := a :: m.registers.stack.drop n }).Has plan pasts past
      (σ.lift 1) :=
  has.withRegisters (has.registers.dropped.pushed a)

theorem moved (has : m.Has plan pasts past σ) (pc : Nat) :
    (m.withRegisters { m.registers with pc }).Has plan pasts past σ :=
  has.withRegisters (has.registers.moved pc)

/-! ## Steps of instructions -/

theorem arrives (has : m.Has plan pasts past σ) (here : plan m.registers.pc = some σ) :
    m.Arrives plan pasts past pc :=
  has.toRests.arrives has.registers.framed has.registers.height .same here

theorem leaves_goTo (has : m.Has plan pasts past σ) {target : Nat} (here : plan target = some σ) :
    LeavesPlanned plan pasts past pc (goTo target) m :=
  ensures_goTo ((has.moved target).arrives here)

theorem leaves_advance (has : m.Has plan pasts past σ)
    (next : plan (m.registers.pc + 1) = some σ) : LeavesPlanned plan pasts past pc advance m :=
  ensures_advance ((has.moved _).arrives next)

theorem leaves_push_advance (has : m.Has plan pasts past σ)
    (next : plan (m.registers.pc + 1) = some (σ.lift 1)) (a : Address) :
    LeavesPlanned plan pasts past pc (do push a; advance) m :=
  .bind (ensures_push ((has.pushed a).leaves_advance next))

theorem leaves_replace_advance {n : Nat} (has : m.Has plan pasts past (σ.lift n))
    (next : plan (m.registers.pc + 1) = some (σ.lift 1)) (a : Address) :
    LeavesPlanned plan pasts past pc (do replace n a; advance) m :=
  .bind (ensures_replace ((has.replaced a).leaves_advance next))

/-- The rule for an operand that is planned. -/
theorem ensures_peek {n i : Nat} {good : Address → Machine → Prop}
    {bad : Fault → Machine → Prop} (has : m.Has plan pasts past (σ.lift n)) (hi : i < n)
    (h : ∀ a, m.registers.stack[i]? = some a → good a m) : Ensures (peek i) m good bad :=
  Machine.ensures_peek h fun hnone =>
    absurd (has.registers.lt_length hi) (Nat.not_lt.2 (List.getElem?_eq_none_iff.1 hnone))

/-- The rule for popping an operand that is planned. -/
theorem ensures_pop {good : Address → Machine → Prop} {bad : Fault → Machine → Prop}
    (has : m.Has plan pasts past (σ.lift 1))
    (h : ∀ a rest, m.registers.stack = a :: rest →
      (m.withRegisters { m.registers with stack := rest }).Has plan pasts past σ →
      good a (m.withRegisters { m.registers with stack := rest })) : Ensures pop m good bad := by
  refine Machine.ensures_pop (fun a rest hstack => h a rest hstack (has.withRegisters ?_))
    fun hnil => ?_
  · have hdropped := has.registers.dropped
    rw [hstack] at hdropped
    exact hdropped
  · have hlt := has.registers.lt_length (Nat.lt_succ_self 0)
    rw [hnil] at hlt
    cases hlt

end Has

/-! ## Values -/

/-- An action on the heap makes plain nodes, and its faults are those of values. -/
def MakesPlain (action : Roots → Heap.Action α) (h : Heap) : Prop :=
  ∀ roots : Roots, (∀ a ∈ roots.get, h.InUse a) →
    Ensures (action roots) h (fun _ k => Heap.Grows h k roots.get ∧ Heap.AddsPlain h k fun _ => True)
      (fun e _ => e.isIllFormed = false)

section MakesPlain

variable {h : Heap} (hs : h.Sound)

include hs

theorem makesPlain_newNumber (x : Number) : MakesPlain (Heap.newNumber x) h := fun _ hroots =>
  ((hs.newNumber_ensures hroots x).and (hs.adds_newNumber hroots x)).mono
    (fun _ _ made => ⟨made.1.toGrows, made.2⟩) fun _ _ refused => by rw [refused.1.exhausted]; rfl

theorem makesPlain_newString (s : String) : MakesPlain (Heap.newString s) h := fun _ hroots =>
  ((hs.newString_ensures hroots s).and (hs.adds_newString hroots s)).mono
    (fun _ _ made => ⟨made.1.toGrows, made.2⟩) fun _ _ refused => by
      rw [refused.1.1.exhausted]
      rfl

theorem makesPlain_pure (x : α) : MakesPlain (fun _ => pure x) h :=
  fun _ _ => .pure ⟨.refl hs _, .refl h⟩

theorem makesPlain_applyUnary (op : UnaryOp) (a : Address) :
    MakesPlain (Heap.applyUnary op a) h := by
  intro roots hroots
  cases op with
  | neg =>
    refine .bind (.get ?_)
    split
    next => exact makesPlain_newNumber hs _ roots hroots
    next => exact .bind (.get (.throw rfl))
  | not =>
    refine .bind (.get ?_)
    split
    next => exact makesPlain_pure hs _ roots hroots
    next => exact .bind (.get (.throw rfl))

theorem makesPlain_applyBinary (op : BinaryOp) (a b : Address) :
    MakesPlain (Heap.applyBinary op a b) h := by
  intro roots hroots
  cases op
  case eq | ne => exact .bind (.get (makesPlain_pure hs _ roots hroots))
  case add =>
    refine .bind (.get ?_)
    split
    next => exact makesPlain_newNumber hs _ roots hroots
    next => exact makesPlain_newString hs _ roots hroots
    next => exact .bind (.get (.throw rfl))
  case lt | le | gt | ge =>
    refine .bind (.get ?_)
    split
    next => exact makesPlain_pure hs _ roots hroots
    next => exact makesPlain_pure hs _ roots hroots
    next => exact .bind (.get (.throw rfl))
  case sub | mul | div | mod =>
    refine .bind (.get ?_)
    split
    next => exact makesPlain_newNumber hs _ roots hroots
    next => exact .bind (.get (.throw rfl))

end MakesPlain

namespace Has

/-- The rule for an action on the heap that makes plain nodes. -/
theorem ensures_onHeap (has : m.Has plan pasts past σ) (hm : m.Sound)
    {action : Roots → Heap.Action α} (h : MakesPlain action m.heap) {good : α → Machine → Prop}
    (hgood : ∀ x k, (m.withHeap k).Has plan pasts past σ → good x (m.withHeap k)) :
    Ensures (onHeap action) m good (fun e _ => e.isIllFormed = false) :=
  Machine.ensures_onHeap ((h (threadRoots m.registers m.threads) hm.inUse_roots).mono
    (fun x k made => hgood x k (has.withPlain hm made.1 made.2)) fun _ _ he => he)

theorem leaves_constant (has : m.Has plan pasts past σ) (hm : m.Sound)
    (next : plan (m.registers.pc + 1) = some (σ.lift 1)) (l : Literal) :
    LeavesPlanned plan pasts past pc (constant l) m := by
  unfold constant
  cases l with
  | number x =>
    exact .bind (has.ensures_onHeap hm (makesPlain_newNumber hm.heap x)
      fun a _ hk => hk.leaves_push_advance next a)
  | text s =>
    exact .bind (has.ensures_onHeap hm (makesPlain_newString hm.heap s)
      fun a _ hk => hk.leaves_push_advance next a)
  | bool b => exact .bind (.pure (has.leaves_push_advance next _))
  | null => exact .bind (.pure (has.leaves_push_advance next _))
  | undefined => exact .bind (.pure (has.leaves_push_advance next _))

theorem leaves_unary (has : m.Has plan pasts past (σ.lift 1)) (hm : m.Sound)
    (next : plan (m.registers.pc + 1) = some (σ.lift 1)) (op : UnaryOp) :
    LeavesPlanned plan pasts past pc (unary op) m := by
  refine .bind (has.ensures_peek (by decide) fun a _ => ?_)
  exact .bind (has.ensures_onHeap hm (makesPlain_applyUnary hm.heap op a)
    fun a _ hk => hk.leaves_replace_advance next a)

theorem leaves_binary (has : m.Has plan pasts past (σ.lift 2)) (hm : m.Sound)
    (next : plan (m.registers.pc + 1) = some (σ.lift 1)) (op : BinaryOp) :
    LeavesPlanned plan pasts past pc (binary op) m := by
  refine .bind (has.ensures_peek (by decide) fun b _ => ?_)
  refine .bind (has.ensures_peek (by decide) fun a _ => ?_)
  exact .bind (has.ensures_onHeap hm (makesPlain_applyBinary hm.heap op a b)
    fun a _ hk => hk.leaves_replace_advance next a)

/-! ## Variables -/

/-- A variable that is planned has a slot. -/
theorem slotOf? (has : m.Has plan pasts past σ) (hm : m.Sound) {q : Position} (hq : σ.Has q) :
    ∃ frame, m.heap.slotOf? m.registers.environment q = some (frame, q.slot + 1) := by
  obtain ⟨slots, hslots, hlt⟩ := hq
  exact has.registers.framed.environmentFits.slotOf? hm.heap hm.registers.inUse hm.registers.tag
    hslots hlt

theorem leaves_load (has : m.Has plan pasts past σ) (hm : m.Sound) {q : Position}
    (hq : σ.Has q) (next : plan (m.registers.pc + 1) = some (σ.lift 1)) :
    LeavesPlanned plan pasts past pc (load q) m := by
  obtain ⟨frame, hslot⟩ := has.slotOf? hm hq
  refine .bind (ensures_registersNow (.bind (ensures_readHeap ?_)))
  rw [Heap.lookup, hslot]
  dsimp only
  split
  next => exact .bind (.throw rfl)
  next => exact has.leaves_push_advance next _

theorem leaves_store (has : m.Has plan pasts past (σ.lift 1)) (hm : m.Sound) {q : Position}
    (hq : σ.Has q) (next : plan (m.registers.pc + 1) = some (σ.lift 1)) :
    LeavesPlanned plan pasts past pc (store q) m := by
  obtain ⟨frame, hslot⟩ := has.slotOf? hm hq
  obtain ⟨hframe, htag, hpos, hlt⟩ := hm.heap.slotOf? hm.registers.inUse hm.registers.tag hslot
  refine .bind (has.ensures_peek (by decide) fun a ha => ?_)
  obtain ⟨hin, hvalue⟩ := hm.isValue_stack ha
  have u := hm.heap.setVariable hframe htag hpos hlt hin hvalue
  have hle := (hm.heap.typed frame hframe).le
  have hsize : (m.heap.setWord frame (q.slot + 1) a).size frame = m.heap.size frame := by
    rw [Heap.size, Heap.size, Heap.header_setWord hframe.toIsBlock hframe.toIsBlock hpos (by omega)]
  refine .bind (ensures_registersNow (.bind (Machine.ensures_onHeap ?_)))
  unfold Ensures Heap.assign
  rw [hslot]
  refine Has.leaves_advance (σ := σ.lift 1) (has.rewritten hm u (by rw [htag]; rfl) (fun _ => hsize)
    (alike_withHeap m _).toSameArena rfl rfl rfl) next

/-! ## Scopes and loops -/

theorem leaves_drop (has : m.Has plan pasts past (σ.lift 1))
    (next : plan (m.registers.pc + 1) = some σ) : LeavesPlanned plan pasts past pc drop m :=
  .bind (has.ensures_pop fun _ _ _ hk => hk.leaves_advance next)

theorem leaves_jumpUnless (has : m.Has plan pasts past (σ.lift 1)) {target : Nat}
    (next : plan (m.registers.pc + 1) = some σ) (jumps : plan target = some σ) :
    LeavesPlanned plan pasts past pc (jumpUnless target) m := by
  refine .bind (has.ensures_pop fun _ _ _ hk => .bind (ensures_readHeap ?_))
  split
  next => exact hk.leaves_advance next
  next => exact hk.leaves_goTo jumps
  next => exact .bind (ensures_readHeap (.throw rfl))

theorem leaves_enterScope (has : m.Has plan pasts past σ) (hm : m.Sound) {slots : Nat}
    (fits : σ.Fits slots) (opens : σ.Opens m.registers.pc slots τ)
    (next : plan (m.registers.pc + 1) = some τ) :
    LeavesPlanned plan pasts past m.registers.pc (enterScope slots) m := by
  refine .bind (ensures_registersNow (.bind (Machine.ensures_onHeap ?_)))
  have hmade := (hm.heap.newScope_ensures hm.inUse_roots Sound.live_environment hm.registers.tag slots).and
    (hm.heap.adds_newScope hm.inUse_roots Sound.live_environment hm.registers.tag
      (P := fun _ => True) trivial slots)
  refine hmade.mono ?_ fun _ _ failed => failed.1.isIllFormed ?_
  · rintro ⟨block, inside⟩ k ⟨⟨hblock, frame, made⟩, adds⟩
    have hk := has.withPlain hm made.toGrows adds
    have hfits := hm.inside_fits Sound.live_environment hm.registers.tag
      has.registers.framed.environmentFits made
    rw [List.length_replicate] at hfits
    have alike := alike_withHeap m k
    have htag := (alike.tag block).trans hblock.toHolds.tag
    have hlink : (m.withHeap k).heap.word block 1 = m.registers.environment :=
      (alike.toSameArena.same block).word 1 (by decide) (by decide) |>.trans (hblock.toHolds.word 0 _ rfl)
    refine ensures_setRegisters ⟨τ, past.bases, next, ⟨hk.toRests.congr rfl rfl rfl, ?_, ?_⟩, .same⟩
    · rw [opens.scopes, opens.opened, opens.level]
      exact .block (hk.registers.framed.after (List.suffix_cons ..)) htag hlink (.inr ⟨rfl, rfl, rfl⟩)
        hfits
    · rw [opens.height]
      exact hk.registers.height
  · rw [has.registers.framed.environmentFits.frameCount]
    obtain ⟨hslots, hscopes⟩ := fits.sizes
    intro n hn
    rcases List.mem_cons.1 hn with rfl | hn
    · exact ⟨Nat.le_add_left .., hslots⟩
    · rw [List.mem_singleton.1 hn]
      exact ⟨Nat.le_add_left .., hscopes⟩

/-- The rule for closing a scope that is planned. -/
theorem ensures_exitScope {environment : Address} {scopes opened bases : List Nat} {start : Nat}
    {level : Level} {good : Unit → Machine → Prop} {bad : Fault → Machine → Prop}
    (framed : Framed plan m.heap past environment m.registers.frames scopes (start :: opened) level
      bases)
    (h : ∀ a rest, m.registers.frames = a :: rest → m.heap.tag a = .blockframe →
      Framed plan m.heap past (m.heap.word a 1) rest (scopes.drop 1) opened level bases →
      good () (m.withRegisters
        { m.registers with frames := rest, environment := m.heap.word a 1 })) :
    Ensures exitScope m good bad := by
  obtain ⟨a, rest, hframes, htag, -, hrest⟩ := framed.exit
  refine .bind (ensures_registersNow ?_)
  rw [hframes]
  refine .bind (ensures_setRegisters (.bind (ensures_readHeap ?_)))
  split
  next => exact .bind (ensures_readHeap (ensures_setRegisters (h a rest hframes htag hrest)))
  next hne => exact absurd htag hne

/-- The rule for closing scopes that are planned. -/
theorem ensures_exitScopes (n : Nat) : ∀ {m : Machine} {scopes opened bases : List Nat}
    {level : Level} {good : Unit → Machine → Prop} {bad : Fault → Machine → Prop},
    Framed plan m.heap past m.registers.environment m.registers.frames scopes opened level bases →
    n ≤ opened.length →
    (∀ environment, Framed plan m.heap past environment (m.registers.frames.drop n)
      (scopes.drop n) (opened.drop n) level bases →
      (∀ a ∈ m.registers.frames.take n, m.heap.tag a = .blockframe) →
      good () (m.withRegisters
        { m.registers with frames := m.registers.frames.drop n, environment := environment })) →
    Ensures (exitScopes n) m good bad := by
  induction n with
  | zero =>
    intro m scopes opened bases level good bad framed _ h
    exact .pure (h _ framed fun _ ha => nomatch ha)
  | succ n ih =>
    intro m scopes opened bases level good bad framed hn h
    cases opened with
    | nil => cases hn
    | cons start opened =>
      refine .bind (ensures_exitScope framed fun a rest hframes htag hrest => ?_)
      refine ih hrest (Nat.le_of_succ_le_succ hn) fun environment hinner htags => ?_
      have hdrop := h environment
      rw [hframes, List.drop_succ_cons, List.take_succ_cons] at hdrop
      refine hdrop ?_ fun b hb => ?_
      · rwa [List.drop_drop, Nat.add_comm] at hinner
      · rcases List.mem_cons.1 hb with rfl | hb
        · exact htag
        · exact htags b hb

theorem leaves_closeScope (has : m.Has plan pasts past τ) {start slots : Nat}
    (opens : σ.Opens start slots τ) (next : plan (m.registers.pc + 1) = some σ) :
    LeavesPlanned plan pasts past pc closeScope m := by
  have hframed := has.registers.framed
  rw [opens.scopes, opens.opened, opens.level] at hframed
  refine .bind (ensures_exitScope hframed fun a rest hframes htag hrest => ?_)
  refine ensures_advance (Rests.arrives (has.toRests.congr rfl rfl rfl) hrest ?_ .same next)
  exact has.registers.height.trans (congrArg _ opens.height)

theorem leaves_leave (has : m.Has plan pasts past σ) {program : Program} {i : Source.Inside}
    (isBreak : Bool) (height : σ.height = 0)
    (search : program.loopEndAfter m.registers.pc = .found ⟨i.loop.marker, i.loop.next, i.scopes⟩)
    (opened : σ.opened[i.scopes]? = some i.loop.start)
    (jumps : plan (if isBreak then i.loop.marker + 1 else i.loop.next) = some (σ.leave i.scopes)) :
    Ensures (leave program isBreak) m
      (fun p k => p = .advanced ∧ k.Arrives plan pasts past pc)
      (fun e _ => e.isIllFormed = false) := by
  have hle : i.scopes ≤ σ.opened.length := Nat.le_of_lt (List.getElem?_eq_some_iff.1 opened).1
  refine .bind (ensures_registersNow ?_)
  rw [search]
  refine .bind (.bind (ensures_exitScopes _ has.registers.framed hle
    fun environment hinner _ => ensures_goTo (.pure ⟨rfl, ?_⟩)))
  refine Rests.arrives (σ := σ.leave i.scopes) (has.toRests.congr rfl rfl rfl) hinner ?_ .same jumps
  exact has.registers.height.trans (congrArg _ height)

end Has

end Machine

end ChannelMachine

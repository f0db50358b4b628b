import ChannelMachine.Proofs.Machine.Yielding

/-!
# Instructions have their effects

What `Machine.effect?` reads off a machine is what its next instruction does (`Sound.performs_step`).  An
instruction that changes no more than the heap, the registers and what is printed is told by the heap and
the registers alone (`realizes_plain`); sends, receives and wait-groups go with the queues.
-/

namespace ChannelMachine

/-! ## Effects without queues -/

/-- Neither a channel nor a wait-group is made. -/
def Blueprint.IsPlain (b : Blueprint) : Prop :=
  ∀ header words, b = .node header words → header.tag ≠ .channel ∧ header.tag ≠ .waitGroup

namespace Blueprint

theorem plain_node {header : Header} {words : List Ref} (hchannel : header.tag ≠ .channel)
    (hgroup : header.tag ≠ .waitGroup) : (node header words).IsPlain := by
  intro _ _ heq
  obtain ⟨rfl, -⟩ := Blueprint.node.inj heq
  exact ⟨hchannel, hgroup⟩

theorem plain_text (s : String) : (text s).IsPlain := by
  intro _ _ heq
  cases heq

theorem plain_number (x : Number) : (number x).IsPlain := plain_node Tag.noConfusion Tag.noConfusion

theorem plain_frame (values : List Nat) : (frame values).IsPlain :=
  plain_node Tag.noConfusion Tag.noConfusion

theorem plain_inside (h : Heap) (environment : Address) (i : Nat) : (inside h environment i).IsPlain :=
  plain_node Tag.noConfusion Tag.noConfusion

theorem plain_back {header : Header} (htag : header.tag = .blockframe ∨ header.tag = .callframe)
    (environment : Address) : (back header environment).IsPlain := by
  rcases htag with htag | htag
  · exact plain_node (htag ▸ Tag.noConfusion) (htag ▸ Tag.noConfusion)
  · exact plain_node (htag ▸ Tag.noConfusion) (htag ▸ Tag.noConfusion)

end Blueprint

namespace Product

/-- The value is neither a new channel nor a new wait-group. -/
def IsPlain (x : Product) : Prop := ∀ b ∈ x.made, b.IsPlain

theorem plain_known (a : Address) : (known a).IsPlain := fun _ hb => absurd hb List.not_mem_nil

theorem plain_new {b : Blueprint} (hb : b.IsPlain) : (new b).IsPlain :=
  fun _ hmem => List.mem_singleton.1 hmem ▸ hb

end Product

/-- Whether a node is a number or a text. -/
def Blueprint.IsScalar (b : Blueprint) : Prop := (∃ x, b = .number x) ∨ ∃ s, b = .text s

theorem Blueprint.IsScalar.isPlain {b : Blueprint} (hb : b.IsScalar) : b.IsPlain := by
  rcases hb with ⟨x, rfl⟩ | ⟨s, rfl⟩
  · exact plain_number x
  · exact plain_text s

namespace Product

/-- The value is there, or it is a number or a text. -/
def IsScalar (x : Product) : Prop := ∀ b ∈ x.made, b.IsScalar

theorem IsScalar.isPlain {x : Product} (hx : x.IsScalar) : x.IsPlain := fun b hb => (hx b hb).isPlain

theorem scalar_known (a : Address) : (known a).IsScalar := fun _ hb => absurd hb List.not_mem_nil

theorem scalar_number (x : Number) : (new (.number x)).IsScalar :=
  fun _ hb => .inl ⟨x, List.mem_singleton.1 hb⟩

theorem scalar_text (s : String) : (new (.text s)).IsScalar :=
  fun _ hb => .inr ⟨s, List.mem_singleton.1 hb⟩

end Product

theorem Literal.scalar_product (l : Literal) : l.product.IsScalar := by
  cases l with
  | number x => exact Product.scalar_number x
  | text s => exact Product.scalar_text s
  | bool | null | undefined => exact Product.scalar_known _

namespace Heap

variable {h : Heap} {x : Product}

theorem scalar_unary {op : UnaryOp} {a : Address} (hx : h.unaryProduct? op a = some x) :
    x.IsScalar := by
  cases op with
  | neg =>
    obtain ⟨y, -, rfl⟩ := Option.map_eq_some_iff.1 hx
    exact Product.scalar_number _
  | not =>
    obtain ⟨b, -, rfl⟩ := Option.map_eq_some_iff.1 hx
    exact Product.scalar_known _

theorem scalar_binary {op : BinaryOp} {a b : Address} (hx : h.binaryProduct? op a b = some x) :
    x.IsScalar := by
  unfold binaryProduct? at hx
  cases op with
  | eq | ne => exact Option.some.inj hx ▸ Product.scalar_known _
  | lt | le | gt | ge =>
    cases hop : h.operands a b with
    | numbers | texts => exact Option.some.inj (hop ▸ hx) ▸ Product.scalar_known _
    | other => cases hop ▸ hx
  | add | sub | mul | div | mod =>
    cases hop : h.operands a b with
    | numbers => exact Option.some.inj (hop ▸ hx) ▸ Product.scalar_number _
    | texts =>
      first
      | exact Option.some.inj (hop ▸ hx) ▸ Product.scalar_text _
      | cases hop ▸ hx
    | other => cases hop ▸ hx

theorem scalar_builtin {b : Builtin} {as : List Address} {printed : String}
    (hx : h.builtinProduct? b as = some (x, printed)) : x.IsScalar := by
  have hnumber : ∀ {α : Type} {y? : Option α} {g : α → Number},
      (y?.map fun y => (Product.new (.number (g y)), "")) = some (x, printed) → x.IsScalar := by
    intro α y? g heq
    obtain ⟨_, -, heq⟩ := Option.map_eq_some_iff.1 heq
    obtain ⟨rfl, -⟩ := Prod.mk.inj heq
    exact Product.scalar_number _
  unfold builtinProduct? at hx
  split at hx
  next => exact (Prod.mk.inj (Option.some.inj hx)).1 ▸ Product.scalar_known _
  next => exact (Prod.mk.inj (Option.some.inj hx)).1 ▸ Product.scalar_known _
  next => exact hnumber hx
  next => exact hnumber hx
  next => exact hnumber hx
  next => exact hnumber hx
  next => exact (Prod.mk.inj (Option.some.inj hx)).1 ▸ Product.scalar_text _
  next => cases hx

end Heap

/-- An effect that has to do with the heap, the registers and what is printed only. -/
structure Effect.Calm (e : Effect) : Prop where
  /-- No thread is started. -/
  started : e.started = none
  /-- No thread leaves a queue. -/
  leave : e.leave = Machine.oneFrom []
  /-- No thread is woken. -/
  woken : e.woken = []
  /-- The thread joins no queue. -/
  joins : e.joins = none

namespace Machine

/-- Beside the heap, the registers, the queues and what is printed, nothing changes. -/
structure Aside (m k : Machine) (printed : String) : Prop where
  /-- The running thread. -/
  current : k.current = m.current
  /-- The other threads. -/
  threads : k.threads = m.threads
  /-- The number of the next thread. -/
  nextThread : k.nextThread = m.nextThread
  /-- The threads that were started or woken. -/
  runnable : k.runnable = m.runnable
  /-- The builtins. -/
  builtins : k.builtins = m.builtins
  /-- Whether channels are typed. -/
  typedChannels : k.typedChannels = m.typedChannels
  /-- What has been printed. -/
  output : k.output = m.output ++ printed

/-- Nor do the queues change. -/
structure Beside (m k : Machine) (printed : String) : Prop extends Aside m k printed where
  /-- The threads that wait for channels. -/
  channels : k.channels = m.channels
  /-- The threads that wait for wait-groups. -/
  groups : k.groups = m.groups

variable {m k : Machine} {program : Program}

theorem Beside.refl (m : Machine) : Beside m m "" :=
  ⟨⟨rfl, rfl, rfl, rfl, rfl, rfl, String.append_empty.symm⟩, rfl, rfl⟩

theorem Beside.withRegisters {printed : String} (beside : Beside m k printed) (r : Registers) :
    Beside m (k.withRegisters r) printed :=
  ⟨⟨beside.current, beside.threads, beside.nextThread, beside.runnable, beside.builtins,
    beside.typedChannels, beside.output⟩, beside.channels, beside.groups⟩

theorem Beside.withHeap {printed : String} (beside : Beside m k printed) (h : Heap) :
    Beside m (k.withHeap h) printed :=
  ⟨⟨beside.current, beside.threads, beside.nextThread, beside.runnable, beside.builtins,
    beside.typedChannels, beside.output⟩, beside.channels, beside.groups⟩

theorem Beside.printed (m : Machine) (text : String) :
    Beside m { m with output := m.output ++ text } text :=
  ⟨⟨rfl, rfl, rfl, rfl, rfl, rfl, rfl⟩, rfl, rfl⟩

theorem Beside.trans {l : Machine} {first second : String} (one : Beside m k first)
    (two : Beside k l second) : Beside m l (first ++ second) where
  current := two.current.trans one.current
  threads := two.threads.trans one.threads
  nextThread := two.nextThread.trans one.nextThread
  runnable := two.runnable.trans one.runnable
  builtins := two.builtins.trans one.builtins
  typedChannels := two.typedChannels.trans one.typedChannels
  output := by rw [two.output, one.output, String.append_assoc]
  channels := two.channels.trans one.channels
  groups := two.groups.trans one.groups

section Realizing

variable {e : Effect} {f : Nat → Address}

/-- Where no thread is started, woken or queued, the heap, the registers and new queues tell all. -/
theorem realizes_calm (calm : e.Calm) (draws : Draws m e)
    (heap : m.heap.Undergoes k.heap m.roots e.toChange f)
    (outline : k.registers = e.registers.placed f) (aside : Aside m k e.printed)
    (queue : ∀ p : Place, m.heap.Live m.roots p.address → k.queue p = m.queue p)
    (newQueue : ∀ i header words, e.made[i]? = some (.node header words) →
      (header.tag = .channel → ∀ side, k.queue (.channel side (f i)) = []) ∧
        (header.tag = .waitGroup → k.queue (.group (f i)) = [])) :
    Realizes m k e f where
  toDraws := draws
  heap := heap
  outline := outline
  current := aside.current
  threads := by
    rw [calm.started]
    exact aside.threads
  nextThread := by
    rw [calm.started]
    exact aside.nextThread
  queue := by
    intro p hp
    rw [calm.leave, calm.joins, if_neg (Option.some_ne_none p).symm, List.append_nil, oneFrom,
      if_neg List.not_mem_nil, List.drop_zero]
    exact queue p hp
  newQueue := newQueue
  runnable := by
    rw [calm.woken, calm.started, List.append_nil]
    exact aside.runnable.trans (List.append_nil _).symm
  builtins := aside.builtins
  output := aside.output
  typedChannels := aside.typedChannels

/-- Where nothing happens to queues, the heap and the registers tell all. -/
theorem realizes_plain (calm : e.Calm) (plain : ∀ b ∈ e.made, b.IsPlain) (draws : Draws m e)
    (heap : m.heap.Undergoes k.heap m.roots e.toChange f)
    (outline : k.registers = e.registers.placed f) (beside : Beside m k e.printed) :
    Realizes m k e f := by
  refine realizes_calm calm draws heap outline beside.toAside
    (fun p _ => queue_congr beside.channels beside.groups p) fun i header words hi => ?_
  obtain ⟨hchannel, hgroup⟩ := plain _ (List.mem_of_getElem? hi) header words rfl
  exact ⟨fun h => absurd h hchannel, fun h => absurd h hgroup⟩

end Realizing

/-- What an effect means for the thread says nothing about the machine. -/
theorem Realizes.of_progress {e : Effect} {f : Nat → Address} (realizes : Realizes m k e f)
    (progress : Progress) : Realizes m k { e with progress } f :=
  ⟨⟨realizes.toAffords, realizes.registers, realizes.started⟩, realizes.heap, realizes.outline,
    realizes.current, realizes.threads, realizes.nextThread, realizes.queue, realizes.newQueue,
    realizes.runnable, realizes.builtins, realizes.output, realizes.typedChannels⟩

/-- An action has an effect, after which the thread goes on, or it fails. -/
def Makes (x : Action Unit) (m : Machine) (e? : Option Effect) : Prop :=
  Ensures x m (fun _ k => ∃ e f, e? = some e ∧ e.progress = .advanced ∧ Realizes m k e f)
    fun _ _ => True

theorem Makes.proceed {x : Action Unit} {e? : Option Effect} (makes : Makes x m e?) :
    Performs (proceed x) m e? :=
  .bind (makes.mono (fun _ _ h => .pure h) fun _ _ _ => trivial)

/-! ### Values -/

theorem not_started {P : Registers → Prop} : ∀ r, (none : Option Registers) = some r → P r :=
  fun r hr => absurd hr (Option.some_ne_none r).symm

/-- Where the thread goes on after a function has returned. -/
theorem ensures_ret {good : Unit → Machine → Prop}
    (h : ∀ pc environment frames, m.heap.returning? m.registers.frames = some (pc, environment, frames) →
      good () (m.withRegisters { m.registers with pc, environment, frames })) :
    Ensures ret m good fun _ _ => True := by
  refine .bind (ensures_registersNow (.bind (ensures_readHeap ?_)))
  unfold Heap.returning? at h
  cases heq : m.registers.frames.dropWhile fun a => m.heap.tag a ≠ .callframe with
  | nil => exact .bind (ensures_setRegisters (.throw trivial))
  | cons call rest =>
    rw [heq] at h
    exact .bind (ensures_readHeap (.bind (ensures_readHeap (ensures_setRegisters (h _ _ _ rfl)))))

/-- What is left of the frames when a scope is closed. -/
theorem ensures_closed {good : Unit → Machine → Prop}
    (h : ∀ environment frames, m.heap.closing? 1 m.registers.environment m.registers.frames =
      some (environment, frames) →
      good () (m.withRegisters { m.registers with environment, frames })) :
    Ensures exitScope m good fun _ _ => True := by
  refine .bind (ensures_registersNow ?_)
  cases hframes : m.registers.frames with
  | nil => exact .throw trivial
  | cons frame rest =>
    refine .bind (ensures_setRegisters (.bind (ensures_readHeap ?_)))
    split
    next htag =>
      have htag' : m.heap.tag frame = .blockframe := htag
      refine .bind (ensures_readHeap (ensures_setRegisters (h _ rest ?_)))
      rw [hframes, Heap.closing?, if_pos htag']
      rfl
    next => exact .throw trivial

/-- What is left of the frames when scopes are closed. -/
theorem ensures_closing (n : Nat) : ∀ {m : Machine} {good : Unit → Machine → Prop},
    (∀ environment frames, m.heap.closing? n m.registers.environment m.registers.frames =
      some (environment, frames) →
      good () (m.withRegisters { m.registers with environment, frames })) →
    Ensures (exitScopes n) m good fun _ _ => True := by
  induction n with
  | zero => exact fun h => .pure (h _ _ rfl)
  | succ n ih =>
    intro m good h
    refine .bind (ensures_closed fun environment frames hfirst => ih fun outer rest hrest => ?_)
    refine h outer rest ?_
    cases hframes : m.registers.frames with
    | nil =>
      rw [hframes] at hfirst
      cases hfirst
    | cons frame frames =>
      rw [hframes] at hfirst
      unfold Heap.closing? at hfirst ⊢
      split at hfirst
      next htag =>
        obtain ⟨rfl, rfl⟩ := Prod.mk.inj (Option.some.inj hfirst)
        rw [if_pos htag]
        exact hrest
      next => cases hfirst

/-- What is printed of some nodes. -/
theorem ensures_displayAll (as : List Address) : ∀ {m : Machine}, Ensures (printAll as) m
    (fun _ k => k = { m with output := m.output ++ m.heap.displayAll as }) fun _ _ => False := by
  induction as with
  | nil =>
    intro m
    refine .pure ?_
    rw [Heap.displayAll, String.append_empty]
  | cons a rest ih =>
    intro m
    refine .bind (ensures_readHeap (.bind (ensures_update (ih.mono (fun _ k hk => ?_) fun _ _ => id))))
    rw [hk, Heap.displayAll, String.append_assoc]

/-- The rule for what may be a fault. -/
theorem ensures_needed {α β : Type} {f : Heap → Except Fault α} {g : α → Action β}
    {good : β → Machine → Prop}
    (h : ∀ x, f m.heap = .ok x → Ensures (g x) m good fun _ _ => True) :
    Ensures (need f >>= g) m good fun _ _ => True := by
  refine .bind (.bind (ensures_readHeap ?_))
  cases hx : f m.heap with
  | error fault => exact .throw trivial
  | ok x => exact .pure (h x hx)

namespace Sound

variable (hm : m.Sound)

/-- The registers after an effect that gives a value. -/
theorem stands_giving {made : List Blueprint} {x : Ref} (n : Nat)
    (stands : m.heap.Stands m.roots made.length x) :
    ∀ y ∈ (m.registers.giving n x).refs, m.heap.Stands m.roots made.length y := by
  intro y hy
  simp only [Registers.giving, Outline.refs, List.cons_append, List.mem_cons, List.mem_append,
    List.mem_map] at hy
  rcases hy with rfl | ⟨a, ha, rfl⟩ | rfl | ⟨a, ha, rfl⟩
  · exact stands
  · exact live_stack (List.mem_of_mem_drop ha)
  · exact live_environment
  · exact live_root (Registers.mem_roots.2 (.inr (.inr ha)))

/-- Registers in which nothing is new. -/
theorem stands_outline {r : Registers} {n : Nat} (hr : ∀ a ∈ r.roots, m.heap.Live m.roots a) :
    ∀ y ∈ r.outline.refs, m.heap.Stands m.roots n y := by
  intro y hy
  simp only [Registers.outline, Outline.refs, List.mem_cons, List.mem_append, List.mem_map] at hy
  rcases hy with ⟨a, ha, rfl⟩ | rfl | ⟨a, ha, rfl⟩
  · exact hr a (Registers.mem_roots.2 (.inl ha))
  · exact hr _ (Registers.mem_roots.2 (.inr (.inl rfl)))
  · exact hr a (Registers.mem_roots.2 (.inr (.inr ha)))

/-- The operands are replaced by a value. -/
theorem realizes_gives {n : Nat} {x : Product} {a : Address} {f : Nat → Address} {printed : String}
    (bears : m.heap.Bears k.heap m.roots x a f) (plain : x.IsPlain)
    (beside : Beside m k printed)
    (hregisters : k.registers =
      { m.registers with stack := a :: m.registers.stack.drop n, pc := m.registers.pc + 1 }) :
    Realizes m k { Effect.gives m.registers n x with printed } f := by
  refine realizes_plain ⟨rfl, rfl, rfl, rfl⟩ plain ⟨bears.affords, ?_, not_started⟩ bears.undergoes ?_ beside
  · exact stands_giving n bears.stands
  · rw [hregisters]
    change _ = (m.registers.giving n x.ref).placed f
    rw [Registers.placed_giving, bears.placed]

include hm

/-- Only the registers change. -/
theorem realizes_moves {r : Registers} (hr : ∀ a ∈ r.roots, m.heap.Live m.roots a)
    (hheap : k.heap = m.heap) (hregisters : k.registers = r) (beside : Beside m k "") :
    Realizes m k (.moves r) fun _ => 0 := by
  refine realizes_plain ⟨rfl, rfl, rfl, rfl⟩ (Product.plain_known 0)
    ⟨.nothing, stands_outline hr, not_started⟩ ?_ ?_ beside
  · rw [hheap]
    exact .nothing (.refl hm.heap _) hm.heap hm.inUse_root _
  · rw [hregisters]
    exact (Registers.placed_outline r _).symm

omit hm in
/-- The rule for actions on the heap that give a value. -/
theorem ensures_yields {action : Roots → Heap.Action Address} {x? : Option Product}
    (yields : Heap.Yields (action (threadRoots m.registers m.threads)) m.heap m.roots x?)
    {good : Address → Machine → Prop}
    (hgood : ∀ x a f h, x? = some x → m.heap.Bears (m.withHeap h).heap m.roots x a f →
      good a (m.withHeap h)) :
    Ensures (onHeap action) m good fun _ _ => True := by
  refine ensures_onHeap (yields.mono ?_ fun _ _ _ => trivial)
  rintro a h ⟨x, f, hx, bears⟩
  exact hgood x a f h hx ⟨bears.undergoes.alike (alike_withHeap m h) (building_withHeap m h),
    bears.affords, bears.stands, bears.placed⟩

omit hm in
/-- An action on the heap gives a value that replaces operands. -/
theorem makes_replace {action : Roots → Heap.Action Address} {x? : Option Product} (n : Nat)
    (yields : Heap.Yields (action (threadRoots m.registers m.threads)) m.heap m.roots x?)
    (plain : ∀ x, x? = some x → x.IsPlain) :
    Makes (do
      let a ← onHeap action
      replace n a
      advance) m (x?.map (Effect.gives m.registers n)) := by
  refine .bind (ensures_yields yields fun x a f h hx bears => ?_)
  refine .bind (ensures_replace (ensures_advance ⟨_, f, congrArg (Option.map _) hx, rfl, ?_⟩))
  exact realizes_gives bears (plain x hx) (((Beside.refl m).withHeap h).withRegisters _) rfl

/-- A live node replaces operands. -/
theorem makes_known (n : Nat) {a : Address} (ha : m.heap.Live m.roots a) :
    Makes (do
      replace n a
      advance) m (some (.gives m.registers n (.known a))) := by
  refine .bind (ensures_replace (ensures_advance ⟨_, fun _ => 0, rfl, rfl, ?_⟩))
  exact realizes_gives (.of_live (.refl hm.heap _) hm.heap hm.inUse_root ha _) (Product.plain_known a)
    ((Beside.refl m).withRegisters _) rfl

/-- The registers change, and the thread goes on. -/
theorem makes_moves {r : Registers} (hr : ∀ a ∈ r.roots, m.heap.Live m.roots a) :
    ∃ e f, some (Effect.moves r) = some e ∧ e.progress = .advanced ∧
      Realizes m (m.withRegisters r) e f :=
  ⟨_, _, rfl, rfl, hm.realizes_moves hr rfl rfl ((Beside.refl m).withRegisters r)⟩

omit hm in
/-- What is live without the operand on top. -/
theorem live_dropped {a : Address} {rest : List Address} (stack : m.registers.stack = a :: rest) :
    ∀ b ∈ ({ m.registers with stack := rest } : Registers).roots, m.heap.Live m.roots b := by
  intro b hb
  refine live_root (Registers.mem_roots.2 ((Registers.mem_roots.1 hb).imp_left fun hb => ?_))
  exact stack ▸ List.mem_cons_of_mem a hb

/-! ### Single instructions -/

theorem makes_constant (l : Literal) : Makes (constant l) m (m.effectOf? program (.constant l)) := by
  have hi := hm.heap.toIntact
  cases l with
  | number x =>
    exact makes_replace 0 (Heap.yields_newNumber hm.heap hm.inUse_roots x)
      fun _ hx => Option.some.inj hx ▸ Product.plain_new (Blueprint.plain_number x)
  | text s =>
    exact makes_replace 0 (Heap.yields_newString hm.heap hm.inUse_roots s)
      fun _ hx => Option.some.inj hx ▸ Product.plain_new (Blueprint.plain_text s)
  | bool b => exact .bind (.pure (hm.makes_known 0 (hi.live_boolean b)))
  | null => exact .bind (.pure (hm.makes_known 0 (hi.live_constant (by decide))))
  | undefined => exact .bind (.pure (hm.makes_known 0 (hi.live_constant (by decide))))

theorem makes_load (p : Position) : Makes (load p) m (m.effectOf? program (.load p)) := by
  refine .bind (ensures_registersNow (.bind (ensures_readHeap ?_)))
  cases hlookup : m.heap.lookup m.registers.environment p with
  | error => exact .throw trivial
  | ok a =>
    have heffect : m.effectOf? program (.load p) =
        if a = Heap.unassigned then none else some (.gives m.registers 0 (.known a)) := by
      simp only [effectOf?, hlookup]
    rw [heffect]
    dsimp only
    split
    next => exact .bind (.throw trivial)
    next =>
      exact hm.makes_known 0 (hm.heap.live_lookup hm.inUse_root live_environment hm.registers.tag
        hlookup)

theorem makes_store (p : Position) : Makes (store p) m (m.effectOf? program (.store p)) := by
  refine .bind (ensures_peek (fun a ha => ?_) fun _ => trivial)
  refine .bind (ensures_registersNow (.bind (ensures_onHeap ?_)))
  obtain ⟨rest, stack⟩ := exists_top ha
  cases hslot : m.heap.slotOf? m.registers.environment p with
  | none =>
    have hassign : Heap.assign m.registers.environment p a m.heap =
        .error (.invalidPosition p) m.heap := by
      simp only [Heap.assign, hslot]
    rw [Ensures, hassign]
    trivial
  | some slot =>
    obtain ⟨frame, i⟩ := slot
    have hassign : Heap.assign m.registers.environment p a m.heap =
        .ok () (m.heap.setWord frame i a) := by
      simp only [Heap.assign, hslot]
    obtain ⟨hlive, htag, hpos, hlt⟩ :=
      hm.heap.live_slotOf? hm.inUse_root live_environment hm.registers.tag hslot
    obtain ⟨hin, hvalue⟩ := hm.isValue_stack ha
    have hframe := hm.inUse_of_live hlive
    have hblock := hframe.toIsBlock
    have hi : i < nodeSize := Nat.lt_of_lt_of_le hlt (hm.heap.typed frame hframe).le
    have u := hm.heap.setVariable hframe htag hpos hlt hin hvalue
    have heffect : m.effectOf? program (.store p) =
        some { Effect.moves { m.registers with pc := m.registers.pc + 1 } with
          writes := [(frame, i, a)] } := by
      simp only [effectOf?, stack, hslot]
    have undergoes : m.heap.Undergoes (m.heap.setWord frame i a) m.roots
        { writes := [(frame, i, a)] } fun _ => 0 := by
      refine .of_updated u hm.heap hm.inUse_root (by rw [htag]; decide) ?_
        (.inl ⟨rfl, Heap.header_setWord hblock hblock hpos hi a⟩) ?_ rfl
      · intro b j w hw
        exact (Prod.mk.inj (List.mem_singleton.1 hw)).1
      · intro j hj hlt'
        rw [Heap.word_setWord_block hblock hblock hi hlt', Change.wordAt_single]
        simp only [true_and, eq_comm]
    have draws : Draws m { Effect.moves { m.registers with pc := m.registers.pc + 1 } with
        writes := [(frame, i, a)] } := by
      refine ⟨.of_writes ?_ ?_, stands_outline fun _ => live_root, not_started⟩
      · intro b j w hw
        obtain ⟨rfl, heq⟩ := Prod.mk.inj (List.mem_singleton.1 hw)
        obtain ⟨rfl, -⟩ := Prod.mk.inj heq
        exact ⟨hlive, hpos, hi⟩
      · intro b j w hw _ _
        obtain ⟨-, heq⟩ := Prod.mk.inj (List.mem_singleton.1 hw)
        obtain ⟨-, rfl⟩ := Prod.mk.inj heq
        exact .inr (live_stack (List.mem_of_getElem? ha))
    rw [heffect]
    refine .ok hassign (ensures_advance ⟨_, fun _ => 0, rfl, rfl, realizes_plain
      ⟨rfl, rfl, rfl, rfl⟩ (Product.plain_known 0) draws (undergoes.alike (alike_withHeap m _)
        (building_withHeap m _)) ?_ (((Beside.refl m).withHeap _).withRegisters _)⟩)
    exact (Registers.placed_outline _ _).symm

theorem makes_unary (op : UnaryOp) : Makes (unary op) m (m.effectOf? program (.unary op)) := by
  refine .bind (ensures_peek (fun a ha => ?_) fun _ => trivial)
  have heffect : m.effectOf? program (.unary op) =
      (m.heap.unaryProduct? op a).map (.gives m.registers 1) := by
    cases hx : m.heap.unaryProduct? op a <;> simp [effectOf?, ha, hx]
  rw [heffect]
  exact makes_replace 1 (Heap.yields_applyUnary hm.heap hm.inUse_roots op a) fun _ hx =>
    (Heap.scalar_unary hx).isPlain

theorem makes_binary (op : BinaryOp) : Makes (binary op) m (m.effectOf? program (.binary op)) := by
  refine .bind (ensures_peek (fun right hright => ?_) fun _ => trivial)
  refine .bind (ensures_peek (fun left hleft => ?_) fun _ => trivial)
  have heffect : m.effectOf? program (.binary op) =
      (m.heap.binaryProduct? op left right).map (.gives m.registers 2) := by
    cases hx : m.heap.binaryProduct? op left right <;> simp [effectOf?, hleft, hright, hx]
  rw [heffect]
  exact makes_replace 2 (Heap.yields_applyBinary hm.heap hm.inUse_roots op left right)
    fun _ hx => (Heap.scalar_binary hx).isPlain

theorem makes_drop : Makes drop m (m.effectOf? program .pop) := by
  refine .bind (ensures_pop (fun a rest stack => ?_) fun _ => trivial)
  have heffect : m.effectOf? program .pop =
      some (.moves { m.registers with stack := rest, pc := m.registers.pc + 1 }) := by
    simp only [effectOf?, stack]
  rw [heffect]
  exact ensures_advance (hm.makes_moves (live_dropped stack))

theorem makes_jumpUnless (target : Nat) :
    Makes (jumpUnless target) m (m.effectOf? program (.jumpUnless target)) := by
  refine .bind (ensures_pop (fun a rest stack => ?_) fun _ => trivial)
  refine .bind (ensures_readHeap ?_)
  have heffect : m.effectOf? program (.jumpUnless target) = (m.heap.bool? a).map fun b =>
      .moves { m.registers with stack := rest, pc := if b then m.registers.pc + 1 else target } := by
    simp only [effectOf?, stack]
  rw [heffect]
  cases hb : m.heap.bool? a with
  | none =>
    rw [show (m.withRegisters { m.registers with stack := rest }).heap.bool? a = none from hb]
    exact .bind (ensures_readHeap (.throw trivial))
  | some b =>
    rw [show (m.withRegisters { m.registers with stack := rest }).heap.bool? a = some b from hb]
    cases b with
    | false => exact ensures_goTo (hm.makes_moves (live_dropped stack))
    | true => exact ensures_advance (hm.makes_moves (live_dropped stack))

theorem makes_goTo (pc : Nat) {e : Effect} (he : e = .moves { m.registers with pc }) :
    Makes (goTo pc) m (some e) :=
  he ▸ ensures_goTo (hm.makes_moves fun _ => live_root)

theorem makes_ret : Makes ret m (m.effectOf? program .ret) := by
  refine ensures_ret fun pc environment frames hreturning => ?_
  have heffect : m.effectOf? program .ret =
      some (.moves { m.registers with pc, environment, frames }) := by
    simp only [effectOf?, hreturning, Option.map_some]
  rw [heffect]
  obtain ⟨henv, hframes⟩ := hm.heap.live_returning hm.inUse_root hreturning
    fun a ha => live_root (Registers.mem_roots.2 (.inr (.inr ha)))
  refine hm.makes_moves fun a ha => ?_
  rcases Registers.mem_roots.1 ha with ha | rfl | ha
  · exact live_stack ha
  · exact henv
  · exact hframes a ha

/-- What is live without some scopes. -/
theorem live_closed {n : Nat} {environment : Address} {frames : List Address} {pc : Nat}
    (hclosing : m.heap.closing? n m.registers.environment m.registers.frames =
      some (environment, frames)) :
    ∀ a ∈ ({ m.registers with pc, environment, frames } : Registers).roots,
      m.heap.Live m.roots a := by
  obtain ⟨henv, hframes⟩ := hm.heap.live_closing hm.inUse_root n hclosing live_environment
    fun a ha => live_root (Registers.mem_roots.2 (.inr (.inr ha)))
  intro a ha
  rcases Registers.mem_roots.1 ha with ha | rfl | ha
  · exact live_stack ha
  · exact henv
  · exact hframes a ha

theorem makes_closeScope : Makes closeScope m (m.effectOf? program .exitScope) := by
  refine .bind (ensures_closed fun environment frames hclosing => ensures_advance ?_)
  have heffect : m.effectOf? program .exitScope =
      some (.moves { m.registers with pc := m.registers.pc + 1, environment, frames }) := by
    simp only [effectOf?, hclosing, Option.map_some]
  rw [heffect]
  exact hm.makes_moves (hm.live_closed hclosing)

/-- A loop is left, to behind its end or for its next round. -/
theorem performs_leave (isBreak : Bool) :
    Performs (leave program isBreak) m (m.effectOf? program
      (if isBreak then .breakLoop else .continueLoop)) := by
  refine .bind (ensures_registersNow ?_)
  cases hexit : program.loopEndAfter m.registers.pc with
  | outside => exact .throw trivial
  | unfinished =>
    have heffect : m.effectOf? program (if isBreak then .breakLoop else .continueLoop) =
        some { Effect.moves m.registers with progress := .spinning } := by
      cases isBreak <;> simp [effectOf?, hexit]
    rw [heffect]
    refine .pure ⟨_, fun _ => 0, rfl, rfl, ?_⟩
    have moves := hm.realizes_moves (fun _ => live_root) rfl rfl (Beside.refl m)
    exact moves.of_progress _
  | found exit =>
    refine .bind (.bind (ensures_closing exit.closed fun environment frames hclosing => ?_))
    have heffect : m.effectOf? program (if isBreak then .breakLoop else .continueLoop) =
        some (.moves { m.registers with
          pc := if isBreak then exit.marker + 1 else exit.next, environment, frames }) := by
      cases isBreak <;> simp [effectOf?, hexit, hclosing]
    rw [heffect]
    exact ensures_goTo (.pure ⟨_, fun _ => 0, rfl, rfl, hm.realizes_moves (hm.live_closed hclosing)
      rfl rfl ((Beside.refl m).withRegisters _)⟩)

/-- A function is made. -/
theorem makes_closure (arity entry : Nat) :
    Makes (closure arity entry) m (m.effectOf? program (.closure arity entry)) := by
  refine .bind (ensures_registersNow ?_)
  exact makes_replace 0 (Heap.yields_newClosure hm.heap hm.inUse_roots arity entry live_environment
    hm.registers.tag) fun _ hx => Option.some.inj hx ▸
      Product.plain_new (Blueprint.plain_node Tag.noConfusion Tag.noConfusion)

omit hm in
/-- The registers after a call. -/
theorem stands_entered {made : List Blueprint} {pc i : Nat} {stack : List Address} {frames : List Ref}
    (hstack : ∀ a ∈ stack, a ∈ m.registers.stack) (hi : i < made.length)
    (hframes : ∀ r ∈ frames, r = .made 0 ∨ ∃ a ∈ m.registers.frames, r = .known a) :
    ∀ y ∈ (⟨stack.map .known, pc, .made i, frames⟩ : Outline).refs,
      m.heap.Stands m.roots made.length y := by
  intro y hy
  simp only [Outline.refs, List.mem_cons, List.mem_append, List.mem_map] at hy
  rcases hy with ⟨a, ha, rfl⟩ | rfl | hy
  · exact live_stack (hstack a ha)
  · exact hi
  · rcases hframes y hy with rfl | ⟨a, ha, rfl⟩
    · exact Nat.zero_lt_of_lt hi
    · exact live_root (Registers.mem_roots.2 (.inr (.inr ha)))

/-- A scope is opened, or a function is called. -/
theorem realizes_entering {h : Heap} {header : Header} {environment block frame inside : Address}
    {values : List Nat} {stack : List Address} {pc : Nat}
    (hback : header.tag = .blockframe ∨ header.tag = .callframe)
    (hlive : m.heap.Live m.roots environment) (htag : m.heap.tag environment = .environment)
    (hvalues : ∀ a ∈ values, m.heap.Live m.roots a)
    (new : Heap.New m.heap h m.roots block header [m.registers.environment])
    (made : Heap.MadeEnvironment m.heap h m.roots environment values frame inside)
    (hstack : ∀ a ∈ stack, a ∈ m.registers.stack) :
    Realizes m ((m.withHeap h).withRegisters ⟨stack, pc, inside, block :: m.registers.frames⟩)
      { made := [.back header m.registers.environment, .frame values, .inside m.heap environment 1]
        registers := ⟨stack.map .known, pc, .made 2, .made 0 :: m.registers.frames.map .known⟩ }
      (Heap.placing [block, frame, inside]) := by
  obtain ⟨changes, affords⟩ := made.changes_back hm.heap hm.inUse_root hlive htag hvalues hback
    live_environment new
  refine realizes_plain ⟨rfl, rfl, rfl, rfl⟩ ?_ ⟨affords, ?_, not_started⟩
    (changes.alike (alike_withHeap m h) (building_withHeap m h)) ?_
    (((Beside.refl m).withHeap h).withRegisters _)
  · simp only [List.forall_mem_cons]
    exact ⟨Blueprint.plain_back hback _, Blueprint.plain_frame _, Blueprint.plain_inside _ _ _,
      fun _ h => absurd h List.not_mem_nil⟩
  · refine stands_entered hstack (Nat.lt_succ_self 2) fun r hr => ?_
    rcases List.mem_cons.1 hr with rfl | hr
    · exact .inl rfl
    · obtain ⟨a, ha, rfl⟩ := List.mem_map.1 hr
      exact .inr ⟨a, ha, rfl⟩
  · simp only [Outline.placed, List.map_cons, map_placed_known]
    rfl

theorem makes_enterScope (slots : Nat) :
    Makes (enterScope slots) m (m.effectOf? program (.enterScope slots)) := by
  refine .bind (ensures_registersNow (.bind (ensures_onHeap ((hm.heap.newScope_ensures
    hm.inUse_roots live_environment hm.registers.tag slots).mono ?_ fun _ _ _ => trivial))))
  rintro ⟨block, inside⟩ h ⟨newBlock, frame, made⟩
  refine ensures_setRegisters ⟨_, Heap.placing [block, frame, inside], rfl, rfl, ?_⟩
  refine hm.realizes_entering (.inl rfl) live_environment hm.registers.tag (fun a ha => ?_) newBlock
    made fun _ => id
  rw [List.eq_of_mem_replicate ha]
  exact hm.heap.toIntact.live_unassigned.1

/-- What a function keeps is a live environment. -/
theorem live_captured {n : Nat} {function : Address} (ha : m.registers.stack[n]? = some function)
    (htag : m.heap.tag function = .closure) : m.heap.Live m.roots (m.heap.word function 2) ∧
      m.heap.tag (m.heap.word function 2) = .environment := by
  obtain ⟨henv, hlive⟩ := hm.heap.word_closure (hm.isValue_stack ha).1 htag
  exact ⟨hlive _ (live_stack (List.mem_of_getElem? ha)), henv⟩

/-- A function of the program is called. -/
theorem makes_callClosure {n : Nat} {function : Address} (tail : Bool)
    (ha : m.registers.stack[n]? = some function) (htag : m.heap.tag function = .closure) :
    Makes (callClosure function n tail) m (if m.heap.word function 1 ≠ n then none
      else some (bif tail then m.replacing function n else m.invoking function n)) := by
  refine hm.ensures_callClosure (List.mem_of_getElem? ha) htag (fun _ => trivial)
    fun harity henv hlive => .bind (ensures_argumentsNow ?_)
  rw [if_neg (not_not.2 harity)]
  have hvalues : ∀ a ∈ (m.registers.stack.take n).reverse, m.heap.Live m.roots a :=
    fun a ha => (hm.live_arguments n a ha).1
  cases tail with
  | true =>
    refine .bind (ensures_onHeap ((hm.heap.newArguments_ensures hm.inUse_roots hlive henv
      (hm.live_arguments n)).mono ?_ fun _ _ _ => trivial))
    rintro inside h ⟨frame, made⟩
    obtain ⟨changes, affords⟩ := made.changes hm.heap hm.inUse_root hlive henv hvalues
    refine .bind (ensures_registersNow (.bind (ensures_readHeap (ensures_setRegisters
      ⟨_, Heap.placing [frame, inside], rfl, rfl, realizes_plain ⟨rfl, rfl, rfl, rfl⟩ ?_
        ⟨affords, ?_, not_started⟩ (changes.alike (alike_withHeap m h) (building_withHeap m h)) ?_
        (((Beside.refl m).withHeap h).withRegisters _)⟩))))
    · simp only [cond_true, replacing, List.forall_mem_cons]
      exact ⟨Blueprint.plain_frame _, Blueprint.plain_inside _ _ _, fun _ h => absurd h List.not_mem_nil⟩
    · refine stands_entered (fun _ => List.mem_of_mem_drop) (Nat.lt_succ_self 1) fun r hr => ?_
      obtain ⟨a, ha, rfl⟩ := List.mem_map.1 hr
      exact .inr ⟨a, (List.dropWhile_suffix _).mem ha, rfl⟩
    · have hdrop : (m.registers.frames.dropWhile fun a => (m.withHeap h).heap.tag a = .blockframe) =
          m.registers.frames.dropWhile fun a => m.heap.tag a = .blockframe := by
        refine dropWhile_congr fun a ha => ?_
        have htag := changes.tag (live_root (Registers.mem_roots.2 (.inr (.inr ha))))
        rw [(alike_withHeap m h).tag, htag]
      simp only [cond_true, replacing, Outline.placed, map_placed_known, ← hdrop]
      rfl
  | false =>
    refine .bind (ensures_registersNow (.bind (ensures_onHeap ((hm.heap.newCall_ensures
      hm.inUse_roots (m.registers.pc + 1) live_environment hm.registers.tag hlive henv
      (hm.live_arguments n)).mono ?_ fun _ _ _ => trivial))))
    rintro ⟨call, inside⟩ h ⟨newCall, frame, made⟩
    exact ensures_setRegisters ⟨_, Heap.placing [call, frame, inside], rfl, rfl,
      hm.realizes_entering (.inr rfl) hlive henv hvalues newCall made fun _ => List.mem_of_mem_drop⟩

/-- A builtin gives its value and prints its text. -/
theorem ensures_builtinProduct (b : Builtin) {as : List Address} :
    Ensures (runBuiltin b as) m (fun a k => ∃ x f printed,
      m.heap.builtinProduct? b as = some (x, printed) ∧ x.IsPlain ∧
        m.heap.Bears k.heap m.roots x a f ∧ Beside m k printed ∧ k.registers = m.registers)
      fun _ _ => True := by
  have hundefined : ∀ {k : Machine}, k.heap = m.heap →
      m.heap.Bears k.heap m.roots (.known Heap.undefined) Heap.undefined fun _ => 0 := by
    intro k hk
    rw [hk]
    exact .of_live (.refl hm.heap _) hm.heap hm.inUse_root
      (hm.heap.toIntact.live_constant (i := 4) (by decide)) _
  have hnumber : ∀ x : Number, m.heap.builtinProduct? b as = some (.new (.number x), "") →
      Ensures (onHeap (Heap.newNumber x)) m (fun a k => ∃ x f printed,
        m.heap.builtinProduct? b as = some (x, printed) ∧ x.IsPlain ∧
          m.heap.Bears k.heap m.roots x a f ∧ Beside m k printed ∧ k.registers = m.registers)
        fun _ _ => True := by
    intro x hx
    refine ensures_yields (Heap.yields_newNumber hm.heap hm.inUse_roots x) fun y a f h hy bears => ?_
    rw [← Option.some.inj hy] at bears
    exact ⟨_, f, _, hx, Product.plain_new (Blueprint.plain_number x), bears, (Beside.refl m).withHeap h, rfl⟩
  unfold runBuiltin
  split
  next =>
    refine .bind ((ensures_displayAll _).mono (fun _ k hk => .pure ?_) fun _ _ _ => trivial)
    subst hk
    exact ⟨_, _, _, rfl, Product.plain_known _, hundefined rfl, .printed m _, rfl⟩
  next =>
    refine .bind ((ensures_displayAll _).mono (fun _ k hk => .bind (ensures_update (.pure ?_)))
      fun _ _ _ => trivial)
    subst hk
    exact ⟨_, _, _, rfl, Product.plain_known _, hundefined rfl,
      (Beside.printed m _).trans (.printed _ _), rfl⟩
  next a rest =>
    refine ensures_needed fun n hn => hnumber _ ?_
    simp only [Heap.builtinProduct?, hn]
    rfl
  next a rest =>
    refine ensures_needed fun x hx => hnumber _ ?_
    simp only [Heap.builtinProduct?, hx]
    rfl
  next a b rest =>
    refine ensures_needed fun x hx => hnumber _ ?_
    simp only [Heap.builtinProduct?, hx]
    rfl
  next a b rest =>
    refine ensures_needed fun x hx => hnumber _ ?_
    simp only [Heap.builtinProduct?, hx]
    rfl
  next a rest =>
    refine .bind (ensures_readHeap (ensures_yields (Heap.yields_newString hm.heap hm.inUse_roots _)
      fun y a f h hy bears => ?_))
    rw [← Option.some.inj hy] at bears
    exact ⟨_, f, _, rfl, Product.plain_new (Blueprint.plain_text _), bears, (Beside.refl m).withHeap h, rfl⟩
  next => exact .throw trivial

theorem makes_callBuiltin (slot n : Nat) (tail : Bool) :
    Makes (callBuiltin slot n tail) m (m.applying? slot n tail) := by
  refine ensures_callBuiltin (fun _ => trivial) (fun _ _ _ => trivial) fun entry hentry harity => ?_
  refine .bind ((hm.ensures_builtinProduct entry.action).mono ?_ fun _ _ _ => trivial)
  rintro a k ⟨x, f, printed, hproduct, plain, bears, beside, hregisters⟩
  refine .bind (ensures_replace ?_)
  rw [hregisters]
  cases tail with
  | false =>
    refine ensures_advance ⟨_, f, ?_, rfl, realizes_gives (n := n + 1) bears plain
      (beside.withRegisters _) rfl⟩
    simp [applying?, hentry, harity, hproduct]
  | true =>
    refine ensures_ret fun pc environment frames hreturning => ?_
    have hsame : k.heap.returning? m.registers.frames = m.heap.returning? m.registers.frames := by
      refine Heap.returning?_congr fun b hb => bears.undergoes.same
        (live_root (Registers.mem_roots.2 (.inr (.inr hb)))) ?_ ?_
      · exact fun _ => Option.some_ne_none _ |>.symm
      · rintro _ ⟨_, hmem⟩
        exact List.not_mem_nil hmem
    have hreturning' := hsame.symm.trans hreturning
    obtain ⟨henv, hframes⟩ := hm.heap.live_returning hm.inUse_root hreturning'
      fun b hb => live_root (Registers.mem_roots.2 (.inr (.inr hb)))
    refine ⟨{ Effect.gives m.registers (n + 1) x with
      printed
      registers := ⟨x.ref :: (m.registers.stack.drop (n + 1)).map .known, pc, .known environment,
        frames.map .known⟩ }, f, ?_, rfl, realizes_plain ⟨rfl, rfl, rfl, rfl⟩ plain
      ⟨bears.affords, ?_, not_started⟩ bears.undergoes ?_
      ((beside.withRegisters _).withRegisters _)⟩
    · simp [applying?, hentry, harity, hproduct, hreturning', Effect.gives, Registers.giving]
    · intro y hy
      simp only [Outline.refs, List.cons_append, List.mem_cons, List.mem_append, List.mem_map] at hy
      rcases hy with rfl | ⟨b, hb, rfl⟩ | rfl | ⟨b, hb, rfl⟩
      · exact bears.stands
      · exact live_stack (List.mem_of_mem_drop hb)
      · exact henv
      · exact hframes b hb
    · simp only [Outline.placed, List.map_cons, map_placed_known, bears.placed]
      rfl

theorem makes_call (n : Nat) (tail : Bool) : Makes (call n tail) m
    (m.effectOf? program (bif tail then .tailCall n else .call n)) := by
  refine ensures_call (fun _ => trivial) (fun a ha htag => ?_) (fun a ha htag => ?_)
    fun _ => trivial
  · have heffect : m.effectOf? program (bif tail then .tailCall n else .call n) =
        m.applying? (m.heap.payload a).toNat n tail := by
      cases tail <;> simp only [cond_true, cond_false, effectOf?, ha, htag]
    rw [heffect]
    exact hm.makes_callBuiltin _ n tail
  · have heffect : m.effectOf? program (bif tail then .tailCall n else .call n) =
        if m.heap.word a 1 ≠ n then none
          else some (bif tail then m.replacing a n else m.invoking a n) := by
      cases tail <;> simp only [cond_true, cond_false, effectOf?, ha, htag]
    rw [heffect]
    exact hm.makes_callClosure tail ha htag

/-! ### Threads and queues -/

theorem makes_spawn (n : Nat) : Makes (spawn n) m (m.effectOf? program (.spawn n)) := by
  refine .bind (ensures_registersNow ?_)
  dsimp only
  by_cases hlength : m.registers.stack.length < n + 1
  · rw [if_pos hlength]
    exact .bind (.throw trivial)
  rw [if_neg hlength]
  have heffect : m.effectOf? program (.spawn n) = some { Effect.moves { m.registers with
        stack := Heap.undefined :: m.registers.stack.drop (n + 1), pc := m.registers.pc + 3 } with
      started := some ⟨m.registers.stack.take (n + 1), m.registers.pc + 1, m.registers.environment, []⟩ } :=
    if_neg hlength
  rw [heffect]
  refine .bind (ensures_update (.bind (ensures_replace (ensures_goTo ⟨_, fun _ => 0, rfl, rfl, ?_⟩))))
  obtain ⟨core, hchannels, hgroups, hrunnable⟩ := sameCore_note { m with
      threads := m.threads.insert m.nextThread ⟨m.registers.stack.take (n + 1),
        m.registers.pc + 1, m.registers.environment, []⟩
      nextThread := m.nextThread + 1
      runnable := m.runnable ++ [m.nextThread] } (.spawned m.nextThread m.current)
  generalize note _ _ = k at core hchannels hgroups hrunnable ⊢
  have hstack : ∀ a ∈ Heap.undefined :: m.registers.stack.drop (n + 1), m.heap.Live m.roots a := by
    intro a ha
    rcases List.mem_cons.1 ha with rfl | ha
    · exact hm.heap.toIntact.live_constant (i := 4) (by decide)
    · exact live_stack (List.mem_of_mem_drop ha)
  have hroots : ∀ a ∈ ({ m.registers with
      stack := Heap.undefined :: m.registers.stack.drop (n + 1) } : Registers).roots,
      m.heap.Live m.roots a := by
    intro a ha
    rcases Registers.mem_roots.1 ha with ha | ha
    · exact hstack a ha
    · exact live_root (Registers.mem_roots.2 (.inr ha))
  refine ⟨⟨.nothing, stands_outline hroots, ?_⟩, ?_, ?_, core.current, core.threads, core.nextThread,
    fun p _ => ?_, ?_, ?_, core.builtins, ?_, core.typedChannels⟩
  · intro r hr a ha
    rw [← Option.some.inj hr, Registers.mem_roots] at ha
    rcases ha with ha | rfl | ha
    · exact live_stack (List.mem_of_mem_take ha)
    · exact live_environment
    · cases ha
  · change m.heap.Undergoes k.heap m.roots {} _
    rw [core.heap]
    exact .nothing (.refl hm.heap _) hm.heap hm.inUse_root _
  · change { k.registers with
      stack := Heap.undefined :: k.registers.stack.drop (n + 1), pc := m.registers.pc + 3 } = _
    rw [core.registers]
    exact (Registers.placed_outline _ _).symm
  · rw [if_neg (by simp [Effect.moves]), List.append_nil]
    exact queue_congr hchannels hgroups p
  · intro _ _ _ hi
    cases hi
  · exact hrunnable.trans (by simp [Effect.moves])
  · exact core.output.trans String.append_empty.symm

/-- A channel is made. -/
theorem makes_newChannel (capacity : Nat) :
    Makes (newChannel capacity) m (m.effectOf? program (.newChannel capacity)) := by
  refine .bind (ensures_onHeap ((hm.heap.newChannel_ensures hm.inUse_roots capacity).mono ?_
    fun _ _ _ => trivial))
  rintro a h ⟨hle, made⟩
  have heffect : m.effectOf? program (.newChannel capacity) = some (.gives m.registers 0
      (.new (.node (Heap.channelHeader capacity) ((Heap.emptyRing (max capacity 1)).map .known)))) :=
    if_neg (Nat.not_lt.2 hle)
  rw [heffect]
  have hlength := Heap.length_emptyRing (max capacity 1)
  have hrange : (Heap.channelHeader capacity).childRange = (4, ringStart + max capacity 1) := by
    refine congrArg (Prod.mk 4) (Heap.toNat_size (t := .channel) ?_)
    have hfits := made.fits
    rw [hlength] at hfits
    exact Nat.le_trans (Nat.le_of_eq (by simp only [ringStart]; omega)) hfits
  have bears := Heap.Bears.of_made made hm.heap hm.inUse_root
    (by rw [hrange, hlength]; simp only [ringStart]; omega) fun j w hw hle _ => ?_
  · refine .bind (ensures_update (.bind (ensures_push (ensures_advance ⟨_, fun _ => a, rfl, rfl,
      realizes_calm ⟨rfl, rfl, rfl, rfl⟩ ⟨bears.affords, stands_giving 0 bears.stands, not_started⟩
        (bears.undergoes.alike (alike_withHeap m h) (building_withHeap m h)) ?_
        ⟨rfl, rfl, rfl, rfl, rfl, rfl, String.append_empty.symm⟩ (fun p hp => ?_) ?_⟩))))
    · exact (Registers.placed_giving m.registers 0 (.made 0) fun _ => a).symm
    · refine (queue_reset_channel m a p).trans (if_neg fun hmem => made.not_live ?_)
      simp only [Place.ofChannel, List.mem_cons, List.not_mem_nil, or_false] at hmem
      rcases hmem with rfl | rfl | rfl <;> exact hp
    · intro i header words hi
      have hmem := List.mem_singleton.1 (List.mem_of_getElem? hi)
      obtain ⟨rfl, -⟩ := Blueprint.node.inj hmem
      refine ⟨fun _ side => ?_, Tag.noConfusion⟩
      exact (queue_reset_channel m a _).trans (if_pos (Place.mem_ofChannel side a))
  · -- The children of a new channel are its slots.
    rw [hrange] at hle
    obtain ⟨i, rfl⟩ : ∃ i, j = i + 3 := ⟨j - 3, by simp only at hle; omega⟩
    simp only [Heap.emptyRing, List.getElem?_cons_succ] at hw
    exact .inl (List.eq_of_mem_replicate (List.mem_of_getElem? hw))

/-- A wait-group is made. -/
theorem makes_newWaitGroup : Makes newWaitGroup m (m.effectOf? program .newWaitGroup) := by
  refine .bind (ensures_onHeap ((hm.heap.newWaitGroup_ensures hm.inUse_roots).mono ?_
    fun _ _ _ => trivial))
  rintro a h ⟨counter, new, made⟩
  have news : List.Forall₂ (fun c (b : Header × List Ref) => Heap.New m.heap h m.roots c b.1
      (b.2.map (Ref.placed (Heap.placing [counter, a])))) [counter, a]
      [(.fresh .number 2, [.known Number.zero.bits.toNat]), (.fresh .waitGroup 2, [.made 0])] :=
    .cons new (.cons made.toNew .nil)
  have changes : m.heap.Undergoes h m.roots
      { made := [.number .zero, .node (.fresh .waitGroup 2) [.made 0]] } (Heap.placing [counter, a]) :=
    .of_nodes made.toGrows hm.heap hm.inUse_root _ _ news (by simp [Header.fresh])
  have affords : m.heap.Affords m.roots
      { made := [.number .zero, .node (.fresh .waitGroup 2) [.made 0]] } := by
    refine .of_made ?_
    simp only [List.forall_mem_cons]
    refine ⟨Heap.furnishes_node (Nat.zero_le _) fun j _ _ _ hlt => absurd hlt (Nat.not_lt_zero _),
      Heap.furnishes_all (Nat.le_refl 2) fun r hr => ?_, fun _ h => absurd h List.not_mem_nil⟩
    rw [List.mem_singleton.1 hr]
    exact Nat.two_pos
  refine .bind (ensures_update (.bind (ensures_push (ensures_advance ⟨_, Heap.placing [counter, a],
    rfl, rfl, realizes_calm ⟨rfl, rfl, rfl, rfl⟩
      ⟨affords, stands_giving 0 (Nat.lt_succ_self 1), not_started⟩
      (changes.alike (alike_withHeap m h) (building_withHeap m h)) ?_
      ⟨rfl, rfl, rfl, rfl, rfl, rfl, String.append_empty.symm⟩ (fun p hp => ?_) ?_⟩))))
  · exact (Registers.placed_giving m.registers 0 (.made 1) (Heap.placing [counter, a])).symm
  · refine (queue_reset_group m a p).trans (if_neg fun hmem => made.not_live ?_)
    rw [List.mem_singleton.1 hmem] at hp
    exact hp
  · intro i header words hi
    rcases i with _ | _ | i
    · obtain ⟨rfl, -⟩ := Blueprint.node.inj (Option.some.inj hi)
      exact ⟨Tag.noConfusion, Tag.noConfusion⟩
    · obtain ⟨rfl, -⟩ := Blueprint.node.inj (Option.some.inj hi)
      exact ⟨Tag.noConfusion,
        fun _ => (queue_reset_group m a _).trans (if_pos (List.mem_singleton.2 rfl))⟩
    · cases hi

/-! ### Channels -/

omit hm in
/-- The thread joins a queue. -/
theorem realizes_waits {place : Place} {kind : Option (Address × Tag)}
    (undergoes : m.heap.Undergoes k.heap m.roots { kind } fun _ => 0) (crew : SameCrew m k)
    (registers : k.registers = m.registers)
    (requeues : Requeues m k (oneFrom []) [] (some place)) :
    Realizes m k { Effect.waits m.registers place with kind } fun _ => 0 := by
  refine ⟨⟨.of_writes (fun _ _ _ hw => absurd hw List.not_mem_nil)
    (fun _ _ _ hw => absurd hw List.not_mem_nil), stands_outline fun _ => live_root, not_started⟩,
    undergoes, ?_, crew.current, crew.threads, crew.nextThread, fun q _ => requeues.queue q, ?_, ?_,
    crew.builtins, ?_, crew.typedChannels⟩
  · rw [registers]
    exact (Registers.placed_outline m.registers _).symm
  · intro _ _ _ hi
    cases hi
  · exact requeues.runnable.trans (List.append_nil _).symm
  · exact crew.output.trans String.append_empty.symm

/-- What the check of a value records. -/
theorem recorded {a v : Address} {rest : List Address} {checked : Heap}
    (stack : m.registers.stack = v :: a :: rest)
    (tag : m.heap.tag a = .channel) (check : Checked m.heap checked m.typedChannels a v) :
    ∃ kind, m.recording? a v = some kind ∧ checked.building = m.heap.building ∧
      (kind = none ∧ checked.header a = m.heap.header a ∨ ∃ t, kind = some (a, t) ∧
        checked.header a =
          { m.heap.header a with payload := channelPayload (m.heap.isUnbuffered a) t.code }) := by
  have hin := hm.inUse_below stack
  have hv := (hm.isValue_stack (i := 0) (a := v) (by rw [stack]; rfl)).1.toIsBlock
  unfold recording?
  cases htyped : m.typedChannels with
  | false =>
    rcases check.eq with rfl | ⟨h, -⟩
    · exact ⟨none, rfl, rfl, .inl ⟨rfl, rfl⟩⟩
    · rw [htyped] at h
      cases h
  | true =>
    have hkind := check.kind htyped
    rcases check.eq with rfl | ⟨-, hnone, t, rfl⟩
    · refine ⟨none, ?_, rfl, .inl ⟨rfl, rfl⟩⟩
      simp [hkind]
    · rw [Heap.elementKind?_setElementKind hin.toIsBlock, Option.some.injEq,
        (hm.heap.setElementKind hin tag t).tag hv] at hkind
      refine ⟨some (a, t), ?_, rfl, .inr ⟨t, rfl, Heap.header_setPayload hin.toIsBlock _⟩⟩
      simp [hnone, hkind]

theorem performs_send (instr : program.at? m.registers.pc = some .send) :
    Performs send m m.sending? := by
  refine (hm.acts_send instr).mono (fun p k acts => ?_) fun _ _ _ => trivial
  generalize m.dealt program p k = d at acts
  cases acts with
  | apart notSend => exact absurd instr notSend
  | @sent v a rest checked _ stack tag room crew check heap registers requeues =>
    obtain ⟨kind, hrecording, hbuilding, hkind⟩ := hm.recorded stack tag check
    obtain ⟨u, -, hin, -⟩ := hm.updated_sent stack tag check
    have hblock := (hm.inUse_below stack).toIsBlock
    obtain ⟨-, hwrite, -⟩ := hm.channel_bounds (i := 1) (by rw [stack]; rfl) tag
    have hslot := check.writeSlot hblock
    have hslots : checked.channelSlots a = m.heap.channelSlots a :=
      check.word hblock (by decide) (by decide)
    have heffect : m.sending? = some
        { Effect.gives m.registers 2 (.known Heap.undefined) with
          writes := [(a, ringStart + m.heap.writeSlot a, v),
            (a, 2, (m.heap.writeSlot a + 1) % m.heap.channelSlots a)]
          kind
          leave := oneFrom [.channel .reader a]
          woken := (m.queue (.channel .reader a)).take 1
          progress := if m.heap.isUnbuffered a then .blocked else .advanced
          joins := if m.heap.isUnbuffered a then some (.channel .sender a) else none } := by
      simp [sending?, stack, tag, hrecording, room]
    have hheap : k.heap = (checked.setWord a (ringStart + m.heap.writeSlot a) v).setWord a 2
        ((m.heap.writeSlot a + 1) % m.heap.channelSlots a) := by
      rw [heap, Heap.channelPush, hslot, hslots]
    have hlive : ∀ b ∈ m.registers.stack, m.heap.Live m.roots b := fun b hb => live_stack hb
    rw [stack] at hlive
    refine ⟨_, fun _ => 0, heffect, rfl, ⟨Heap.supplies_ring (hlive a (by simp)) tag hwrite
      (by decide) (by decide) (.inr (hlive v (by simp))), stands_giving 2
      (hm.heap.toIntact.live_constant (i := 4) (by decide)), not_started⟩, ?_, ?_, crew.current,
      crew.threads, crew.nextThread, fun q _ => requeues.queue q, ?_, ?_, crew.builtins, ?_,
      crew.typedChannels⟩
    · rw [hheap]
      rw [← heap, hheap] at u
      exact .of_ring hm.heap hm.inUse_root tag hin.toIsBlock hwrite (by decide) (by decide) u
        (fun n => check.word hblock) hkind hbuilding
    · rw [registers]
      refine .trans ?_ (Registers.placed_giving m.registers 2 (.known Heap.undefined) _).symm
      rw [stack]
      rfl
    · intro _ _ _ hi
      cases hi
    · exact requeues.runnable.trans (List.append_nil _).symm
    · exact crew.output.trans String.append_empty.symm
  | @full v a rest _ stack tag full crew check registers requeues =>
    obtain ⟨kind, hrecording, hbuilding, hkind⟩ := hm.recorded stack tag check
    have hin := hm.inUse_below stack
    have heffect : m.sending? =
        some { Effect.waits m.registers (.channel .writer a) with kind } := by
      simp [sending?, stack, tag, hrecording, full]
    refine ⟨_, fun _ => 0, heffect, rfl, realizes_waits ?_ crew registers requeues⟩
    exact .of_recorded (check.updated hm.heap hin tag) hm.heap hm.inUse_root tag
      (fun n => check.word hin.toIsBlock) hkind hbuilding
  | counted instr' => rw [instr] at instr'; simp at instr'
  | _ instr' => rw [instr] at instr'; cases instr'

theorem performs_receive (instr : program.at? m.registers.pc = some .receive) :
    Performs receive m m.receiving? := by
  refine (hm.acts_receive instr).mono (fun p k acts => ?_) fun _ _ _ => trivial
  generalize m.dealt program p k = d at acts
  cases acts with
  | apart _ notReceive => exact absurd instr notReceive
  | @received a rest _ stack tag taken crew heap registers requeues =>
    have hin := hm.inUse_top stack
    obtain ⟨-, -, hread⟩ := hm.channel_bounds (i := 0) (by rw [stack]; rfl) tag
    have heffect : m.receiving? = some
        { Effect.gives m.registers 1 (.known (m.heap.channelFront a)) with
          writes := [(a, ringStart + m.heap.readSlot a, vacant),
            (a, 3, (m.heap.readSlot a + 1) % m.heap.channelSlots a)]
          leave := oneFrom (if m.heap.isUnbuffered a then [.channel .sender a, .channel .writer a]
            else [.channel .writer a])
          woken := (if m.heap.isUnbuffered a then (m.queue (.channel .sender a)).take 1 else []) ++
            (m.queue (.channel .writer a)).take 1 } := by
      simp [receiving?, stack, tag, taken]
    have hlive : ∀ b ∈ m.registers.stack, m.heap.Live m.roots b := fun b hb => live_stack hb
    rw [stack] at hlive
    have hlive := hlive a List.mem_cons_self
    refine ⟨_, fun _ => 0, heffect, rfl, ⟨Heap.supplies_ring hlive tag hread (by decide) (by decide)
      (.inl rfl), stands_giving 1 ?_, not_started⟩, ?_, ?_, crew.current, crew.threads,
      crew.nextThread, fun q _ => requeues.queue q, ?_, ?_, crew.builtins, ?_, crew.typedChannels⟩
    · exact hm.heap.live_front hm.inUse_root hlive tag taken
    · rw [heap]
      exact .of_ring hm.heap hm.inUse_root tag hin.toIsBlock hread (by decide) (by decide)
        (hm.heap.channelPop hin tag) (fun _ _ _ => rfl) (.inl ⟨rfl, rfl⟩) rfl
    · rw [registers]
      refine .trans ?_ (Registers.placed_giving m.registers 1 (.known (m.heap.channelFront a)) _).symm
      rw [stack]
      rfl
    · intro _ _ _ hi
      cases hi
    · exact requeues.runnable.trans (List.append_nil _).symm
    · exact crew.output.trans String.append_empty.symm
  | @empty a rest _ stack tag empty crew heap registers requeues =>
    have heffect : m.receiving? = some (.waits m.registers (.channel .reader a)) := by
      simp [receiving?, stack, tag, empty]
    refine ⟨_, fun _ => 0, heffect, rfl, realizes_waits ?_ crew registers requeues⟩
    rw [heap]
    exact .nothing (.refl hm.heap _) hm.heap hm.inUse_root _
  | counted instr' => rw [instr] at instr'; simp at instr'
  | _ instr' => rw [instr] at instr'; cases instr'

/-! ### Wait-groups -/

theorem makes_adjust {i : Nat} {g : Address} {delta : Number} (n : Nat)
    (hg : m.registers.stack[i]? = some g) (htag : m.heap.tag g = .waitGroup) :
    Makes (do adjust g delta; replace n Heap.undefined; advance) m (m.adjusting? g delta n) := by
  have hin := (hm.isValue_stack hg).1
  obtain ⟨hcin, hctag⟩ := hm.heap.counter hin htag
  refine .bind (ensures_adjust ?_ fun e _ => trivial)
  intro count k husable hcount hnonneg crew hregisters hheap requeues
  have hblock := hcin.toIsBlock
  have undergoes : m.heap.Undergoes k.heap m.roots
      { writes := [(m.heap.word g 1, 1, count.bits.toNat)] } fun _ => 0 := by
    rw [hheap]
    refine .of_updated (hm.heap.setGroupCount hin htag count) hm.heap hm.inUse_root
      (by rw [hctag]; decide) ?_
      (.inl ⟨rfl, Heap.header_setWord hblock hblock (Nat.le_refl 1) (by decide) _⟩) ?_ rfl
    · intro b j w hw
      exact (Prod.mk.inj (List.mem_singleton.1 hw)).1
    · intro j hj hlt
      rw [Heap.setGroupCount, Heap.setNumber, Heap.word_setWord_block hblock hblock (by decide) hlt,
        Change.wordAt_single]
      simp only [true_and, eq_comm]
  have heffect : m.adjusting? g delta n = some
      { Effect.gives m.registers n (.known Heap.undefined) with
        writes := [(m.heap.word g 1, 1, count.bits.toNat)]
        leave := if count.same .zero then allFrom m [.group g] else oneFrom []
        woken := if count.same .zero then m.queue (.group g) else [] } := by
    subst hcount
    exact if_neg (by simp [htag, husable, hnonneg])
  have hlive := hm.heap.live_counter hm.inUse_root (live_stack (List.mem_of_getElem? hg)) htag
  have requeues' : Requeues m k (if count.same .zero then allFrom m [.group g] else oneFrom [])
      (if count.same .zero then m.queue (.group g) else []) none := by
    cases hzero : count.same .zero with
    | true => simpa only [hzero, if_true] using requeues
    | false => simpa [hzero] using requeues
  refine .bind (ensures_replace (ensures_advance ⟨_, fun _ => 0, heffect, rfl,
    ⟨.of_writes (fun b j w hw => ?_) (fun b j w hw hle hlt => ?_), stands_giving n
      (hm.heap.toIntact.live_constant (i := 4) (by decide)), not_started⟩, undergoes, ?_, crew.current,
    crew.threads, crew.nextThread, fun q _ => requeues'.queue q, ?_, ?_, crew.builtins, ?_,
    crew.typedChannels⟩))
  · simp only [List.mem_singleton, Prod.mk.injEq] at hw
    obtain ⟨rfl, rfl, -⟩ := hw
    exact ⟨hlive, Nat.le_refl 1, by decide⟩
  · -- A counter has no children.
    simp only [List.mem_singleton, Prod.mk.injEq] at hw
    obtain ⟨rfl, -, -⟩ := hw
    rw [Heap.childRange_of_tag hctag] at hlt
    exact absurd hlt (Nat.not_lt_zero _)
  · refine .trans ?_ (Registers.placed_giving m.registers n (.known Heap.undefined) _).symm
    change { k.registers with
      stack := Heap.undefined :: k.registers.stack.drop n, pc := k.registers.pc + 1 } = _
    rw [hregisters]
    rfl
  · intro _ _ _ hi
    cases hi
  · exact requeues'.runnable.trans (List.append_nil _).symm
  · exact crew.output.trans String.append_empty.symm

theorem makes_groupAdd : Makes groupAdd m (m.effectOf? program .groupAdd) := by
  refine .bind (ensures_peek (fun delta hdelta => ?_) fun _ => trivial)
  refine .bind (ensures_peek (fun g hg => ?_) fun _ => trivial)
  refine .bind (ensures_waitGroup (fun htag => .bind (ensures_readHeap ?_)) fun _ => trivial)
  cases hx : m.heap.number? delta with
  | none => exact .bind (ensures_readHeap (.throw trivial))
  | some x =>
    have heffect : m.effectOf? program .groupAdd = m.adjusting? g x 2 := by
      simp [effectOf?, hdelta, hg, hx]
    rw [heffect]
    exact hm.makes_adjust 2 hg htag

theorem makes_groupDone : Makes groupDone m (m.effectOf? program .groupDone) := by
  refine .bind (ensures_peek (fun g hg => ?_) fun _ => trivial)
  refine .bind (ensures_waitGroup (fun htag => ?_) fun _ => trivial)
  have heffect : m.effectOf? program .groupDone = m.adjusting? g .minusOne 1 := by
    simp [effectOf?, hg]
  rw [heffect]
  exact hm.makes_adjust 1 hg htag

theorem performs_groupWait : Performs groupWait m (m.effectOf? program .groupWait) := by
  refine .bind (ensures_peek (fun g hg => ?_) fun _ => trivial)
  refine .bind (ensures_waitGroup (fun htag => .bind (ensures_readHeap ?_)) fun _ => trivial)
  cases habove : Number.zero.less (m.heap.groupCount g) with
  | true =>
    have heffect : m.effectOf? program .groupWait = some (.waits m.registers (.group g)) := by
      simp [effectOf?, hg, htag, habove]
    refine .bind (ensures_update (.pure ⟨_, fun _ => 0, heffect, rfl, realizes_waits
      (.nothing (.refl hm.heap _) hm.heap hm.inUse_root _) ⟨rfl, rfl, rfl, rfl, rfl, rfl⟩ rfl
      (.of_join (queue_enqueue_group m g m.current) rfl)⟩))
  | false =>
    have heffect : m.effectOf? program .groupWait =
        some (.gives m.registers 1 (.known Heap.undefined)) := by
      simp [effectOf?, hg, htag, habove]
    rw [heffect]
    exact (hm.makes_known 1 (hm.heap.toIntact.live_constant (i := 4) (by decide))).proceed

/-! ### Every instruction -/

/-- Nothing changes, whatever that means for the thread. -/
theorem realizes_still (progress : Progress) :
    Realizes m m { Effect.moves m.registers with progress } fun _ => 0 :=
  (hm.realizes_moves (fun _ => live_root) rfl rfl (Beside.refl m)).of_progress progress

theorem performs_halt : Performs halt m (m.effectOf? program .halt) :=
  .bind (ensures_registersNow (.pure ⟨_, _, rfl, rfl, hm.realizes_still _⟩))

/-- The next instruction has its effect. -/
theorem performs_execute {i : Instruction} (instr : program.at? m.registers.pc = some i) :
    Performs (execute program i) m (m.effectOf? program i) := by
  cases i with
  | constant l => exact (hm.makes_constant l).proceed
  | load p => exact (hm.makes_load p).proceed
  | store p => exact (hm.makes_store p).proceed
  | closure arity entry => exact (hm.makes_closure arity entry).proceed
  | call n => exact (hm.makes_call n false).proceed
  | tailCall n => exact (hm.makes_call n true).proceed
  | ret => exact hm.makes_ret.proceed
  | enterScope n => exact (hm.makes_enterScope n).proceed
  | exitScope => exact hm.makes_closeScope.proceed
  | pop => exact hm.makes_drop.proceed
  | unary op => exact (hm.makes_unary op).proceed
  | binary op => exact (hm.makes_binary op).proceed
  | jumpUnless target => exact (hm.makes_jumpUnless target).proceed
  | jump target => exact (hm.makes_goTo target rfl).proceed
  | loopEnd target => exact .bind (ensures_advance (.pure (hm.makes_moves fun _ => live_root)))
  | breakLoop => exact hm.performs_leave true
  | continueLoop => exact hm.performs_leave false
  | spawn n => exact (hm.makes_spawn n).proceed
  | endThread => exact .pure ⟨_, _, rfl, rfl, hm.realizes_still _⟩
  | newChannel capacity => exact (hm.makes_newChannel capacity).proceed
  | send => exact hm.performs_send instr
  | receive => exact hm.performs_receive instr
  | newWaitGroup => exact hm.makes_newWaitGroup.proceed
  | groupAdd => exact hm.makes_groupAdd.proceed
  | groupDone => exact hm.makes_groupDone.proceed
  | groupWait => exact hm.performs_groupWait
  | halt => exact hm.performs_halt

/-- A step has the effect of the next instruction. -/
theorem performs_step : Performs (step program) m (m.effect? program) := by
  refine .bind (ensures_registersNow ?_)
  cases instr : program.at? m.registers.pc with
  | some i =>
    rw [effect?, instr]
    exact hm.performs_execute instr
  | none =>
    rw [effect?, instr]
    exact hm.performs_halt

end Sound

/-- The addresses in the registers after an effect. -/
theorem Realizes.mem_registers {e : Effect} {f : Nat → Address} (realizes : Realizes m k e f)
    {a : Address} (ha : a ∈ k.registers.roots) : ∃ x ∈ e.registers.refs, x.placed f = a := by
  rw [realizes.outline] at ha
  rcases Registers.mem_roots.1 ha with ha | rfl | ha
  · obtain ⟨x, hx, rfl⟩ := List.mem_map.1 ha
    exact ⟨x, List.mem_append_left _ hx, rfl⟩
  · exact ⟨_, List.mem_append_right _ List.mem_cons_self, rfl⟩
  · obtain ⟨x, hx, rfl⟩ := List.mem_map.1 ha
    exact ⟨x, List.mem_append_right _ (List.mem_cons_of_mem _ hx), rfl⟩

/-- The other threads after an effect. -/
theorem Realizes.thread {e : Effect} {f : Nat → Address} (realizes : Realizes m k e f) {t : ThreadId}
    {r : Registers} (hr : k.threads[t]? = some r) :
    m.threads[t]? = some r ∨ e.started = some r ∧ t = m.nextThread := by
  rw [realizes.threads] at hr
  cases hstarted : e.started with
  | none =>
    rw [hstarted] at hr
    exact .inl hr
  | some started =>
    rw [hstarted, Std.TreeMap.getElem?_insert] at hr
    split at hr
    next heq => exact .inr ⟨hr, (Std.LawfulEqCmp.eq_of_compare heq).symm⟩
    next => exact .inl hr

/-- All that is live after an effect was live before or is new. -/
theorem Realizes.live_or_made {e : Effect} {f : Nat → Address} (realizes : Realizes m k e f)
    (hm : m.Sound) {a : Address} (ha : k.heap.Live k.roots a) :
    m.heap.Live m.roots a ∨ ∃ i < e.made.length, a = f i := by
  refine realizes.heap.live_or_made hm.heap hm.inUse_root realizes.toAffords (fun b hb => ?_) ha
  rcases mem_threadRoots.1 hb with hb | ⟨t, r, hr, hb⟩
  · obtain ⟨x, hx, rfl⟩ := realizes.mem_registers hb
    have stands := realizes.registers x hx
    cases x with
    | known w => exact .inl stands
    | made i => exact .inr ⟨i, stands, rfl⟩
  · rcases realizes.thread hr with hr | ⟨hstarted, -⟩
    · exact .inl (.root (mem_threadRoots.2 (.inr ⟨t, r, hr, hb⟩)))
    · exact .inl (realizes.started r hstarted b hb)

end Machine

end ChannelMachine

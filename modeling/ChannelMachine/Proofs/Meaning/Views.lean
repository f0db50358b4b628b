import Mathlib.Logic.Relation
import ChannelMachine.Proofs.Machine.Safety
import ChannelMachine.Proofs.Meaning.Placing

/-!
# What a thread is at

A `View` is what the evaluator would know of a machine: the world, and the spot where the only thread
stands.  It has no addresses, and so two machines with different heaps may match the same view.

`Steps program v v'` says that every machine that matches `v` executes an instruction and matches `v'`
then, unless its heap is exhausted, and `Faults` that every such machine ends in a fault.  Since a view
determines the next one, runs of all these machines have the same number of steps.
-/

namespace ChannelMachine

namespace Source

/-! ## Views -/

/-- What a frame to return to stands for. -/
inductive Kont where
  /-- The end of a scope in an environment. -/
  | block (environment : Environment)
  /-- An index at which a caller goes on in an environment. -/
  | call (pc : Nat) (environment : Environment)
deriving DecidableEq

/-- Where a thread stands. -/
structure Spot where
  /-- The operands, the top of the stack first. -/
  operands : List Datum
  /-- The frames around it. -/
  environment : Environment
  /-- What it returns to, the innermost first. -/
  returns : List Kont
  /-- The index of the next instruction. -/
  pc : Nat

/-- What a machine with one thread is at. -/
structure View where
  /-- The world. -/
  world : World
  /-- Where the thread stands. -/
  spot : Spot

/-- A node is what a thread returns to. -/
def Placing.Returns (ρ : Placing) (h : Heap) : Kont → Address → Prop
  | .block environment, a => h.tag a = .blockframe ∧ ρ.Sees h environment (h.word a 1)
  | .call pc environment, a =>
      h.tag a = .callframe ∧ (h.payload a).toNat = pc ∧ ρ.Sees h environment (h.word a 1)

namespace View

/-- A machine shows what a view says. -/
structure Agrees (v : View) (ρ : Placing) (m : Machine) : Prop where
  /-- The frames and functions of the world. -/
  placed : Placed v.world ρ m.heap
  /-- The operands. -/
  operands : List.Forall₂ (ρ.Shows m.heap) v.spot.operands m.registers.stack
  /-- The environment. -/
  environment : ρ.Sees m.heap v.spot.environment m.registers.environment
  /-- The frames to return to. -/
  returns : List.Forall₂ (ρ.Returns m.heap) v.spot.returns m.registers.frames
  /-- The index. -/
  pc : m.registers.pc = v.spot.pc
  /-- The builtins are those that the compiler counts on. -/
  builtins : m.builtins = standardBuiltins
  /-- No other thread is about to run. -/
  runnable : m.runnable = []
  /-- What has been printed. -/
  output : m.output = v.world.store.output

/-- A sound machine that shows what a view says. -/
def Matches (v : View) (m : Machine) : Prop := m.Sound ∧ ∃ ρ, v.Agrees ρ m

end View

/-! ## What is kept -/

section Keep

variable {w : World} {ρ σ : Placing} {h k : Heap} {nodes : Address → Prop} {frame a : Address}

theorem Placing.Returns.mono {t : Kont} (ht : ρ.Returns h t a) (hρ : ∀ x a, ρ x a → σ x a) :
    σ.Returns h t a := by
  cases t with
  | block environment => exact ⟨ht.1, ht.2.mono hρ⟩
  | call pc environment => exact ⟨ht.1, ht.2.1, ht.2.2.mono hρ⟩

/-- What a frame to return to leads to. -/
theorem Placing.Returns.isFrame {t : Kont} (ht : ρ.Returns h t a) :
    h.tag a = .blockframe ∨ h.tag a = .callframe := by
  cases t with
  | block environment => exact .inl ht.1
  | call pc environment => exact .inr ht.1

theorem Placing.Returns.keep {t : Kont} (ht : ρ.Returns h t a) (keeps : Heap.KeepsAll h k nodes)
    (hs : h.Sound) (hin : h.InUse a) (ha : nodes a) : (ρ.within nodes).Returns k t a := by
  have same := keeps.node a ha
  have hkind := ht.isFrame
  have hrange : (h.header a).childRange = (1, 2) := by
    rcases hkind with htag | htag
    · exact Heap.childRange_of_tag htag
    · exact Heap.childRange_of_tag htag
  have hnode : nodes (h.word a 1) := by
    refine keeps.child a 1 ha ?_ (Nat.le_of_eq (congrArg Prod.fst hrange)) (by rw [hrange]; decide)
    rcases hkind with htag | htag
    · rw [htag]
      decide
    · rw [htag]
      decide
  have hsound := hs.typed _ (hs.word_block hin hkind).1
  have hword : k.word a 1 = h.word a 1 := same.word 1 (by decide) (by decide)
  cases t with
  | block environment => exact ⟨same.tag.trans ht.1, hword ▸ ht.2.keep keeps hnode hsound⟩
  | call pc environment =>
    refine ⟨same.tag.trans ht.1, ?_, hword ▸ ht.2.2.keep keeps hnode hsound⟩
    rw [same.payload]
    exact ht.2.1

theorem Placing.Returns.written {t : Kont} (ht : ρ.Returns h t a) (p : Placed w ρ h) (hs : h.Sound)
    (writes : Heap.Writes h k frame) (htag : h.tag frame = .frame)
    (hsize : k.size frame = h.size frame) (hin : h.InUse a) : ρ.Returns k t a := by
  have hkind := ht.isFrame
  have hne : a ≠ frame := by
    rintro rfl
    rw [htag] at hkind
    rcases hkind with heq | heq <;> cases heq
  have same := writes.same hin.toIsBlock hne
  have hword : k.word a 1 = h.word a 1 := same.word 1 (by decide) (by decide)
  have hchild := (hs.word_block hin hkind).1
  cases t with
  | block environment =>
    exact ⟨same.tag.trans ht.1, hword ▸ ht.2.written p hs writes htag hsize hchild⟩
  | call pc environment =>
    refine ⟨same.tag.trans ht.1, ?_, hword ▸ ht.2.2.written p hs writes htag hsize hchild⟩
    rw [same.payload]
    exact ht.2.1

end Keep

namespace View.Agrees

open Machine

variable {v : View} {w : World} {ρ : Placing} {m : Machine} {t : Spot}

/-- The view of a heap in which everything that is live is as it was. -/
theorem withHeap (agrees : v.Agrees ρ m) (hm : m.Sound) {k : Heap}
    (g : Heap.Grows m.heap k m.roots) :
    v.Agrees ((ρ.within (m.heap.Live m.roots)).within fun _ => True) (m.withHeap k) := by
  have keeps := g.keepsAll hm.heap hm.inUse_root
  have same := (alike_withHeap m k).keepsAll
  have hk := g.sound
  refine ⟨(agrees.placed.keep hm.heap keeps).keep hk same, ?_, ?_, ?_, agrees.pc, agrees.builtins,
    agrees.runnable, agrees.output⟩
  · refine forall₂_imp_mem agrees.operands fun x a ha hx => ?_
    exact (hx.keep keeps (Sound.live_stack ha)).keep same trivial
  · have hlive := Sound.live_environment (m := m)
    have hin := hm.registers.inUse
    refine (agrees.environment.keep keeps hlive (hm.heap.typed _ hin)).keep same trivial ?_
    exact hk.typed _ (g.inUse hm.heap hm.inUse_root hlive)
  · refine forall₂_imp_mem agrees.returns fun t a ha ht => ?_
    have hlive : m.heap.Live m.roots a :=
      Sound.live_root (Registers.mem_roots.2 (.inr (.inr ha)))
    have hin := (hm.registers.frames a ha).1
    exact (ht.keep keeps hm.heap hin hlive).keep same hk (g.inUse hm.heap hm.inUse_root hlive) trivial

/-- More items. -/
theorem extend {w' : World} {σ : Placing} (agrees : v.Agrees ρ m) (hρ : ∀ x a, ρ x a → σ x a)
    (placed : Placed w' σ m.heap) (houtput : w'.store.output = v.world.store.output) :
    View.Agrees ⟨w', v.spot⟩ σ m where
  placed := placed
  operands := agrees.operands.imp fun _ _ hx => hx.mono hρ
  environment := agrees.environment.mono hρ
  returns := agrees.returns.imp fun _ _ ht => ht.mono hρ
  pc := agrees.pc
  builtins := agrees.builtins
  runnable := agrees.runnable
  output := agrees.output.trans houtput.symm

/-- Other registers. -/
theorem withRegisters (agrees : v.Agrees ρ m) {r : Registers}
    (operands : List.Forall₂ (ρ.Shows m.heap) t.operands r.stack)
    (environment : ρ.Sees m.heap t.environment r.environment)
    (returns : List.Forall₂ (ρ.Returns m.heap) t.returns r.frames) (pc : r.pc = t.pc) :
    View.Agrees ⟨v.world, t⟩ ρ (m.withRegisters r) :=
  ⟨agrees.placed, operands, environment, returns, pc, agrees.builtins, agrees.runnable,
    agrees.output⟩

/-- Another index. -/
theorem moved (agrees : v.Agrees ρ m) (pc : Nat) :
    View.Agrees ⟨v.world, { v.spot with pc }⟩ ρ
      (m.withRegisters { m.registers with pc }) :=
  agrees.withRegisters agrees.operands agrees.environment agrees.returns rfl

/-- The next index. -/
theorem advanced (agrees : v.Agrees ρ m) :
    View.Agrees ⟨v.world, { v.spot with pc := v.spot.pc + 1 }⟩ ρ
      (m.withRegisters { m.registers with pc := m.registers.pc + 1 }) := by
  rw [agrees.pc]
  exact agrees.moved _

/-- One operand in the place of some. -/
theorem replaced (agrees : v.Agrees ρ m) (n : Nat) {d : Datum} {a : Address}
    (hd : ρ.Shows m.heap d a) :
    View.Agrees ⟨v.world, { v.spot with operands := d :: v.spot.operands.drop n }⟩ ρ
      (m.withRegisters { m.registers with stack := a :: m.registers.stack.drop n }) :=
  agrees.withRegisters (.cons hd (List.forall₂_drop n agrees.operands)) agrees.environment
    agrees.returns agrees.pc

/-- A variable is assigned. -/
theorem assign (agrees : v.Agrees ρ m) (hm : m.Sound) {i j : Nat} {frame a : Address} {d : Datum}
    (hframe : ρ (.frame i) frame) {slots : List (Option Datum)}
    (hslots : v.world.store.frames[i]? = some slots) (hj : j < slots.length)
    (hd : ρ.Shows m.heap d a) (ha : m.heap.InUse a) :
    Heap.Updated m.heap (m.heap.setWord frame (j + 1) a) frame ∧
      View.Agrees ⟨v.world.assign i j d, v.spot⟩ ρ
        { m with heap := m.heap.setWord frame (j + 1) a } := by
  obtain ⟨updated, hsize, placed⟩ := agrees.placed.assign hm.heap hframe hslots hj hd ha
  obtain ⟨_, -, htag, -⟩ := agrees.placed.holds _ _ hframe
  refine ⟨updated, placed, ?_, ?_, ?_, agrees.pc, agrees.builtins, agrees.runnable, agrees.output⟩
  · refine forall₂_imp_mem agrees.operands fun x b hb hx => ?_
    exact hx.written agrees.placed hm.heap updated.toWrites htag (hm.registers.stack b hb).1.toIsBlock
  · exact agrees.environment.written agrees.placed hm.heap updated.toWrites htag hsize
      hm.registers.inUse
  · refine forall₂_imp_mem agrees.returns fun t b hb ht => ?_
    exact ht.written agrees.placed hm.heap updated.toWrites htag hsize (hm.registers.frames b hb).1

end View.Agrees

/-! ## Steps -/

/-- Every machine that matches the first view executes an instruction and matches the second one then,
unless its heap is exhausted. -/
def Steps (program : Program) (v v' : View) : Prop :=
  ∀ m, v.Matches m → Ensures (Machine.step program) m (fun p k => p = .advanced ∧ v'.Matches k)
    (fun e k => e = .heapExhausted ∧ k.output = v.world.store.output)

/-- Every machine that matches the view ends in a fault. -/
def Faults (program : Program) (v : View) (cause : Fault) : Prop :=
  ∀ m, v.Matches m → Ensures (Machine.step program) m (fun _ _ => False)
    (fun e k => e = cause ∧ k.output = v.world.store.output)

/-- Every machine that matches the first view comes to match the second one. -/
abbrev Reaches (program : Program) : View → View → Prop := Relation.ReflTransGen (Steps program)

section Step

open Machine

variable {program : Program} {v v' : View} {i : Instruction} {m : Machine}

/-- The rule for the next instruction. -/
theorem ensures_step (hi : program.at? v.spot.pc = some i) {ρ : Placing} (agrees : v.Agrees ρ m)
    {good : Progress → Machine → Prop} {bad : Fault → Machine → Prop}
    (h : Ensures (Machine.execute program i) m good bad) : Ensures (step program) m good bad := by
  refine .bind (ensures_registersNow ?_)
  rw [agrees.pc, hi]
  exact h

theorem steps_of (hi : program.at? v.spot.pc = some i)
    (h : ∀ m ρ, m.Sound → v.Agrees ρ m → Ensures (Machine.execute program i) m
      (fun p k => p = .advanced ∧ ∃ ρ, v'.Agrees ρ k)
      (fun e k => e = .heapExhausted ∧ k.output = v.world.store.output)) : Steps program v v' := by
  rintro m ⟨hm, ρ, agrees⟩
  refine ((ensures_step hi agrees (h m ρ hm agrees)).and (hm.leaves_step program)).mono ?_ ?_
  · exact fun p k hk => ⟨hk.1.1, hk.2, hk.1.2⟩
  · exact fun e k hk => hk.1

/-- The rule for an instruction behind which the thread goes on. -/
theorem steps_of_proceed {action : Action Unit} (hi : program.at? v.spot.pc = some i)
    (hexecute : Machine.execute program i = proceed action)
    (h : ∀ m ρ, m.Sound → v.Agrees ρ m → Ensures action m (fun _ k => ∃ ρ, v'.Agrees ρ k)
      (fun e k => e = .heapExhausted ∧ k.output = v.world.store.output)) : Steps program v v' := by
  refine steps_of hi fun m ρ hm agrees => ?_
  rw [hexecute]
  exact .bind ((h m ρ hm agrees).mono (fun _ k hk => .pure ⟨rfl, hk⟩) fun _ _ hk => hk)

/-- The rule for an instruction that ends in a fault. -/
theorem faults_of_proceed {action : Action Unit} {cause : Fault}
    (hi : program.at? v.spot.pc = some i) (hexecute : Machine.execute program i = proceed action)
    (h : ∀ m ρ, m.Sound → v.Agrees ρ m → Ensures action m (fun _ _ => False)
      (fun e k => e = cause ∧ k.output = v.world.store.output)) : Faults program v cause := by
  rintro m ⟨hm, ρ, agrees⟩
  refine ensures_step hi agrees ?_
  rw [hexecute]
  exact .bind ((h m ρ hm agrees).mono (fun _ _ hk => hk.elim) fun _ _ hk => hk)

end Step

end Source

end ChannelMachine

import ChannelMachine.Machine.Step
import ChannelMachine.Proofs.Heap.Changing
import ChannelMachine.Proofs.Machine.Standing

/-!
# What an instruction does

An `Effect` is all that one instruction does to a machine: the change of the heap, the registers that the
thread goes on with, the thread that it starts, what it prints and what it does to queues.  The new nodes
have no addresses yet, so an effect does not depend on the allocator.

`Machine.effect?` reads the effect of the next instruction off the machine, if the instruction does not
fail, and `Realizes` says that one machine came from another one by an effect.  What an effect may use is
live (`Draws`), and therefore all that is live behind it was live before or is new.
-/

namespace ChannelMachine

/-! ## Registers -/

/-- Registers before the new nodes have addresses. -/
structure Outline where
  /-- The operands, the top of the stack first. -/
  stack : List Ref
  /-- The index of the next instruction. -/
  pc : Nat
  /-- The environment. -/
  environment : Ref
  /-- The frames to return to, the innermost first. -/
  frames : List Ref

namespace Outline

/-- The registers, where the new nodes are. -/
def placed (f : Nat → Address) (o : Outline) : Registers :=
  ⟨o.stack.map (Ref.placed f), o.pc, o.environment.placed f, o.frames.map (Ref.placed f)⟩

/-- The addresses in the registers. -/
def refs (o : Outline) : List Ref := o.stack ++ o.environment :: o.frames

end Outline

namespace Registers

/-- Registers in which nothing is new. -/
def outline (r : Registers) : Outline :=
  ⟨r.stack.map .known, r.pc, .known r.environment, r.frames.map .known⟩

/-- The top `n` operands are replaced by one, and the thread goes on with the next instruction. -/
def giving (r : Registers) (n : Nat) (x : Ref) : Outline :=
  ⟨x :: (r.stack.drop n).map .known, r.pc + 1, .known r.environment, r.frames.map .known⟩

theorem placed_outline (r : Registers) (f : Nat → Address) : r.outline.placed f = r := by
  simp only [outline, Outline.placed, map_placed_known, Ref.placed]

theorem placed_giving (r : Registers) (n : Nat) (x : Ref) (f : Nat → Address) :
    (r.giving n x).placed f = { r with stack := x.placed f :: r.stack.drop n, pc := r.pc + 1 } := by
  simp only [giving, Outline.placed, List.map_cons, map_placed_known, Ref.placed]

end Registers

/-! ## Values -/

/-- The value that an operation gives. -/
inductive Product where
  /-- A node that is there. -/
  | known (a : Address)
  /-- A new node. -/
  | new (b : Blueprint)

/-- The nodes that are made for it. -/
def Product.made : Product → List Blueprint
  | known _ => []
  | new b => [b]

/-- Its address. -/
def Product.ref : Product → Ref
  | known a => .known a
  | new _ => .made 0

/-- The value of a literal. -/
def Literal.product : Literal → Product
  | .number x => .new (.number x)
  | .text s => .new (.text s)
  | .bool b => .known (Heap.boolean b)
  | .null => .known Heap.null
  | .undefined => .known Heap.undefined

namespace Heap

/-- The value of an operation on one node. -/
def unaryProduct? (h : Heap) (op : UnaryOp) (a : Address) : Option Product :=
  match op with
  | .neg => (h.number? a).map fun x => .new (.number x.neg)
  | .not => (h.bool? a).map fun b => .known (boolean (!b))

/-- The value of an operation on two nodes. -/
def binaryProduct? (h : Heap) (op : BinaryOp) (a b : Address) : Option Product :=
  match op with
  | .eq => some (.known (boolean (h.sameValue a b)))
  | .ne => some (.known (boolean (!h.sameValue a b)))
  | .lt | .le | .gt | .ge =>
      match h.operands a b with
      | .numbers x y => some (.known (boolean (op.comparesNumbers x y)))
      | .texts s t => some (.known (boolean (op.comparesTexts s t)))
      | .other => none
  | .add =>
      match h.operands a b with
      | .numbers x y => some (.new (.number (x.add y)))
      | .texts s t => some (.new (.text (s ++ t)))
      | .other => none
  | .sub | .mul | .div | .mod =>
      match h.operands a b with
      | .numbers x y => some (.new (.number (op.onNumbers x y)))
      | _ => none

/-- What is shown of some nodes. -/
def displayAll (h : Heap) : List Address → String
  | [] => ""
  | a :: rest => h.display a ++ h.displayAll rest

/-- The value of a builtin, and what it prints. -/
def builtinProduct? (h : Heap) (b : Builtin) (arguments : List Address) :
    Option (Product × String) :=
  match b, arguments with
  | .print, as => some (.known undefined, h.displayAll as)
  | .println, as => some (.known undefined, h.displayAll as ++ "\n")
  | .len, a :: _ => (h.lengthOf a).toOption.map fun n => (.new (.number (.ofNat n)), "")
  | .abs, a :: _ => (h.needNumber a).toOption.map fun x => (.new (.number x.abs), "")
  | .min, a :: b :: _ =>
      (h.needNumbers a b).toOption.map fun x => (.new (.number (x.1.least x.2)), "")
  | .max, a :: b :: _ =>
      (h.needNumbers a b).toOption.map fun x => (.new (.number (x.1.greatest x.2)), "")
  | .string, a :: _ => some (.new (.text (h.display a)), "")
  | _, _ => none

/-! ## Frames -/

/-- The environment and the frames behind the innermost scopes. -/
def closing? (h : Heap) : Nat → Address → List Address → Option (Address × List Address)
  | 0, environment, frames => some (environment, frames)
  | _ + 1, _, [] => none
  | n + 1, _, frame :: rest =>
      if h.tag frame = .blockframe then h.closing? n (h.word frame 1) rest else none

/-- Where the function returns to: the index, the environment and the frames. -/
def returning? (h : Heap) (frames : List Address) : Option (Nat × Address × List Address) :=
  match frames.dropWhile fun a => h.tag a ≠ .callframe with
  | [] => none
  | call :: rest => some ((h.payload call).toNat, h.word call 1, rest)

end Heap

namespace Blueprint

/-- A frame with these variables. -/
def frame (values : List Nat) : Blueprint :=
  .node (.fresh .frame (values.length + 1)) (values.map .known)

/-- An environment with one more frame, which is new. -/
def inside (h : Heap) (environment : Address) (i : Nat) : Blueprint :=
  .node (.fresh .environment (h.frameCount environment + 2))
    ((h.framesOf environment).map .known ++ [.made i])

/-- A frame to return to. -/
def back (header : Header) (environment : Address) : Blueprint := .node header [.known environment]

end Blueprint

/-! ## Effects -/

/-- What one instruction does to a machine. -/
structure Effect extends Change where
  /-- The registers that the thread goes on with. -/
  registers : Outline
  /-- What it means for the thread. -/
  progress : Progress := .advanced
  /-- The thread that is started. -/
  started : Option Registers := none
  /-- What is printed. -/
  printed : String := ""
  /-- How many threads leave a queue at its front. -/
  leave : Place → Nat := Machine.oneFrom []
  /-- The threads that are woken. -/
  woken : List ThreadId := []
  /-- The queue that the thread joins. -/
  joins : Option Place := none

namespace Effect

/-- The top `n` operands are replaced by a value. -/
def gives (r : Registers) (n : Nat) (x : Product) : Effect :=
  { made := x.made, registers := r.giving n x.ref }

/-- Only the registers change. -/
def moves (r : Registers) : Effect := { registers := r.outline }

/-- The thread stays where it is and joins a queue. -/
def waits (r : Registers) (p : Place) : Effect :=
  { registers := r.outline, progress := .blocked, joins := some p }

end Effect

namespace Machine

/-- A scope is opened. -/
def entering (m : Machine) (slots : Nat) : Effect :=
  let r := m.registers
  { made := [.back (.fresh .blockframe 2) r.environment,
      .frame (.replicate slots Heap.unassigned), .inside m.heap r.environment 1]
    registers := ⟨r.stack.map .known, r.pc + 1, .made 2, .made 0 :: r.frames.map .known⟩ }

/-- A function is called. -/
def invoking (m : Machine) (function : Address) (n : Nat) : Effect :=
  let r := m.registers
  { made := [.back (Heap.callHeader (r.pc + 1)) r.environment,
      .frame (r.stack.take n).reverse, .inside m.heap (m.heap.word function 2) 1]
    registers := ⟨(r.stack.drop (n + 1)).map .known, (m.heap.payload function).toNat, .made 2,
      .made 0 :: r.frames.map .known⟩ }

/-- A function is called in place of the running one. -/
def replacing (m : Machine) (function : Address) (n : Nat) : Effect :=
  let r := m.registers
  { made := [.frame (r.stack.take n).reverse, .inside m.heap (m.heap.word function 2) 0]
    registers := ⟨(r.stack.drop (n + 1)).map .known, (m.heap.payload function).toNat, .made 1,
      (r.frames.dropWhile fun a => m.heap.tag a = .blockframe).map .known⟩ }

/-- A builtin is called. -/
def applying? (m : Machine) (slot n : Nat) (tail : Bool) : Option Effect := do
  let entry ← m.builtins[slot]?
  if entry.arity ≠ n then none else
    let r := m.registers
    let (x, printed) ← m.heap.builtinProduct? entry.action (r.stack.take n).reverse
    let e : Effect := { Effect.gives r (n + 1) x with printed }
    if tail then
      let (pc, environment, frames) ← m.heap.returning? r.frames
      return { e with
        registers := { e.registers with pc, environment := .known environment, frames := frames.map .known } }
    else return e

/-- The kind of elements that a typed channel records, if it takes the value. -/
def recording? (m : Machine) (channel value : Address) : Option (Option (Address × Tag)) :=
  if m.typedChannels then
    let got := elementType (m.heap.tag value)
    match m.heap.elementKind? channel with
    | none => some (some (channel, got))
    | some expected => if expected ≠ got then none else some none
  else some none

/-- A value is sent. -/
def sending? (m : Machine) : Option Effect :=
  let r := m.registers
  let h := m.heap
  match r.stack with
  | value :: a :: _ =>
      if h.tag a ≠ .channel then none
      else
        (m.recording? a value).map fun kind =>
          if h.isFull a then { Effect.waits r (.channel .writer a) with kind }
          else
            { Effect.gives r 2 (.known Heap.undefined) with
              writes := [(a, ringStart + h.writeSlot a, value),
                (a, 2, (h.writeSlot a + 1) % h.channelSlots a)]
              kind
              leave := oneFrom [.channel .reader a]
              woken := (m.queue (.channel .reader a)).take 1
              progress := if h.isUnbuffered a then .blocked else .advanced
              joins := if h.isUnbuffered a then some (.channel .sender a) else none }
  | _ => none

/-- A value is received. -/
def receiving? (m : Machine) : Option Effect :=
  let r := m.registers
  let h := m.heap
  match r.stack with
  | a :: _ =>
      if h.tag a ≠ .channel then none
      else if h.isEmpty a then some (.waits r (.channel .reader a))
      else some
        { Effect.gives r 1 (.known (h.channelFront a)) with
          writes := [(a, ringStart + h.readSlot a, vacant),
            (a, 3, (h.readSlot a + 1) % h.channelSlots a)]
          leave := oneFrom (if h.isUnbuffered a then [.channel .sender a, .channel .writer a]
            else [.channel .writer a])
          woken := (if h.isUnbuffered a then (m.queue (.channel .sender a)).take 1 else []) ++
            (m.queue (.channel .writer a)).take 1 }
  | [] => none

/-- The count of a wait-group changes, and `n` operands are replaced. -/
def adjusting? (m : Machine) (group : Address) (delta : Number) (n : Nat) : Option Effect :=
  let h := m.heap
  let waiting := m.queue (.group group)
  let count := (h.groupCount group).add delta
  if h.tag group ≠ .waitGroup ∨ (Number.zero.less delta = true ∧ waiting ≠ []) ∨
      count.less .zero = true then none
  else some
    { Effect.gives m.registers n (.known Heap.undefined) with
      writes := [(h.word group 1, 1, count.bits.toNat)]
      leave := if count.same .zero then allFrom m [.group group] else oneFrom []
      woken := if count.same .zero then waiting else [] }

/-- What an instruction does. -/
def effectOf? (program : Program) (m : Machine) (i : Instruction) : Option Effect :=
  let r := m.registers
  let h := m.heap
  match i with
  | .constant l => some (.gives r 0 l.product)
  | .load p =>
      match h.lookup r.environment p with
      | .ok a => if a = Heap.unassigned then none else some (.gives r 0 (.known a))
      | .error _ => none
  | .store p =>
      match r.stack, h.slotOf? r.environment p with
      | a :: _, some (frame, i) =>
          some { Effect.moves { r with pc := r.pc + 1 } with writes := [(frame, i, a)] }
      | _, _ => none
  | .closure arity entry =>
      some (.gives r 0 (.new (.node (Heap.closureHeader entry) [.known arity, .known r.environment])))
  | .call n =>
      match r.stack[n]? with
      | some a =>
          match h.tag a with
          | .builtin => m.applying? (h.payload a).toNat n false
          | .closure => if h.word a 1 ≠ n then none else some (m.invoking a n)
          | _ => none
      | none => none
  | .tailCall n =>
      match r.stack[n]? with
      | some a =>
          match h.tag a with
          | .builtin => m.applying? (h.payload a).toNat n true
          | .closure => if h.word a 1 ≠ n then none else some (m.replacing a n)
          | _ => none
      | none => none
  | .ret =>
      (h.returning? r.frames).map fun (pc, environment, frames) =>
        .moves { r with pc, environment, frames }
  | .enterScope n => some (m.entering n)
  | .exitScope =>
      (h.closing? 1 r.environment r.frames).map fun (environment, frames) =>
        .moves { r with pc := r.pc + 1, environment, frames }
  | .pop =>
      match r.stack with
      | _ :: stack => some (.moves { r with stack, pc := r.pc + 1 })
      | [] => none
  | .unary op => do
      let a ← r.stack[0]?
      let x ← h.unaryProduct? op a
      return .gives r 1 x
  | .binary op => do
      let right ← r.stack[0]?
      let left ← r.stack[1]?
      let x ← h.binaryProduct? op left right
      return .gives r 2 x
  | .jumpUnless target =>
      match r.stack with
      | a :: stack =>
          (h.bool? a).map fun b => .moves { r with stack, pc := if b then r.pc + 1 else target }
      | [] => none
  | .jump target => some (.moves { r with pc := target })
  | .loopEnd _ => some (.moves { r with pc := r.pc + 1 })
  | .breakLoop | .continueLoop =>
      match program.loopEndAfter r.pc with
      | .found exit =>
          (h.closing? exit.closed r.environment r.frames).map fun (environment, frames) =>
            .moves { r with
              pc := if i = .breakLoop then exit.marker + 1 else exit.next, environment, frames }
      | .outside => none
      | .unfinished => some { Effect.moves r with progress := .spinning }
  | .spawn n =>
      if r.stack.length < n + 1 then none
      else some
        { Effect.moves { r with stack := Heap.undefined :: r.stack.drop (n + 1), pc := r.pc + 3 } with
          started := some ⟨r.stack.take (n + 1), r.pc + 1, r.environment, []⟩ }
  | .endThread => some { Effect.moves r with progress := .exited }
  | .newChannel capacity =>
      if maxCapacity < capacity then none
      else some (.gives r 0 (.new (.node (Heap.channelHeader capacity)
        ((Heap.emptyRing (max capacity 1)).map .known))))
  | .send => m.sending?
  | .receive => m.receiving?
  | .newWaitGroup =>
      some
        { made := [.number .zero, .node (.fresh .waitGroup 2) [.made 0]]
          registers := r.giving 0 (.made 1) }
  | .groupAdd => do
      let a ← r.stack[0]?
      let group ← r.stack[1]?
      let delta ← h.number? a
      m.adjusting? group delta 2
  | .groupDone => do
      let group ← r.stack[0]?
      m.adjusting? group .minusOne 1
  | .groupWait => do
      let group ← r.stack[0]?
      if h.tag group ≠ .waitGroup then none
      else if Number.zero.less (h.groupCount group) then return .waits r (.group group)
      else return .gives r 1 (.known Heap.undefined)
  | .halt => some { Effect.moves r with progress := .finished (r.stack.head?.getD Heap.undefined) }

/-- What the next instruction does, if it does not fail. -/
def effect? (program : Program) (m : Machine) : Option Effect :=
  m.effectOf? program ((program.at? m.registers.pc).getD .halt)

end Machine

/-! ## Machines before and after -/

namespace Machine

/-- All that an effect uses is live. -/
structure Draws (m : Machine) (e : Effect) : Prop extends m.heap.Affords m.roots e.toChange where
  /-- The registers that the thread goes on with. -/
  registers : ∀ x ∈ e.registers.refs, m.heap.Stands m.roots e.made.length x
  /-- The registers of the thread that is started. -/
  started : ∀ r, e.started = some r → ∀ a ∈ r.roots, m.heap.Live m.roots a

/-- A machine before and after an effect, where the new nodes are at these addresses. -/
structure Realizes (m k : Machine) (e : Effect) (f : Nat → Address) : Prop extends Draws m e where
  /-- The heap. -/
  heap : m.heap.Undergoes k.heap m.roots e.toChange f
  /-- The registers. -/
  outline : k.registers = e.registers.placed f
  /-- The running thread. -/
  current : k.current = m.current
  /-- The other threads. -/
  threads : k.threads = match e.started with
    | some r => m.threads.insert m.nextThread r
    | none => m.threads
  /-- The number of the next thread. -/
  nextThread : k.nextThread = m.nextThread + e.started.toList.length
  /-- The queues of what was live. -/
  queue : ∀ p : Place, m.heap.Live m.roots p.address → k.queue p =
    (m.queue p).drop (e.leave p) ++ if e.joins = some p then [m.current] else []
  /-- The queues of a new channel or wait-group. -/
  newQueue : ∀ i header words, e.made[i]? = some (.node header words) →
    (header.tag = .channel → ∀ side, k.queue (.channel side (f i)) = []) ∧
      (header.tag = .waitGroup → k.queue (.group (f i)) = [])
  /-- The threads that were started or woken. -/
  runnable : k.runnable = m.runnable ++ e.woken ++ e.started.toList.map fun _ => m.nextThread
  /-- The builtins. -/
  builtins : k.builtins = m.builtins
  /-- What has been printed. -/
  output : k.output = m.output ++ e.printed
  /-- Whether channels are typed. -/
  typedChannels : k.typedChannels = m.typedChannels

/-- An action has an effect if it does not fail. -/
def Performs (x : Action Progress) (m : Machine) (e? : Option Effect) : Prop :=
  Ensures x m (fun p k => ∃ e f, e? = some e ∧ e.progress = p ∧ Realizes m k e f) fun _ _ => True

end Machine

end ChannelMachine

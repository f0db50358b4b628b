import ChannelMachine.Proofs.Machine.Effects

/-!
# The effects that there are

`Machine.HasEffect` lists the effects of each instruction, with what was read of the machine for
them.  An effect that was computed is in the list (`hasEffect_of_effectOf?`).  What holds of all
effects is proved by cases on the list, so no such proof looks at how an effect is computed.
-/

namespace ChannelMachine.Machine

/-- What an instruction does, where it does not fail. -/
inductive HasEffect (program : Program) (m : Machine) : Instruction → Effect → Prop where
  | constant (l : Literal) : HasEffect program m (.constant l) (.gives m.registers 0 l.product)
  | load {p : Position} {a : Address} (lookup : m.heap.lookup m.registers.environment p = .ok a) :
    HasEffect program m (.load p) (.gives m.registers 0 (.known a))
  | store {p : Position} {a frame : Address} {i : Nat} {rest : List Address}
      (stack : m.registers.stack = a :: rest)
      (slot : m.heap.slotOf? m.registers.environment p = some (frame, i)) :
    HasEffect program m (.store p)
      { Effect.moves { m.registers with pc := m.registers.pc + 1 } with writes := [(frame, i, a)] }
  | closure (arity entry : Nat) :
    HasEffect program m (.closure arity entry) (.gives m.registers 0
      (.new (.node (Heap.closureHeader entry) [.known arity, .known m.registers.environment])))
  | invokes {n : Nat} {a : Address} (operand : m.registers.stack[n]? = some a)
      (tag : m.heap.tag a = .closure) : HasEffect program m (.call n) (m.invoking a n)
  | replaces {n : Nat} {a : Address} (operand : m.registers.stack[n]? = some a)
      (tag : m.heap.tag a = .closure) : HasEffect program m (.tailCall n) (m.replacing a n)
  | applies {n : Nat} {a : Address} {entry : BuiltinEntry} {x : Product} {printed : String}
      (operand : m.registers.stack[n]? = some a) (tag : m.heap.tag a = .builtin)
      (slot : m.builtins[(m.heap.payload a).toNat]? = some entry)
      (product : m.heap.builtinProduct? entry.action (m.registers.stack.take n).reverse =
        some (x, printed)) :
    HasEffect program m (.call n) { Effect.gives m.registers (n + 1) x with printed }
  /-- A builtin in place of the running function, which returns. -/
  | answers {n pc : Nat} {a environment : Address} {frames : List Address} {entry : BuiltinEntry}
      {x : Product} {printed : String}
      (operand : m.registers.stack[n]? = some a) (tag : m.heap.tag a = .builtin)
      (slot : m.builtins[(m.heap.payload a).toNat]? = some entry)
      (product : m.heap.builtinProduct? entry.action (m.registers.stack.take n).reverse =
        some (x, printed))
      (returning : m.heap.returning? m.registers.frames = some (pc, environment, frames)) :
    HasEffect program m (.tailCall n)
      { Effect.gives m.registers (n + 1) x with
        printed
        registers := ⟨x.ref :: (m.registers.stack.drop (n + 1)).map .known, pc, .known environment,
          frames.map .known⟩ }
  | ret {pc : Nat} {environment : Address} {frames : List Address}
      (returning : m.heap.returning? m.registers.frames = some (pc, environment, frames)) :
    HasEffect program m .ret (.moves { m.registers with pc, environment, frames })
  | enterScope (slots : Nat) : HasEffect program m (.enterScope slots) (m.entering slots)
  | exitScope {environment : Address} {frames : List Address}
      (closing : m.heap.closing? 1 m.registers.environment m.registers.frames =
        some (environment, frames)) :
    HasEffect program m .exitScope
      (.moves { m.registers with pc := m.registers.pc + 1, environment, frames })
  | pop {a : Address} {rest : List Address} (stack : m.registers.stack = a :: rest) :
    HasEffect program m .pop (.moves { m.registers with stack := rest, pc := m.registers.pc + 1 })
  | unary {op : UnaryOp} {a : Address} {x : Product} (product : m.heap.unaryProduct? op a = some x) :
    HasEffect program m (.unary op) (.gives m.registers 1 x)
  | binary {op : BinaryOp} {left right : Address} {x : Product}
      (product : m.heap.binaryProduct? op left right = some x) :
    HasEffect program m (.binary op) (.gives m.registers 2 x)
  | jumpUnless {target : Nat} {a : Address} {rest : List Address} {b : Bool}
      (stack : m.registers.stack = a :: rest) (bool : m.heap.bool? a = some b) :
    HasEffect program m (.jumpUnless target)
      (.moves { m.registers with stack := rest, pc := if b then m.registers.pc + 1 else target })
  | jump (target : Nat) : HasEffect program m (.jump target) (.moves { m.registers with pc := target })
  | loopEnd (next : Nat) :
    HasEffect program m (.loopEnd next) (.moves { m.registers with pc := m.registers.pc + 1 })
  | breaks {exit : LoopExit} {environment : Address} {frames : List Address}
      (search : program.loopEndAfter m.registers.pc = .found exit)
      (closing : m.heap.closing? exit.closed m.registers.environment m.registers.frames =
        some (environment, frames)) :
    HasEffect program m .breakLoop
      (.moves { m.registers with pc := exit.marker + 1, environment, frames })
  | continues {exit : LoopExit} {environment : Address} {frames : List Address}
      (search : program.loopEndAfter m.registers.pc = .found exit)
      (closing : m.heap.closing? exit.closed m.registers.environment m.registers.frames =
        some (environment, frames)) :
    HasEffect program m .continueLoop (.moves { m.registers with pc := exit.next, environment, frames })
  /-- The search for the end of the loop runs in a circle. -/
  | breakSpins (search : program.loopEndAfter m.registers.pc = .unfinished) :
    HasEffect program m .breakLoop { Effect.moves m.registers with progress := .spinning }
  | continueSpins (search : program.loopEndAfter m.registers.pc = .unfinished) :
    HasEffect program m .continueLoop { Effect.moves m.registers with progress := .spinning }
  | spawn (n : Nat) :
    HasEffect program m (.spawn n)
      { Effect.moves { m.registers with
          stack := Heap.undefined :: m.registers.stack.drop (n + 1), pc := m.registers.pc + 3 } with
        started := some
          ⟨m.registers.stack.take (n + 1), m.registers.pc + 1, m.registers.environment, []⟩ }
  | endThread : HasEffect program m .endThread { Effect.moves m.registers with progress := .exited }
  | newChannel (capacity : Nat) :
    HasEffect program m (.newChannel capacity) (.gives m.registers 0 (.new
      (.node (Heap.channelHeader capacity) ((Heap.emptyRing (max capacity 1)).map .known))))
  | sendWaits {value a : Address} {rest : List Address} {kind : Option (Address × Tag)}
      (stack : m.registers.stack = value :: a :: rest) (tag : m.heap.tag a = .channel)
      (recording : m.recording? a value = some kind) :
    HasEffect program m .send { Effect.waits m.registers (.channel .writer a) with kind }
  | sends {value a : Address} {rest : List Address} {kind : Option (Address × Tag)}
      (stack : m.registers.stack = value :: a :: rest) (tag : m.heap.tag a = .channel)
      (recording : m.recording? a value = some kind) :
    HasEffect program m .send { Effect.gives m.registers 2 (.known Heap.undefined) with
      writes := [(a, ringStart + m.heap.writeSlot a, value),
        (a, 2, (m.heap.writeSlot a + 1) % m.heap.channelSlots a)]
      kind
      leave := oneFrom [.channel .reader a]
      woken := (m.queue (.channel .reader a)).take 1
      progress := if m.heap.isUnbuffered a then .blocked else .advanced
      joins := if m.heap.isUnbuffered a then some (.channel .sender a) else none }
  | receiveWaits {a : Address} {rest : List Address} (stack : m.registers.stack = a :: rest)
      (tag : m.heap.tag a = .channel) :
    HasEffect program m .receive (.waits m.registers (.channel .reader a))
  | receives {a : Address} {rest : List Address} (stack : m.registers.stack = a :: rest)
      (tag : m.heap.tag a = .channel) :
    HasEffect program m .receive { Effect.gives m.registers 1 (.known (m.heap.channelFront a)) with
      writes := [(a, ringStart + m.heap.readSlot a, vacant),
        (a, 3, (m.heap.readSlot a + 1) % m.heap.channelSlots a)]
      leave := oneFrom (if m.heap.isUnbuffered a then [.channel .sender a, .channel .writer a]
        else [.channel .writer a])
      woken := (if m.heap.isUnbuffered a then (m.queue (.channel .sender a)).take 1 else []) ++
        (m.queue (.channel .writer a)).take 1 }
  | newWaitGroup :
    HasEffect program m .newWaitGroup
      { made := [.number .zero, .node (.fresh .waitGroup 2) [.made 0]]
        registers := m.registers.giving 0 (.made 1) }
  | adds {group : Address} {delta : Number} {e : Effect} (operand : m.registers.stack[1]? = some group)
      (adjusting : m.adjusting? group delta 2 = some e) : HasEffect program m .groupAdd e
  | finishes {group : Address} {e : Effect} (operand : m.registers.stack[0]? = some group)
      (adjusting : m.adjusting? group .minusOne 1 = some e) : HasEffect program m .groupDone e
  | awaits {group : Address} (operand : m.registers.stack[0]? = some group)
      (tag : m.heap.tag group = .waitGroup) :
    HasEffect program m .groupWait (.waits m.registers (.group group))
  | passes {group : Address} (operand : m.registers.stack[0]? = some group)
      (tag : m.heap.tag group = .waitGroup) :
    HasEffect program m .groupWait (.gives m.registers 1 (.known Heap.undefined))
  | halt :
    HasEffect program m .halt { Effect.moves m.registers with
      progress := .finished (m.registers.stack.head?.getD Heap.undefined) }

/-! ## What is computed is in the list -/

variable {program : Program} {m : Machine} {i : Instruction} {e : Effect}

theorem hasEffect_of_applying? (tail : Bool) {n : Nat} {a : Address}
    (operand : m.registers.stack[n]? = some a) (tag : m.heap.tag a = .builtin)
    (he : m.applying? (m.heap.payload a).toNat n tail = some e) :
    HasEffect program m (if tail then .tailCall n else .call n) e := by
  obtain ⟨entry, hentry, he⟩ := Option.bind_eq_some_iff.1 he
  dsimp only at he
  split at he
  next => cases he
  next =>
    obtain ⟨⟨x, printed⟩, hx, he⟩ := Option.bind_eq_some_iff.1 he
    cases tail with
    | false => exact Option.some.inj he ▸ .applies operand tag hentry hx
    | true =>
      obtain ⟨⟨pc, environment, frames⟩, hreturning, he⟩ := Option.bind_eq_some_iff.1 he
      exact Option.some.inj he ▸ .answers operand tag hentry hx hreturning

theorem hasEffect_of_sending? (he : m.sending? = some e) : HasEffect program m .send e := by
  unfold sending? at he
  dsimp only at he
  split at he
  next value a rest hstack =>
    split at he
    next => cases he
    next htag =>
      obtain ⟨kind, hkind, rfl⟩ := Option.map_eq_some_iff.1 he
      split
      next => exact .sendWaits hstack (Classical.not_not.1 htag) hkind
      next => exact .sends hstack (Classical.not_not.1 htag) hkind
  next => cases he

theorem hasEffect_of_receiving? (he : m.receiving? = some e) : HasEffect program m .receive e := by
  unfold receiving? at he
  dsimp only at he
  split at he
  next a rest hstack =>
    split at he
    next => cases he
    next htag =>
      split at he
      next => exact Option.some.inj he ▸ .receiveWaits hstack (Classical.not_not.1 htag)
      next => exact Option.some.inj he ▸ .receives hstack (Classical.not_not.1 htag)
  next => cases he

theorem hasEffect_of_effectOf? (he : m.effectOf? program i = some e) : HasEffect program m i e := by
  cases i with
  | constant l => exact Option.some.inj he ▸ .constant l
  | load p =>
    unfold effectOf? at he
    dsimp only at he
    split at he
    next hlookup =>
      split at he
      next => cases he
      next => exact Option.some.inj he ▸ .load hlookup
    next => cases he
  | store p =>
    unfold effectOf? at he
    dsimp only at he
    split at he
    next hstack hslot => exact Option.some.inj he ▸ .store hstack hslot
    next => cases he
  | closure arity entry => exact Option.some.inj he ▸ .closure arity entry
  | call n =>
    unfold effectOf? at he
    dsimp only at he
    split at he
    next ha =>
      split at he
      next htag => exact hasEffect_of_applying? false ha htag he
      next htag =>
        split at he
        next => cases he
        next => exact Option.some.inj he ▸ .invokes ha htag
      next => cases he
    next => cases he
  | tailCall n =>
    unfold effectOf? at he
    dsimp only at he
    split at he
    next ha =>
      split at he
      next htag => exact hasEffect_of_applying? true ha htag he
      next htag =>
        split at he
        next => cases he
        next => exact Option.some.inj he ▸ .replaces ha htag
      next => cases he
    next => cases he
  | ret =>
    obtain ⟨⟨pc, environment, frames⟩, hreturning, rfl⟩ := Option.map_eq_some_iff.1 he
    exact .ret hreturning
  | enterScope slots => exact Option.some.inj he ▸ .enterScope slots
  | exitScope =>
    obtain ⟨⟨environment, frames⟩, hclosing, rfl⟩ := Option.map_eq_some_iff.1 he
    exact .exitScope hclosing
  | pop =>
    unfold effectOf? at he
    dsimp only at he
    split at he
    next hstack => exact Option.some.inj he ▸ .pop hstack
    next => cases he
  | unary op =>
    obtain ⟨a, -, he⟩ := Option.bind_eq_some_iff.1 he
    obtain ⟨x, hx, he⟩ := Option.bind_eq_some_iff.1 he
    exact Option.some.inj he ▸ .unary hx
  | binary op =>
    obtain ⟨right, -, he⟩ := Option.bind_eq_some_iff.1 he
    obtain ⟨left, -, he⟩ := Option.bind_eq_some_iff.1 he
    obtain ⟨x, hx, he⟩ := Option.bind_eq_some_iff.1 he
    exact Option.some.inj he ▸ .binary hx
  | jumpUnless target =>
    unfold effectOf? at he
    dsimp only at he
    split at he
    next hstack =>
      obtain ⟨b, hb, rfl⟩ := Option.map_eq_some_iff.1 he
      exact .jumpUnless hstack hb
    next => cases he
  | jump target => exact Option.some.inj he ▸ .jump target
  | loopEnd next => exact Option.some.inj he ▸ .loopEnd next
  | breakLoop =>
    unfold effectOf? at he
    dsimp only at he
    split at he
    next hsearch =>
      obtain ⟨⟨environment, frames⟩, hclosing, rfl⟩ := Option.map_eq_some_iff.1 he
      exact .breaks hsearch hclosing
    next => cases he
    next hsearch => exact Option.some.inj he ▸ .breakSpins hsearch
  | continueLoop =>
    unfold effectOf? at he
    dsimp only at he
    split at he
    next hsearch =>
      obtain ⟨⟨environment, frames⟩, hclosing, rfl⟩ := Option.map_eq_some_iff.1 he
      exact .continues hsearch hclosing
    next => cases he
    next hsearch => exact Option.some.inj he ▸ .continueSpins hsearch
  | spawn n =>
    unfold effectOf? at he
    dsimp only at he
    split at he
    next => cases he
    next => exact Option.some.inj he ▸ .spawn n
  | endThread => exact Option.some.inj he ▸ .endThread
  | newChannel capacity =>
    unfold effectOf? at he
    dsimp only at he
    split at he
    next => cases he
    next => exact Option.some.inj he ▸ .newChannel capacity
  | send => exact hasEffect_of_sending? he
  | receive => exact hasEffect_of_receiving? he
  | newWaitGroup => exact Option.some.inj he ▸ .newWaitGroup
  | groupAdd =>
    obtain ⟨a, -, he⟩ := Option.bind_eq_some_iff.1 he
    obtain ⟨group, hgroup, he⟩ := Option.bind_eq_some_iff.1 he
    obtain ⟨delta, -, he⟩ := Option.bind_eq_some_iff.1 he
    exact .adds hgroup he
  | groupDone =>
    obtain ⟨group, hgroup, he⟩ := Option.bind_eq_some_iff.1 he
    exact .finishes hgroup he
  | groupWait =>
    obtain ⟨group, hgroup, he⟩ := Option.bind_eq_some_iff.1 he
    split at he
    next => cases he
    next htag =>
      split at he
      next => exact Option.some.inj he ▸ .awaits hgroup (Classical.not_not.1 htag)
      next => exact Option.some.inj he ▸ .passes hgroup (Classical.not_not.1 htag)
  | halt => exact Option.some.inj he ▸ .halt

end ChannelMachine.Machine

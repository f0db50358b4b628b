import ChannelMachine.Proofs.Machine.Sparing
import ChannelMachine.Proofs.Pairing.Heap

/-!
# What instructions share

An instruction works on one channel, one wait-group and one variable at most, and it may print.  Two
threads are `Independent` if their next instructions have nothing of that in common, where two that only
read a variable may have it in common.

`Handles` is what this means for an effect: it writes nothing but the variable, the channel and the
counter of the wait-group, touches the queues of that channel and that wait-group only, and prints
nothing unless the instruction is one that does.
-/

namespace ChannelMachine

/-! ## New nodes -/

/-- What a new node holds beside its children is known beforehand. -/
def Blueprint.IsDefinite (b : Blueprint) : Prop :=
  ∀ header words, b = .node header words → header.tag ≠ .string ∧
    header.dataEnd ≤ words.length + 1 ∧
      ∀ j r, j + 1 < header.dataEnd → words[j]? = some r → ∃ w, r = .known w

namespace Blueprint

/-- All words are known. -/
theorem definite_known {header : Header} (words : List Nat) (htag : header.tag ≠ .string)
    (hend : header.dataEnd ≤ words.length + 1) : (node header (words.map .known)).IsDefinite := by
  intro _ _ heq
  obtain ⟨rfl, rfl⟩ := Blueprint.node.inj heq
  refine ⟨htag, by rw [List.length_map]; exact hend, fun j r _ hr => ?_⟩
  obtain ⟨w, -, rfl⟩ := List.mem_map.1 (List.mem_of_getElem? hr)
  exact ⟨w, rfl⟩

/-- There are only children. -/
theorem definite_children {header : Header} {words : List Ref} (htag : header.tag ≠ .string)
    (hend : header.dataEnd = 0) : (node header words).IsDefinite := by
  intro _ _ heq
  obtain ⟨rfl, rfl⟩ := Blueprint.node.inj heq
  rw [hend]
  exact ⟨htag, Nat.zero_le _, fun _ _ hlt => absurd hlt (Nat.not_lt_zero _)⟩

theorem definite_number (x : Number) : (number x).IsDefinite :=
  definite_known [x.bits.toNat] Tag.noConfusion (Nat.le_refl 2)

theorem IsScalar.definite {b : Blueprint} (hb : b.IsScalar) : b.IsDefinite := by
  rcases hb with ⟨x, rfl⟩ | ⟨s, rfl⟩
  · exact definite_number x
  · intro _ _ heq
    cases heq

theorem definite_frame (values : List Nat) : (frame values).IsDefinite :=
  definite_children Tag.noConfusion rfl

theorem definite_inside (h : Heap) (environment : Address) (i : Nat) :
    (inside h environment i).IsDefinite := definite_children Tag.noConfusion rfl

theorem definite_back {header : Header} (htag : header.tag = .blockframe ∨ header.tag = .callframe)
    (environment : Address) : (back header environment).IsDefinite := by
  rcases htag with htag | htag
  all_goals
    refine definite_children (by rw [htag]; decide) ?_
    rw [Header.dataEnd, htag]

end Blueprint

namespace Machine

variable {program : Program} {m k : Machine} {i : Instruction} {e : Effect}

/-! ## What an instruction works on -/

/-- The next instruction of the running thread.  Past the end of the program the run ends. -/
def instruction (program : Program) (m : Machine) : Instruction :=
  (program.at? m.registers.pc).getD .halt

/-- The builtin that a call with `n` arguments runs. -/
def builtin? (m : Machine) (n : Nat) : Option Builtin :=
  match m.registers.stack[n]? with
  | some a =>
      if m.heap.tag a = .builtin then
        m.builtins[(m.heap.payload a).toNat]?.map (·.action)
      else none
  | none => none

/-- The channel that an instruction works on.  To ask for its length is to work on it. -/
def channel? (m : Machine) : Instruction → Option Address
  | .send => m.registers.stack[1]?
  | .receive => m.registers.stack[0]?
  | .call n | .tailCall n =>
      if m.builtin? n = some .len then
        (m.registers.stack.take n).reverse.head?.filter fun a => m.heap.tag a = .channel
      else none
  | _ => none

/-- The wait-group that an instruction works on. -/
def group? (m : Machine) : Instruction → Option Address
  | .groupAdd => m.registers.stack[1]?
  | .groupDone | .groupWait => m.registers.stack[0]?
  | _ => none

/-- The variable that an instruction reads or assigns: its frame and its word there. -/
def slot? (m : Machine) : Instruction → Option (Address × Nat)
  | .load p | .store p => m.heap.slotOf? m.registers.environment p
  | _ => none

/-- Whether an instruction assigns its variable. -/
def assigns : Instruction → Bool
  | .store _ => true
  | _ => false

/-- Whether an instruction prints. -/
def prints (m : Machine) : Instruction → Bool
  | .call n | .tailCall n => m.builtin? n = some .print ∨ m.builtin? n = some .println
  | _ => false

/-- The next instructions of two threads, each about to run, have nothing in common that one of them
changes. -/
structure Independent (program : Program) (m k : Machine) : Prop where
  /-- They work on different channels. -/
  channel : ∀ a, m.channel? (m.instruction program) = some a →
    k.channel? (k.instruction program) ≠ some a
  /-- They work on different wait-groups. -/
  group : ∀ g, m.group? (m.instruction program) = some g → k.group? (k.instruction program) ≠ some g
  /-- They work on different variables, or both of them only read. -/
  slot : ∀ v, m.slot? (m.instruction program) = some v →
    k.slot? (k.instruction program) = some v →
      assigns (m.instruction program) = false ∧ assigns (k.instruction program) = false
  /-- At most one of them prints. -/
  output : m.prints (m.instruction program) = true → k.prints (k.instruction program) = false

/-- The order of the threads does not matter. -/
theorem Independent.symm (independent : Independent program m k) : Independent program k m where
  channel := fun a ha hb => independent.channel a hb ha
  group := fun a ha hb => independent.group a hb ha
  slot := fun v hv hw => (independent.slot v hw hv).symm
  output := by
    intro hk
    by_contra hm
    rw [Bool.not_eq_false] at hm
    exact Bool.noConfusion (hk.symm.trans (independent.output hm))

/-- A place at which an instruction may let threads wait or wake them. -/
def WorksAt (m : Machine) (i : Instruction) : Place → Prop
  | .channel _ a => m.channel? i = some a ∧ m.heap.tag a = .channel
  | .group g => m.group? i = some g ∧ m.heap.tag g = .waitGroup

/-- A word that an instruction may write. -/
inductive WorksOn (m : Machine) (i : Instruction) : Address → Nat → Prop where
  /-- The variable that is assigned. -/
  | slot {a j : Nat} (hassigns : assigns i = true) (slot : m.slot? i = some (a, j))
      (tag : m.heap.tag a = .frame) : WorksOn m i a j
  /-- A word of the channel. -/
  | channel {a j : Nat} (channel : m.channel? i = some a) (tag : m.heap.tag a = .channel) :
      WorksOn m i a j
  /-- The counter of the wait-group. -/
  | counter {g : Nat} (group : m.group? i = some g) (tag : m.heap.tag g = .waitGroup) :
      WorksOn m i (m.heap.word g 1) 1

/-- An effect changes nothing but what the instruction works on. -/
structure Handles (m : Machine) (i : Instruction) (e : Effect) : Prop where
  /-- The nodes that are made. -/
  made : ∀ b ∈ e.made, b.IsDefinite
  /-- The words that are written. -/
  writes : ∀ a j w, (a, j, w) ∈ e.writes → m.WorksOn i a j
  /-- The channel whose kind of elements is recorded. -/
  kind : ∀ a t, e.kind = some (a, t) → m.channel? i = some a ∧ m.heap.tag a = .channel
  /-- The queues that threads leave. -/
  leave : ∀ p, e.leave p ≠ 0 → m.WorksAt i p
  /-- The queue that the thread joins. -/
  joins : ∀ p, e.joins = some p → m.WorksAt i p
  /-- The threads that are woken waited. -/
  woken : ∀ t ∈ e.woken, ∃ p, m.WorksAt i p ∧ t ∈ m.queue p
  /-- What is printed. -/
  printed : e.printed ≠ "" → m.prints i = true

/-! ## Kinds of effects -/

/-- An effect that writes nothing and touches no queue. -/
theorem handles_still {made : List Blueprint} (hmade : ∀ b ∈ made, b.IsDefinite)
    (hchange : e.toChange = { made }) (hleave : e.leave = oneFrom []) (hwoken : e.woken = [])
    (hjoins : e.joins = none) (hprinted : e.printed ≠ "" → m.prints i = true) : Handles m i e where
  made := by
    rw [hchange]
    exact hmade
  writes := by
    rw [hchange]
    exact fun _ _ _ hw => absurd hw List.not_mem_nil
  kind := by
    rw [hchange]
    exact fun _ _ hk => by cases hk
  leave := by
    rw [hleave]
    exact fun p hp => absurd (if_neg List.not_mem_nil) hp
  joins := by
    rw [hjoins]
    exact fun _ hp => by cases hp
  woken := by
    rw [hwoken]
    exact fun _ ht => absurd ht List.not_mem_nil
  printed := hprinted

/-- Only the registers change. -/
theorem handles_moves (r : Registers) (progress : Progress) (started : Option Registers) :
    Handles m i { Effect.moves r with progress, started } := by
  have hmade : ∀ b ∈ ([] : List Blueprint), b.IsDefinite := fun _ hb => absurd hb List.not_mem_nil
  exact handles_still hmade rfl rfl rfl rfl fun h => absurd rfl h

/-- A value replaces operands. -/
theorem handles_gives {r : Registers} {n : Nat} {x : Product} (hx : ∀ b ∈ x.made, b.IsDefinite) :
    Handles m i (Effect.gives r n x) :=
  handles_still hx rfl rfl rfl rfl fun h => absurd rfl h

theorem handles_known (r : Registers) (n : Nat) (a : Address) :
    Handles m i (Effect.gives r n (.known a)) :=
  handles_gives fun _ hb => absurd hb List.not_mem_nil

theorem handles_new {r : Registers} {n : Nat} {b : Blueprint} (hb : b.IsDefinite) :
    Handles m i (Effect.gives r n (.new b)) :=
  handles_gives fun _ hmem => List.mem_singleton.1 hmem ▸ hb

/-- The thread waits. -/
theorem handles_waits {r : Registers} {p : Place} (hp : m.WorksAt i p) :
    Handles m i (.waits r p) where
  made := fun _ hb => absurd hb List.not_mem_nil
  writes := fun _ _ _ hw => absurd hw List.not_mem_nil
  kind := fun _ _ hk => by cases hk
  leave := fun q hq => absurd (if_neg List.not_mem_nil) (show oneFrom [] q ≠ 0 from hq)
  joins := fun q hq => Option.some.inj hq ▸ hp
  woken := fun _ ht => absurd ht List.not_mem_nil
  printed := fun h => absurd rfl h

/-- Only `print` and `println` print. -/
theorem prints_of_builtin {h : Heap} {b : Builtin} {as : List Address} {x : Product} {printed : String}
    (hx : h.builtinProduct? b as = some (x, printed)) (hprinted : printed ≠ "") :
    b = .print ∨ b = .println := by
  have hnone : ∀ {α : Type} {o : Option α} {g : α → Product},
      o.map (fun y => (g y, "")) = some (x, printed) → b = .print ∨ b = .println := by
    intro α o g heq
    obtain ⟨y, -, heq⟩ := Option.map_eq_some_iff.1 heq
    exact absurd (Prod.mk.inj heq).2.symm hprinted
  unfold Heap.builtinProduct? at hx
  split at hx
  next => exact .inl rfl
  next => exact .inr rfl
  next => exact hnone hx
  next => exact hnone hx
  next => exact hnone hx
  next => exact hnone hx
  next => exact absurd (Prod.mk.inj (Option.some.inj hx)).2.symm hprinted
  next => cases hx

/-- What the call of a builtin prints. -/
theorem prints_of_product {n : Nat} {a : Address} {entry : BuiltinEntry} {x : Product}
    {printed : String} (ha : m.registers.stack[n]? = some a) (htag : m.heap.tag a = .builtin)
    (hentry : m.builtins[(m.heap.payload a).toNat]? = some entry)
    (hx : m.heap.builtinProduct? entry.action (m.registers.stack.take n).reverse = some (x, printed))
    (hi : i = .call n ∨ i = .tailCall n) (hprinted : printed ≠ "") : m.prints i = true := by
  have hbuiltin : m.builtin? n = some entry.action := by
    rw [builtin?, ha]
    dsimp only
    rw [if_pos htag, hentry]
    rfl
  rcases hi with rfl | rfl
  all_goals
    rw [prints, hbuiltin, decide_eq_true_eq]
    exact (prints_of_builtin hx hprinted).imp (congrArg some) (congrArg some)

section Channels

variable {a value : Address} {rest : List Address} {kind : Option (Address × Tag)}

theorem channel?_send (hstack : m.registers.stack = value :: a :: rest) : m.channel? .send = some a := by
  rw [channel?, hstack]
  rfl

theorem channel?_receive (hstack : m.registers.stack = a :: rest) : m.channel? .receive = some a := by
  rw [channel?, hstack]
  rfl

/-- What is recorded is recorded for the channel. -/
theorem worksOn_recording (ha : m.channel? i = some a) (htag : m.heap.tag a = .channel)
    (hkind : m.recording? a value = some kind) :
    ∀ b t, kind = some (b, t) → m.channel? i = some b ∧ m.heap.tag b = .channel := by
  rintro b t rfl
  exact channel_of_recording hkind ▸ ⟨ha, htag⟩

/-- Two words of the channel are written. -/
theorem worksOn_pair (ha : m.channel? i = some a) (htag : m.heap.tag a = .channel)
    {w w' : Nat × Nat} {b j v : Nat} (hw : (b, j, v) ∈ [(a, w), (a, w')]) : m.WorksOn i b j := by
  obtain rfl : b = a := by
    rcases List.mem_cons.1 hw with hw | hw
    · exact (Prod.mk.inj hw).1
    · exact (Prod.mk.inj (List.mem_singleton.1 hw)).1
  exact .channel ha htag

/-- A send works on its channel. -/
theorem handles_sends (ha : m.channel? i = some a) (htag : m.heap.tag a = .channel)
    (hkind : m.recording? a value = some kind) :
    Handles m i { Effect.gives m.registers 2 (.known Heap.undefined) with
      writes := [(a, ringStart + m.heap.writeSlot a, value),
        (a, 2, (m.heap.writeSlot a + 1) % m.heap.channelSlots a)]
      kind
      leave := oneFrom [.channel .reader a]
      woken := (m.queue (.channel .reader a)).take 1
      progress := if m.heap.isUnbuffered a then .blocked else .advanced
      joins := if m.heap.isUnbuffered a then some (.channel .sender a) else none } where
  made := fun _ hb => absurd hb List.not_mem_nil
  writes := fun _ _ _ hw => worksOn_pair ha htag hw
  kind := worksOn_recording ha htag hkind
  leave := by
    intro p hp
    obtain rfl : p = .channel .reader a := by
      by_contra hne
      exact hp (if_neg fun hmem => hne (List.mem_singleton.1 hmem))
    exact ⟨ha, htag⟩
  joins := by
    intro p hp
    dsimp only at hp
    split at hp
    next => exact Option.some.inj hp ▸ ⟨ha, htag⟩
    next => cases hp
  woken := fun _ ht => ⟨.channel .reader a, ⟨ha, htag⟩, List.mem_of_mem_take ht⟩
  printed := fun h => absurd rfl h

/-- A receive works on its channel. -/
theorem handles_receives (ha : m.channel? i = some a) (htag : m.heap.tag a = .channel) :
    Handles m i { Effect.gives m.registers 1 (.known (m.heap.channelFront a)) with
      writes := [(a, ringStart + m.heap.readSlot a, vacant),
        (a, 3, (m.heap.readSlot a + 1) % m.heap.channelSlots a)]
      leave := oneFrom (if m.heap.isUnbuffered a then [.channel .sender a, .channel .writer a]
        else [.channel .writer a])
      woken := (if m.heap.isUnbuffered a then (m.queue (.channel .sender a)).take 1 else []) ++
        (m.queue (.channel .writer a)).take 1 } where
  made := fun _ hb => absurd hb List.not_mem_nil
  writes := fun _ _ _ hw => worksOn_pair ha htag hw
  kind := nofun
  leave := by
    intro p hp
    have hmem : p ∈ if m.heap.isUnbuffered a then [Place.channel .sender a, .channel .writer a]
        else [.channel .writer a] := by
      by_contra hnot
      exact hp (if_neg hnot)
    split at hmem
    next =>
      rcases List.mem_cons.1 hmem with rfl | hmem
      · exact ⟨ha, htag⟩
      · exact List.mem_singleton.1 hmem ▸ ⟨ha, htag⟩
    next => exact List.mem_singleton.1 hmem ▸ ⟨ha, htag⟩
  joins := nofun
  woken := by
    intro t ht
    rcases List.mem_append.1 ht with ht | ht
    · split at ht
      next => exact ⟨.channel .sender a, ⟨ha, htag⟩, List.mem_of_mem_take ht⟩
      next => cases ht
    · exact ⟨.channel .writer a, ⟨ha, htag⟩, List.mem_of_mem_take ht⟩
  printed := fun h => absurd rfl h

end Channels

/-- To count works on the wait-group. -/
theorem handles_adjusting {g : Address} {delta : Number} {n : Nat} (hg : m.group? i = some g)
    (he : m.adjusting? g delta n = some e) : Handles m i e := by
  unfold adjusting? at he
  dsimp only at he
  split at he
  next => cases he
  next hnot =>
    obtain rfl := Option.some.inj he
    have htag : m.heap.tag g = .waitGroup := of_not_not (not_or.1 hnot).1
    have hplace : m.WorksAt i (.group g) := ⟨hg, htag⟩
    refine {
      made := fun _ hb => absurd hb List.not_mem_nil
      writes := fun a j w hw => ?_
      kind := fun _ _ hk => by cases hk
      leave := fun p hp => ?_
      joins := fun p hp => by cases hp
      woken := fun t ht => ?_
      printed := fun h => absurd rfl h }
    · obtain ⟨rfl, hrest⟩ := Prod.mk.inj (List.mem_singleton.1 hw)
      obtain ⟨rfl, -⟩ := Prod.mk.inj hrest
      exact .counter hg htag
    · obtain rfl : p = .group g := by
        by_contra hne
        refine hp ?_
        dsimp only
        split
        · exact if_neg fun hmem => hne (List.mem_singleton.1 hmem)
        · exact if_neg List.not_mem_nil
      exact hplace
    · dsimp only at ht
      split at ht
      next => exact ⟨_, hplace, ht⟩
      next => cases ht

/-! ## Instructions -/

/-- No instruction changes anything but what it works on. -/
theorem Sound.handles (hm : m.Sound) (he : m.effectOf? program i = some e) : Handles m i e := by
  cases hasEffect_of_effectOf? he with
  | constant l => exact handles_gives fun b hb => (l.scalar_product b hb).definite
  | load | passes => exact handles_known _ _ _
  | @store p _ _ _ _ _ slot =>
    obtain ⟨-, htag, -⟩ :=
      hm.heap.live_slotOf? hm.inUse_root Sound.live_environment hm.registers.tag slot
    have moves := handles_moves (m := m) (i := .store p)
      { m.registers with pc := m.registers.pc + 1 } .advanced none
    refine ⟨moves.made, fun b j w hw => ?_, moves.kind, moves.leave, moves.joins, moves.woken,
      moves.printed⟩
    obtain ⟨rfl, hrest⟩ := Prod.mk.inj (List.mem_singleton.1 hw)
    obtain ⟨rfl, -⟩ := Prod.mk.inj hrest
    exact .slot rfl slot htag
  | closure arity entry =>
    exact handles_new (Blueprint.definite_known [arity, m.registers.environment] Tag.noConfusion
      (Nat.le_succ 2))
  | applies operand tag entry product =>
    exact handles_still (fun b hb => (Heap.scalar_builtin product b hb).definite) rfl rfl rfl rfl
      (prints_of_product operand tag entry product (.inl rfl))
  | answers operand tag entry product =>
    exact handles_still (fun b hb => (Heap.scalar_builtin product b hb).definite) rfl rfl rfl rfl
      (prints_of_product operand tag entry product (.inr rfl))
  | invokes =>
    refine handles_still (fun b hb => ?_) rfl rfl rfl rfl fun h => absurd rfl h
    rcases List.mem_cons.1 hb with rfl | hb
    · exact Blueprint.definite_back (.inr rfl) _
    · rcases List.mem_cons.1 hb with rfl | hb
      · exact Blueprint.definite_frame _
      · exact List.mem_singleton.1 hb ▸ Blueprint.definite_inside _ _ _
  | replaces =>
    refine handles_still (fun b hb => ?_) rfl rfl rfl rfl fun h => absurd rfl h
    rcases List.mem_cons.1 hb with rfl | hb
    · exact Blueprint.definite_frame _
    · exact List.mem_singleton.1 hb ▸ Blueprint.definite_inside _ _ _
  | enterScope slots =>
    refine handles_still (fun b hb => ?_) rfl rfl rfl rfl fun h => absurd rfl h
    rcases List.mem_cons.1 hb with rfl | hb
    · exact Blueprint.definite_back (.inl rfl) _
    · rcases List.mem_cons.1 hb with rfl | hb
      · exact Blueprint.definite_frame _
      · exact List.mem_singleton.1 hb ▸ Blueprint.definite_inside _ _ _
  | ret | exitScope | pop | jumpUnless | jump | loopEnd | breaks | continues =>
    exact handles_moves _ .advanced none
  | unary product => exact handles_gives fun b hb => (Heap.scalar_unary product b hb).definite
  | binary product => exact handles_gives fun b hb => (Heap.scalar_binary product b hb).definite
  | breakSpins | continueSpins | endThread | halt => exact handles_moves _ _ none
  | spawn n => exact handles_moves _ .advanced _
  | newChannel capacity =>
    refine handles_new (Blueprint.definite_known _ Tag.noConfusion ?_)
    change ringStart ≤ (Heap.emptyRing (max capacity 1)).length + 1
    simp [Heap.emptyRing, ringStart]
  | sendWaits stack tag recording =>
    have ha := channel?_send stack
    have waits := handles_waits (r := m.registers) (p := .channel .writer _) ⟨ha, tag⟩
    exact ⟨waits.made, waits.writes, worksOn_recording ha tag recording, waits.leave, waits.joins,
      waits.woken, waits.printed⟩
  | sends stack tag recording => exact handles_sends (channel?_send stack) tag recording
  | receiveWaits stack tag => exact handles_waits ⟨channel?_receive stack, tag⟩
  | receives stack tag => exact handles_receives (channel?_receive stack) tag
  | newWaitGroup =>
    refine handles_still (fun b hb => ?_) rfl rfl rfl rfl fun h => absurd rfl h
    rcases List.mem_cons.1 hb with rfl | hb
    · exact Blueprint.definite_number _
    · exact List.mem_singleton.1 hb ▸ Blueprint.definite_children Tag.noConfusion rfl
  | adds operand adjusting | finishes operand adjusting => exact handles_adjusting operand adjusting
  | awaits operand tag => exact handles_waits ⟨operand, tag⟩

end Machine

end ChannelMachine

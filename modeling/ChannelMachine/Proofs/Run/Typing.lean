import ChannelMachine.Proofs.Machine.Kinds
import ChannelMachine.Proofs.Run.Ledger
import ChannelMachine.Proofs.Run.Mirroring

/-!
# Typed channels

Typed channels are a check and nothing else.  A run that checks the types of elements comes to the same,
with the same output and the same counts, as the run that does not, unless it refuses a value; then it
has printed the beginning of what the other one prints.

All values that a channel accepts in a run with the check have one type.  The first send of another one is
refused and leaves the heap and all queues as they were, and nothing else is refused.
-/

namespace ChannelMachine

namespace Run

/-! ## The types that channels accepted -/

/-- The types of the values that channels accepted in the first `n` steps. -/
def elements (program : Program) (run : Run) : Nat → Elements
  | 0 => fun _ => []
  | n + 1 => (run.elements program n).enter (run.after program n).machine.heap
      ((run.after program n).deal? program)

/-- Each value on an account has a type. -/
theorem length_elements (program : Program) (run : Run) (n : Nat) :
    ∀ a x, run.ledger program n a = some x → (run.elements program n a).length = x.sent.length := by
  induction n with
  | zero => exact nofun
  | succ n ih =>
    intro a x hx
    rw [ledger] at hx
    rw [elements]
    cases hd : (run.after program n).deal? program with
    | none =>
      rw [hd] at hx
      exact ih a x hx
    | some d =>
      rw [hd] at hx
      by_cases ha : d.channel = a
      · subst ha
        cases d with
        | made a capacity =>
          rw [Deal.channel, Elements.enter_made]
          rw [Deal.channel, Ledger.enter, Ledger.set_self] at hx
          cases hx
          rfl
        | sent t a v =>
          rw [Deal.channel, Elements.enter_sent, List.length_append]
          rw [Deal.channel, Ledger.enter, Ledger.set_self, Option.map_eq_some_iff] at hx
          obtain ⟨y, hy, rfl⟩ := hx
          rw [ih a y hy, Account.accept, List.length_append]
          rfl
        | received t a v =>
          rw [Deal.channel, Ledger.enter, Ledger.set_self, Option.map_eq_some_iff] at hx
          obtain ⟨y, hy, rfl⟩ := hx
          exact ih a y hy
      · have hne : ∀ x, some d = some x → x.channel ≠ a := fun x hx => Option.some.inj hx ▸ ha
        rw [Elements.enter_of_ne hne]
        rw [Ledger.enter_of_ne hne] at hx
        exact ih a x hx

/-- A full channel has accepted a value. -/
theorem Fresh.elements_of_full {run : Run} (fresh : run.Fresh) (program : Program) (n : Nat)
    {a : Address} (hin : (run.after program n).machine.heap.InUse a)
    (htag : (run.after program n).machine.heap.tag a = .channel)
    (full : (run.after program n).machine.heap.isFull a = true) :
    run.elements program n a ≠ [] := by
  have booked := fresh.booked program n
  obtain ⟨x, hx, books⟩ := booked.books a hin htag
  have hheld := books.of_full full
  have hle : x.held.length ≤ x.sent.length := by
    rw [Account.held, List.length_drop]
    exact Nat.sub_le ..
  have hpos := x.slots_pos
  have hlength := length_elements program run n a x hx
  intro hnil
  rw [hnil, List.length_nil] at hlength
  omega

/-- Whether types are checked does not change. -/
theorem Fresh.typedChannels {run : Run} (fresh : run.Fresh) (program : Program) (n : Nat)
    (hactive : (run.after program n).Active) :
    (run.after program n).machine.typedChannels = run.machine.typedChannels := by
  induction n with
  | zero => rfl
  | succ n ih =>
    have hbefore := ih hactive.of_next
    cases fresh.moves program n with
    | dispatched _ same => exact same.typedChannels.trans hbefore
    | @stepped m k s left p here sound _ acts turned =>
      obtain ⟨leave, woken, started, joins, shifts, -⟩ := acts.passes sound
      rw [here] at hbefore
      exact (turned.typedChannels.trans shifts.typedChannels).trans hbefore
    | stopped _ ended => exact absurd hactive ended

/-- The records are right at all times. -/
theorem Fresh.typed {run : Run} (fresh : run.Fresh) (htyped : run.machine.typedChannels = true)
    (program : Program) (n : Nat) :
    (run.after program n).machine.Typed (run.elements program n) := by
  induction n with
  | zero =>
    refine ⟨fun a ha htag => ?_, nofun⟩
    have hplain := fresh.plain a ha
    rw [show run.machine.heap.tag a = .channel from htag] at hplain
    cases hplain
  | succ n ih =>
    have hfull := fun a => fresh.elements_of_full program n (a := a)
    rw [elements]
    cases fresh.moves program n with
    | dispatched nothing same =>
      rw [nothing]
      exact ⟨same.heap ▸ ih.kind, ih.uniform⟩
    | @stepped m k s left p here sound _ acts turned =>
      have hon : m.typedChannels = true := by
        have hactive : (run.after program n).Active := by rw [here]; nofun
        have := fresh.typedChannels program n hactive
        rw [here] at this
        exact this.trans htyped
      rw [here] at ih hfull acts ⊢
      have typed := acts.typed sound hon ih hfull
      exact ⟨turned.heap ▸ typed.kind, typed.uniform⟩
    | stopped nothing _ heap =>
      rw [nothing]
      refine ⟨fun a ha htag => ?_, ih.uniform⟩
      obtain ⟨hin, same⟩ := heap a ha (Heap.isMeeting_of_tag htag rfl)
      exact (Heap.elementKind?_congr same.header).trans (ih.kind a hin (same.tag.symm.trans htag))

/-! ## Sends of other types -/

/-- In step `i` a thread is about to send a value to a channel that accepted a value of another
type. -/
structure Clashes (program : Program) (run : Run) (i : Nat) (m : Machine) (a v : Address)
    (expected : Tag) : Prop where
  /-- A thread runs. -/
  here : ∃ s left, run.after program i = running m s left
  /-- It is about to send. -/
  instr : program.at? m.registers.pc = some .send
  /-- The channel and the value. -/
  stack : ∃ rest, m.registers.stack = v :: a :: rest
  /-- It is a channel. -/
  tag : m.heap.tag a = .channel
  /-- It accepted a value. -/
  accepted : expected ∈ run.elements program i a
  /-- It is of another type. -/
  ne : expected ≠ Machine.elementType (m.heap.tag v)

/-- A run that checks types, and does nothing else about them. -/
structure ChecksTypes (program : Program) (run : Run) : Prop where
  /-- All values that a channel accepted have one type. -/
  uniform : ∀ n a, ∀ t ∈ run.elements program n a, ∀ u ∈ run.elements program n a, t = u
  /-- A value of another type is refused, and the heap and the queues stay as they were. -/
  refused : ∀ i m a v expected, run.Clashes program i m a v expected →
    ∃ k, run.after program (i + 1) =
        ended k (.failed (.channelItemType expected (Machine.elementType (m.heap.tag v)))) ∧
      k.heap = m.heap ∧ ∀ p, k.queue p = m.queue p
  /-- No other value is. -/
  clashed : ∀ n k expected got,
    run.after program n = ended k (.failed (.channelItemType expected got)) →
      ∃ i m a v, i < n ∧ run.Clashes program i m a v expected ∧
        got = Machine.elementType (m.heap.tag v) ∧ run.after program (i + 1) = run.after program n

section Checks

variable {run : Run} {program : Program}

/-- What a thread is about to send clashes if it does not match what is recorded. -/
theorem Fresh.clashes_iff (fresh : run.Fresh) (htyped : run.machine.typedChannels = true) {i : Nat}
    {m : Machine} {s : Scheduler} {left : Nat} {a v : Address} {expected : Tag}
    (here : run.after program i = running m s left) :
    run.Clashes program i m a v expected ↔ m.Mismatch program a v expected := by
  have hsound : m.Sound := by
    have := fresh.sound_after program i
    rw [here] at this
    exact this
  have hon : m.typedChannels = true := by
    have hactive : (run.after program i).Active := by rw [here]; nofun
    have := fresh.typedChannels program i hactive
    rw [here] at this
    exact this.trans htyped
  have typed := fresh.typed htyped program i
  rw [here] at typed
  have hkind : m.heap.InUse a → m.heap.tag a = .channel →
      m.heap.elementKind? a = (run.elements program i a).head? := typed.kind a
  constructor
  · rintro ⟨-, instr, ⟨rest, hstack⟩, tag, accepted, ne⟩
    have hin := hsound.inUse_below hstack
    refine ⟨instr, ⟨rest, hstack⟩, tag, hon, ?_, ne⟩
    rw [hkind hin tag]
    cases hl : run.elements program i a with
    | nil => rw [hl] at accepted; cases accepted
    | cons first others =>
      have huniform := typed.uniform a
      rw [hl] at huniform accepted
      exact congrArg some (huniform first List.mem_cons_self expected accepted)
  · rintro ⟨instr, ⟨rest, hstack⟩, tag, -, kind, ne⟩
    have hin := hsound.inUse_below hstack
    rw [hkind hin tag] at kind
    exact ⟨⟨s, left, here⟩, instr, ⟨rest, hstack⟩, tag, List.mem_of_head? kind, ne⟩

/-- No run fails behind an instruction. -/
theorem proceed_ne {m k : Machine} {s : Scheduler} {left : Nat} {p : Progress} {e : Fault} :
    proceed m s left p ≠ ended k (.failed e) := by
  intro hended
  cases p with
  | advanced =>
    rw [proceed] at hended
    split at hended
    · split at hended <;> cases hended
    · cases hended
  | _ => cases hended

/-- No value is refused between two instructions. -/
theorem dispatch_ne {m k : Machine} {s : Scheduler} {expected got : Tag} :
    dispatch m s ≠ ended k (.failed (.channelItemType expected got)) := by
  intro hended
  unfold dispatch at hended
  split at hended
  next fault hnext =>
    have hfault : fault = .noThreads ∨ fault = .deadlock := by
      unfold Scheduler.next at hnext
      split at hnext
      · cases hnext
      · obtain rfl := Except.error.inj hnext
        split
        · exact .inl rfl
        · exact .inr rfl
    cases hended
    rcases hfault with h | h <;> cases h
  next =>
    dsimp only at hended
    split at hended <;> cases hended

theorem Fresh.checksTypes (fresh : run.Fresh) (htyped : run.machine.typedChannels = true) :
    run.ChecksTypes program where
  uniform n := (fresh.typed htyped program n).uniform
  refused := by
    intro i m a v expected clashes
    obtain ⟨s, left, here⟩ := clashes.here
    have hstep := ((fresh.clashes_iff htyped here).1 clashes).step
    have hnext : run.after program (i + 1) =
        fail m (.channelItemType expected (Machine.elementType (m.heap.tag v))) := by
      rw [after, here, next, tick, hstep]
    obtain ⟨hheap, -, -, -, hqueue⟩ := same_note m
      (.stopped (.channelItemType expected (Machine.elementType (m.heap.tag v))))
    exact ⟨_, hnext, hheap, hqueue⟩
  clashed := by
    intro n k expected got hended
    induction n with
    | zero =>
      have hactive := fresh.active
      rw [show run = _ from hended] at hactive
      exact absurd rfl hactive
    | succ n ih =>
      cases here : run.after program n with
      | ended m ending =>
        have hsame : run.after program (n + 1) = run.after program n := by rw [after, here, next]
        obtain ⟨i, m, a, v, hi, clashes, hgot, heq⟩ := ih (hsame.symm.trans hended)
        exact ⟨i, m, a, v, Nat.lt_succ_of_lt hi, clashes, hgot, heq.trans hsame.symm⟩
      | idle m s =>
        rw [after, here, next] at hended
        exact absurd hended dispatch_ne
      | running m s left =>
        have hrefused := Machine.ensures_refused program m
        rw [after, here, next, tick] at hended
        cases hresult : m.step program with
        | ok p l =>
          rw [hresult] at hended
          exact absurd hended proceed_ne
        | error e l =>
          rw [hresult] at hended
          cases hended
          obtain ⟨-, a, v, expected', mismatch, heq⟩ := hrefused.of_error hresult rfl
          cases heq
          exact ⟨n, m, a, v, Nat.lt_succ_self n, (fresh.clashes_iff htyped here).2 mismatch, rfl, rfl⟩

end Checks

end Run

/-! ## Sessions -/

/-- The machine with the check is the one without, but for the switch. -/
theorem Machine.create_typed (config : Config) (builtins : List BuiltinEntry) :
    create { config with typedChannels := true } builtins =
      (create { config with typedChannels := false } builtins).map
        fun m => { m with typedChannels := true } := by
  unfold create
  dsimp only
  cases Heap.create config.heapWords with
  | error fault => rfl
  | ok heap =>
    dsimp only
    cases Heap.newGlobal builtins { heap with tracing := config.tracing } with
    | error fault heap => rfl
    | ok global heap => rfl

namespace Session

/-- The session with typed channels or without. -/
def typed (s : Session) (typedChannels : Bool) : Session :=
  { s with config := { s.config with typedChannels } }

/-- Two runs report the same, print the same and leave the same counts, or the second one has refused a
value and printed the beginning of what the first one printed. -/
def UpToRefusal (off on : Report × Session) : Prop :=
  (on.1 = off.1 ∧ on.2.output = off.2.output ∧ on.2.stats = off.2.stats) ∨
    ∃ expected got text, on.1.outcome = .failed (.channelItemType expected got) ∧
      off.2.output = on.2.output ++ text

theorem run_of_ok {s : Session} {m k : Machine} {ending : Ending} {program : Program} {n : Nat}
    (hcreate : Machine.create s.config standardBuiltins = .ok m)
    (hgo : (Run.begin m (.create s.config.maxQuantum s.config.seed)).go program n = (k, ending)) :
    s.run program n = (⟨ending.outcome k, k.journal.toList⟩,
      { s with output := k.output, stats := some k.heap.stats }) := by
  unfold run
  rw [hcreate]
  dsimp only
  rw [hgo]

theorem run_of_error {s : Session} {failure : BuildFailure} {program : Program} {n : Nat}
    (hcreate : Machine.create s.config standardBuiltins = .error failure) :
    s.run program n = (⟨.failed failure.fault, failure.events⟩, s) := by
  unfold run
  rw [hcreate]

theorem upToRefusal_run (s : Session) (program : Program) (n : Nat) :
    UpToRefusal ((s.typed false).run program n) ((s.typed true).run program n) := by
  have hspec := Machine.create_spec (s.typed false).config standardBuiltins (by decide)
  have htyped : Machine.create (s.typed true).config standardBuiltins =
      (Machine.create (s.typed false).config standardBuiltins).map _ :=
    Machine.create_typed s.config standardBuiltins
  cases hoff : Machine.create (s.typed false).config standardBuiltins with
  | error failure =>
    rw [hoff] at htyped
    rw [run_of_error hoff, run_of_error htyped]
    exact .inl ⟨rfl, rfl, rfl⟩
  | ok m =>
    rw [hoff] at hspec htyped
    have sound := hspec.1.sound
    have off : m.typedChannels = false := by
      rw [hspec.1.eq]
      rfl
    have r : m.Resembles { m with typedChannels := true } := .intro off (.refl _)
    have sound' : Machine.Sound { m with typedChannels := true } := sound.congr rfl rfl rfl
    have rbegin : (Run.begin m (.create s.config.maxQuantum s.config.seed)).Resembles
        (.begin { m with typedChannels := true } (.create s.config.maxQuantum s.config.seed)) :=
      .idle _ sound.suspend sound'.suspend r.suspended
    rcases rbegin.go program n with
      ⟨m', k', ending, hm, hk, r', houtcome⟩ | ⟨m', k', ending, expected, got, hm, hk, text, hout⟩
    · rw [run_of_ok hoff hm, run_of_ok htyped hk]
      refine .inl ⟨?_, r'.output, congrArg some r'.heap.stats⟩
      rw [houtcome, r'.journal]
    · rw [run_of_ok hoff hm, run_of_ok htyped hk]
      exact .inr ⟨expected, got, text, rfl, hout⟩

/-- Typed channels are a check and nothing else. -/
theorem typing_only_checks (s : Session) (program : Program) :
    (∀ n, UpToRefusal ((s.typed false).run program n) ((s.typed true).run program n)) ∧
      ∀ m, Machine.create (s.typed true).config standardBuiltins = .ok m →
        (Run.begin m (.create s.config.maxQuantum s.config.seed)).ChecksTypes program := by
  refine ⟨s.upToRefusal_run program, fun m hcreate => ?_⟩
  have hspec := Machine.create_spec (s.typed true).config standardBuiltins (by decide)
  rw [hcreate] at hspec
  have htyped : m.typedChannels = true := by
    rw [hspec.1.eq]
    rfl
  exact (Run.fresh_begin hcreate).checksTypes htyped

end Session

end ChannelMachine

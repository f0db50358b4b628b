import ChannelMachine.Proofs.Machine.Moving
import ChannelMachine.Proofs.Run.Stacks

/-!
# Constants stay constant

The compiler rejects an assignment to a constant, but at run time a `store` writes whatever slot its
position leads to.  `Run.book` keeps for each frame what made it and which instructions wrote to its slots,
and so it can be said what happens to constants in a run (`Run.KeepsConstants`): a constant or a function
is written by its declaration, at most once in each frame, and before that it cannot be read.  Builtins are
never written.

Only scopes have constants.  The frame of a call has the parameters, which are variables.

The threads may take turns in any way: a `Schedule` puts any scheduler in front of any step.
-/

namespace ChannelMachine

open Source

namespace Run

/-! ## Turns -/

/-- The schedulers that take over in front of the steps of a run, and how many instructions are then left
in the quantum. -/
abbrev Schedule := Nat → Option (Scheduler × Nat)

/-- Another scheduler may take over. -/
def rescheduled (change : Option (Scheduler × Nat)) : Run → Run
  | running m s left => match change with
    | some (s, left) => running m s left
    | none => running m s left
  | idle m s => match change with
    | some (s, _) => idle m s
    | none => idle m s
  | ended m ending => ended m ending

/-- The state after some steps, in front of which schedulers took over. -/
def under (program : Program) (schedule : Schedule) (run : Run) : Nat → Run
  | 0 => run.rescheduled (schedule 0)
  | n + 1 => ((under program schedule run n).next program).rescheduled (schedule (n + 1))

/-- The book after one step. -/
def record (program : Program) (book : Book) : Run → Book
  | running m _ _ => match m.step program with
    | .ok _ k => m.record program k book
    | .error _ _ => book
  | idle _ _ | ended _ _ => book

/-- The book after some steps. -/
def book (program : Program) (schedule : Schedule) (run : Run) : Nat → Book
  | 0 => .blank
  | n + 1 => (run.under program schedule n).record program (book program schedule run n)

/-- What happens to constants in a run. -/
structure KeepsConstants (program : Program) (declarations : List Declaration) (schedule : Schedule)
    (run : Run) : Prop where
  /-- Each slot of a scope that is opened has one declaration. -/
  declared : ∀ n m s left slots, run.under program schedule n = running m s left →
    program.at? m.registers.pc = some (.enterScope slots) →
    ∀ slot < slots, ∃! d, d ∈ declarations ∧ d.start = m.registers.pc ∧ d.slot = slot
  /-- In each frame of a scope, a constant or a function has been written once and by its declaration, or
  it has not been written. -/
  once : ∀ n frame, ∀ d ∈ declarations, d.binding ≠ .variable →
    (run.book program schedule n frame).origin = .scope d.start →
    (run.book program schedule n frame).writers d.slot = [] ∨
      (run.book program schedule n frame).writers d.slot = [d.index]
  /-- A slot of a scope cannot be read before it has been written. -/
  unread : ∀ n m s left q frame i start, run.under program schedule n = running m s left →
    program.at? m.registers.pc = some (.load q) →
    m.heap.slotOf? m.registers.environment q = some (frame, i) →
    (run.book program schedule n frame).origin = .scope start →
    (run.book program schedule n frame).writers q.slot = [] →
    ∃ k, m.step program = .error .unassignedAccess k
  /-- Builtins are never written. -/
  builtins : ∀ n, run.book program schedule n Heap.globalFrame = ⟨.builtins, []⟩
  /-- The slots of the frames that are used change only in the way that the book tells. -/
  faithful : ∀ n m s left p k a slot, run.under program schedule n = running m s left →
    m.step program = .ok p k → m.heap.Live m.roots a → m.heap.tag a = .frame →
    slot + 1 < m.heap.size a → k.heap.word a (slot + 1) ≠ m.heap.word a (slot + 1) →
    run.book program schedule (n + 1) a = (run.book program schedule n a).written slot m.registers.pc

end Run

/-! ## Threads that take turns -/

section Turns

variable {layout : Layout} {table : List Declaration} {book : Book}
  {held : Option ThreadId → List Address} {h : Heap} {roots : List Address}
  {threads : Option ThreadId → Option Registers} {m k : Machine}

/-- Some threads go on under other numbers. -/
theorem Lodgings.moved (lodgings : Lodgings layout table book held h roots threads)
    {roots' : List Address} (hroots : ∀ a, h.Live roots' a → h.Live roots a)
    {threads' : Option ThreadId → Option Registers} (old : Option ThreadId → Option ThreadId)
    (hold : ∀ t r, threads' t = some r → threads (old t) = some r)
    (inj : ∀ t u r s, t ≠ u → threads' t = some r → threads' u = some s → old t ≠ old u) :
    Lodgings layout table book (held ∘ old) h roots' threads' where
  toKept := lodgings.toKept
  permanent := lodgings.permanent
  global := lodgings.global
  unwritten := fun a ha => lodgings.unwritten a (hroots a ha)
  functions := fun a ha => lodgings.functions a (hroots a ha)
  lodged := fun t r hr => lodgings.lodged _ r (hold t r hr)
  nodup := fun t r hr => lodgings.nodup _ r (hold t r hr)
  apart := fun t u r s hne hr hs =>
    lodgings.apart _ _ r s (inj t u r s hne hr hs) (hold t r hr) (hold u s hs)

namespace Machine

/-- The registers of the threads that do not run. -/
def waiting? (m : Machine) : Option ThreadId → Option Registers
  | none => none
  | some t => m.threads[t]?

/-- All that is live where no thread runs was live before. -/
theorem live_idle (hi : m.heap.Intact) {threads : ThreadTable}
    (hthreads : ∀ (t : ThreadId) r, threads[t]? = some r → ∀ a ∈ r.roots, m.heap.Live m.roots a)
    (a : Address) (ha : m.heap.Live (threadRoots idle threads) a) : m.heap.Live m.roots a := by
  refine ha.trans hi fun b hb => ?_
  rcases mem_threadRoots.1 hb with hb | ⟨t, r, hr, hb⟩
  · obtain rfl : b = Heap.undefined := by
      rcases Registers.mem_roots.1 hb with hb | hb | hb
      · cases hb
      · exact hb
      · cases hb
    exact hi.live_constant (i := 4) (by decide)
  · exact hthreads t r hr b hb

/-- The running thread goes to the others. -/
theorem lodgings_suspend (hi : m.heap.Intact)
    (lodgings : Lodgings layout table book held m.heap m.roots m.thread?) :
    ∃ held', Lodgings layout table book held' m.suspend.heap m.suspend.roots m.suspend.waiting? := by
  have hthread : ∀ (t : ThreadId) r, m.suspend.threads[t]? = some r →
      m.thread? (if t = m.current then none else some t) = some r := by
    intro t r hr
    have hr : (m.threads.insert m.current m.registers)[t]? = some r := hr
    rw [Std.TreeMap.getElem?_insert] at hr
    by_cases ht : t = m.current
    · rw [if_pos (ht ▸ Std.ReflCmp.compare_self)] at hr
      rw [if_pos ht]
      exact hr
    · rw [if_neg fun h => ht (Std.LawfulEqCmp.eq_of_compare h).symm] at hr
      rw [if_neg ht]
      exact hr
  refine ⟨_, lodgings.moved (live_idle hi fun t r hr => live_thread (hthread t r hr))
    (fun t => t.bind fun t => if t = m.current then none else some t) (fun t r hr => ?_)
    fun t u r s hne hr hs heq => ?_⟩
  · cases t with
    | none => cases hr
    | some t => exact hthread t r hr
  · cases t with
    | none => cases hr
    | some t =>
      cases u with
      | none => cases hs
      | some u =>
        change (if t = m.current then none else some t) =
          (if u = m.current then none else some u) at heq
        split at heq
        next ht =>
          split at heq
          next hu => exact hne (congrArg some (ht.trans hu.symm))
          next => cases heq
        next =>
          split at heq
          next => cases heq
          next => exact hne heq

/-- The running thread is dropped. -/
theorem lodgings_retire (hi : m.heap.Intact)
    (lodgings : Lodgings layout table book held m.heap m.roots m.thread?) :
    ∃ held', Lodgings layout table book held' m.retire.heap m.retire.roots m.retire.waiting? := by
  refine ⟨_, lodgings.moved (live_idle hi fun t r hr => live_thread (t := some t) hr) id (fun t r hr => ?_)
    fun t u r s hne _ _ => hne⟩
  cases t with
  | none => cases hr
  | some t => exact hr

/-- One of the threads runs. -/
theorem lodgings_resume (hi : m.heap.Intact)
    (lodgings : Lodgings layout table book held m.heap m.roots m.waiting?)
    {t : ThreadId} (hresume : m.resume t = some k) :
    ∃ held', Lodgings layout table book held' k.heap k.roots k.thread? := by
  unfold resume at hresume
  split at hresume
  next => cases hresume
  next registers hregisters =>
    obtain rfl := Option.some.inj hresume
    have hthread : ∀ (u : ThreadId) r, (m.threads.erase t)[u]? = some r →
        u ≠ t ∧ m.threads[u]? = some r := by
      intro u r hr
      rw [Std.TreeMap.getElem?_erase] at hr
      split at hr
      · cases hr
      next hne => exact ⟨fun h => hne (h ▸ Std.ReflCmp.compare_self), hr⟩
    have hlive : ∀ (u : ThreadId) r, m.threads[u]? = some r → ∀ a ∈ r.roots, m.heap.Live m.roots a :=
      fun u r hr a ha => .root (mem_threadRoots.2 (.inr ⟨u, r, hr, ha⟩))
    refine ⟨_, lodgings.moved (fun a ha => ha.trans hi fun b hb => ?_)
      (fun u => some (u.getD t)) (fun u r hr => ?_) fun u v r s hne hr hs heq => ?_⟩
    · rcases mem_threadRoots.1 hb with hb | ⟨u, r, hr, hb⟩
      · exact hlive t registers hregisters b hb
      · exact hlive u r (hthread u r hr).2 b hb
    · cases u with
      | none => exact hregisters.trans hr
      | some u => exact (hthread u r hr).2
    · cases u with
      | none =>
        cases v with
        | none => exact hne rfl
        | some v => exact (hthread v s hs).1 (Option.some.inj heq).symm
      | some u =>
        cases v with
        | none => exact (hthread u r hr).1 (Option.some.inj heq)
        | some v => exact hne heq

end Machine

end Turns

namespace Run

variable {layout : Layout} {table : List Declaration} {book : Book} {program : Program} {m k : Machine}

/-- All threads of a run are lodged.  When it is over, it still counts that the constants were kept. -/
def Lodged (layout : Layout) (table : List Declaration) (book : Book) : Run → Prop
  | running m _ _ => ∃ held, Lodgings layout table book held m.heap m.roots m.thread?
  | idle m _ => ∃ held, Lodgings layout table book held m.heap m.roots m.waiting?
  | ended _ _ => Kept table book ∧ (book Heap.globalFrame).origin = .builtins

/-- How the book looks whether or not the run is over. -/
theorem Lodged.kept {run : Run} (lodged : run.Lodged layout table book) :
    Kept table book ∧ (book Heap.globalFrame).origin = .builtins := by
  cases run with
  | running m s left => obtain ⟨_, lodgings⟩ := lodged; exact ⟨lodgings.toKept, lodgings.global⟩
  | idle m s => obtain ⟨_, lodgings⟩ := lodged; exact ⟨lodgings.toKept, lodgings.global⟩
  | ended m ending => exact lodged

theorem Lodged.rescheduled {run : Run} (lodged : run.Lodged layout table book)
    (change : Option (Scheduler × Nat)) : (run.rescheduled change).Lodged layout table book := by
  cases run <;> cases change <;> exact lodged

/-- An event changes nothing. -/
theorem lodged_note {s : Scheduler} (lodged : (idle m s).Lodged layout table book) (e : Event)
    (s' : Scheduler) : (idle (m.note e) s').Lodged layout table book := by
  obtain ⟨held, lodgings⟩ := lodged
  obtain ⟨core, -⟩ := Machine.sameCore_note m e
  have hroots : (m.note e).roots = m.roots := congrArg₂ threadRoots core.registers core.threads
  have hwaiting : (m.note e).waiting? = m.waiting? := by
    funext t
    cases t with
    | none => rfl
    | some t => exact congrArg (fun threads : ThreadTable => threads[t]?) core.threads
  refine ⟨held, ?_⟩
  rw [core.heap, hroots, hwaiting]
  exact lodgings

theorem lodged_noteAll {s : Scheduler} (lodged : (idle m s).Lodged layout table book)
    (e : Option Event) (s' : Scheduler) : (idle (noteAll m e) s').Lodged layout table book := by
  cases e with
  | none => exact lodged
  | some e => exact lodged_note lodged e s'

/-- A run in which no thread runs goes on with one of them. -/
theorem lodged_dispatch (hi : m.heap.Intact) (s : Scheduler)
    (lodged : (idle m s).Lodged layout table book) : (dispatch m s).Lodged layout table book := by
  unfold dispatch
  split
  next => exact lodged.kept
  next t s' _ =>
    have hheap := (same_note m (s'.switchEvent t)).1
    have hnoted := lodged_note lodged (s'.switchEvent t) s'
    dsimp only
    split
    next => exact hnoted.kept
    next k hresume =>
      obtain ⟨held, lodgings⟩ := hnoted
      exact Machine.lodgings_resume (hheap ▸ hi) lodgings hresume

/-- After an instruction. -/
theorem lodged_proceed (hi : m.heap.Intact) (s : Scheduler) (left : Nat) (progress : Progress)
    (lodged : (running m s left).Lodged layout table book) :
    (proceed m s left progress).Lodged layout table book := by
  obtain ⟨held, lodgings⟩ := lodged
  cases progress with
  | advanced =>
    rw [proceed]
    split
    next =>
      split
      · exact Machine.lodgings_suspend hi lodgings
      · exact ⟨held, lodgings⟩
    next => exact ⟨held, lodgings⟩
  | blocked => exact lodged_noteAll (s := s) (Machine.lodgings_suspend hi lodgings) _ _
  | exited => exact lodged_noteAll (s := s) (Machine.lodgings_retire hi lodgings) _ _
  | finished value => exact ⟨lodgings.toKept, lodgings.global⟩
  | spinning => exact ⟨held, lodgings⟩

/-- A step of a run keeps all threads lodged. -/
theorem lodged_next (laid : LaidOut program table layout)
    (unique : ∀ d ∈ table, ∀ d' ∈ table, d.start = d'.start → d.slot = d'.slot → d = d')
    (hsize : program.code.size < 2 ^ 32) {run : Run} (hrun : run.Sound)
    (lodged : run.Lodged layout table book) :
    (run.next program).Lodged layout table (run.record program book) := by
  cases run with
  | running m s left =>
    have hm : m.Sound := hrun
    rw [next, tick, record]
    cases hstep : m.step program with
    | error fault k => exact lodged.kept
    | ok p k =>
      have hk : k.Sound := (hm.leaves_step program).of_ok hstep
      obtain ⟨held, lodgings⟩ := lodged
      obtain ⟨held', lodgings'⟩ := laid.lodgings_step unique hsize hm hk hstep lodgings
      exact lodged_proceed (m := { k with runnable := [] }) hk.heap.toIntact _ _ _ ⟨held', lodgings'⟩
  | idle m s =>
    have hm : AtRest m := hrun
    exact lodged_dispatch hm.heap.toIntact s lodged
  | ended m ending => exact lodged

/-- At the start, the book is empty. -/
theorem lodges_begin {config : Config} (hm : m.Initial config standardBuiltins) {roots : List Address}
    (hroots : ∀ a ∈ roots, m.heap.InUse a) : m.heap.Lodges layout table .blank roots where
  once := fun _ _ _ _ h => by cases h
  builtins := fun _ _ => rfl
  permanent := by
    rw [hm.heap.low]
    decide
  global := rfl
  unwritten := fun _ _ _ _ _ h => by cases h
  functions := fun a ha htag => by
    -- A plan that knows no function is kept.
    obtain ⟨_, -, -, hplan⟩ := (hm.callablesFit (fun _ => none) a
      (hm.sound.heap.inUse_of_live hroots ha)).closure htag
    cases hplan

/-- The main thread is in the room of the builtins. -/
theorem lodged_begin {config : Config} (hm : m.Initial config standardBuiltins)
    (laid : LaidOut program table layout) (s : Scheduler) :
    (begin m s).Lodged layout table .blank := by
  refine ⟨fun _ => [], lodges_begin hm hm.sound.suspend.inUse_root, fun t r hr => ?_, fun _ _ _ => .nil,
    fun _ _ _ _ _ _ _ => List.disjoint_nil_left _⟩
  cases t with
  | none => cases hr
  | some t =>
    have hr : (begin m s).thread? t = some r := hr
    rw [thread?_begin hm] at hr
    split at hr
    next =>
      obtain rfl := Option.some.inj hr
      refine ⟨.start, laid.start, .outer ?_ fun room hroom => ?_⟩
      · unfold Heap.Houses
        change List.Forall₂ _ [Room.builtins]
          (m.heap.framesOf (Heap.globalEnvironment standardBuiltins.length)).reverse
        rw [hm.framesOf_global]
        refine .cons ⟨rfl, fun _ h => ?_, fun _ => ?_⟩ .nil
        · cases h
        · decide
      · obtain rfl := List.mem_singleton.1 hroom
        exact Nat.le_refl _
    next => cases hr

section Constants

variable {schedule : Schedule} {run : Run}

theorem Sound.rescheduled (hrun : run.Sound) (change : Option (Scheduler × Nat)) :
    (run.rescheduled change).Sound := by
  cases run <;> cases change <;> exact hrun

theorem sound_under (hrun : run.Sound) : ∀ n, (run.under program schedule n).Sound
  | 0 => hrun.rescheduled _
  | n + 1 => (sound_next (sound_under hrun n) program).rescheduled _

theorem lodged_under (laid : LaidOut program table layout)
    (unique : ∀ d ∈ table, ∀ d' ∈ table, d.start = d'.start → d.slot = d'.slot → d = d')
    (hsize : program.code.size < 2 ^ 32) (hrun : run.Sound) (lodged : run.Lodged layout table .blank) :
    ∀ n, (run.under program schedule n).Lodged layout table (run.book program schedule n)
  | 0 => lodged.rescheduled _
  | n + 1 => (lodged_next laid unique hsize (sound_under hrun n)
      (lodged_under laid unique hsize hrun lodged n)).rescheduled _

/-- A slot that is unassigned cannot be read. -/
theorem fails_load {m : Machine} {q : Position} {frame i : Nat}
    (hi : program.at? m.registers.pc = some (.load q))
    (hslot : m.heap.slotOf? m.registers.environment q = some (frame, i))
    (hword : m.heap.word frame i = Heap.unassigned) :
    ∃ k, m.step program = .error .unassignedAccess k := by
  have hfails : Ensures (Machine.step program) m (fun _ _ => False)
      fun fault _ => fault = .unassignedAccess := by
    refine .bind (Machine.ensures_registersNow ?_)
    rw [hi]
    refine .bind (.bind (Machine.ensures_registersNow (.bind (Machine.ensures_readHeap ?_))))
    rw [Heap.lookup, hslot]
    dsimp only
    rw [if_pos hword]
    exact .bind (.throw rfl)
  cases hstep : m.step program with
  | ok p k => exact (hfails.of_ok hstep).elim
  | error fault k =>
    obtain rfl := hfails.of_error hstep
    exact ⟨k, rfl⟩

theorem keepsConstants_of_lodged (laid : LaidOut program table layout)
    (unique : ∀ d ∈ table, ∀ d' ∈ table, d.start = d'.start → d.slot = d'.slot → d = d')
    (hsize : program.code.size < 2 ^ 32) (hrun : run.Sound) (lodged : run.Lodged layout table .blank) :
    KeepsConstants program table schedule run := by
  have hlodged : ∀ n, (run.under program schedule n).Lodged layout table
      (run.book program schedule n) := lodged_under laid unique hsize hrun lodged
  have hsound : ∀ n, (run.under program schedule n).Sound := sound_under hrun
  refine ⟨fun n m s left slots hm hi slot hslot => ?_, fun n frame d hd hconstant horigin =>
    (hlodged n).kept.1.once frame d hd hconstant horigin,
    fun n m s left q frame i start hm hi hslot horigin hwriters => ?_, fun n => ?_,
    fun n m s left p k a slot hm hstep ha htag hslot hne => ?_⟩
  · have lodged := hlodged n
    rw [hm] at lodged
    obtain ⟨held, lodgings⟩ := lodged
    obtain ⟨φ, hφ, -⟩ := lodgings.lodged none _ rfl
    obtain ⟨i, hi', leads⟩ := laid.leads _ _ hφ
    obtain rfl := Option.some.inj (hi'.symm.trans hi)
    cases leads with
    | enterScope listed next =>
      obtain ⟨index, hd⟩ := listed slot _ (List.getElem?_eq_getElem hslot)
      exact ⟨_, ⟨hd, rfl, rfl⟩, fun d ⟨hd', hstart, hslot⟩ => unique _ hd' _ hd hstart hslot⟩
    | simple simple => cases simple
    | last last => cases last
  · have lodged := hlodged n
    have hm' := hsound n
    rw [hm] at lodged hm'
    obtain ⟨held, lodgings⟩ := lodged
    obtain ⟨hlive, htag, -⟩ := hm'.heap.live_slotOf? (Machine.Sound.inUse_root hm')
      Machine.Sound.live_environment hm'.registers.tag hslot
    obtain ⟨-, -, rfl, hsize⟩ := Heap.of_slotOf?_eq hslot
    exact fails_load hi hslot (lodgings.unwritten frame hlive htag start q.slot horigin hwriters hsize)
  · obtain ⟨hkept, hglobal⟩ := (hlodged n).kept
    exact congrArg₂ Page.mk hglobal (hkept.builtins _ hglobal)
  · have hm' := hsound n
    rw [hm] at hm'
    obtain ⟨q, hi, rfl, hslot⟩ := Machine.Sound.exists_store_of_ne hm' hstep ha htag hslot hne
    rw [book, hm, record, hstep]
    dsimp only
    rw [Machine.record_store hi hslot]
    exact Function.update_self ..

end Constants

/-- In each run of a compiled module, constants are kept, in whatever way the threads take turns. -/
theorem keepsConstants {config : Config} {source : Module} (hcompile : source.compile = .ok program)
    (hsize : program.code.size < 2 ^ 32) (hcreate : Machine.create config standardBuiltins = .ok m)
    (schedule : Schedule) :
    KeepsConstants program source.declarations schedule
      (begin m (.create config.maxQuantum config.seed)) := by
  obtain ⟨layout, laid⟩ := Module.exists_layout hcompile
  have hspec := Machine.create_spec config standardBuiltins (by decide)
  rw [hcreate] at hspec
  exact keepsConstants_of_lodged laid
    (fun _ hd _ hd' hstart hslot => Module.declaration_unique hd hd' hstart hslot) hsize
    hspec.1.sound.suspend (lodged_begin hspec.1 laid _)

/-- A function that is called before the constant it uses is declared, and then the constant: it cannot be
read, and it is not written. -/
theorem keepsConstants_called_early : ∃ m,
    Machine.create { heapWords := 400, seed := 7 } standardBuiltins = .ok m ∧
      ∀ schedule, KeepsConstants ⟨#[.enterScope 2, .closure 0 3, .jump 7, .load ⟨1, 1⟩, .pop,
          .constant .undefined, .ret, .store ⟨1, 0⟩, .pop, .load ⟨1, 0⟩, .call 0, .pop,
          .constant (.bool true), .store ⟨1, 1⟩, .exitScope, .halt]⟩
        [⟨0, 0, "f", .function, 7⟩, ⟨0, 1, "c", .constant, 13⟩] schedule (begin m (.create 15 7)) := by
  obtain ⟨m, hcreate⟩ := Machine.exists_create { heapWords := 400, seed := 7 } (by decide)
  have hcompile : (Source.Module.mk [.function "f" [] [.expr (.name "c")],
      .expr (.call (.name "f") []), .const "c" (.bool true)]).compile = .ok _ := rfl
  exact ⟨m, hcreate, keepsConstants hcompile (by decide) hcreate⟩

end Run

end ChannelMachine

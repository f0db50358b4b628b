import ChannelMachine.Proofs.Machine.Performing
import ChannelMachine.Proofs.Run.Safety

/-!
# Turns of threads

Between two instructions no thread runs, and all threads have their registers in the table.  Any of them
may take the next turn: it is resumed, executes one instruction, and goes back into the table unless it
came to its end.  `Turned` tells what a turn does to the machine in terms of the effect of the
instruction.
-/

namespace ChannelMachine

namespace Heap

variable {h k : Heap} {roots roots' : List Address} {c : Change} {f : Nat → Address}

/-! ## Other roots -/

theorem Affords.mono (affords : h.Affords roots c) (hlive : ∀ a, h.Live roots a → h.Live roots' a) :
    h.Affords roots' c where
  range := affords.range
  made := by
    intro header words hmem j r hr hle hlt
    refine (affords.made header words hmem j r hr hle hlt).imp_right fun stands => ?_
    cases r with
    | known a => exact hlive a stands
    | made i => exact stands
  node := fun a i w hw => (affords.node a i w hw).imp_left (hlive a)
  child := fun a i w hw hle hlt => (affords.child a i w hw hle hlt).imp_right (hlive w)

theorem Undergoes.mono (u : h.Undergoes k roots c f) (hlive : ∀ a, h.Live roots' a → h.Live roots a) :
    h.Undergoes k roots' c f where
  inUse := fun a ha => u.inUse a (hlive a ha)
  header := fun a ha => u.header a (hlive a ha)
  kind := fun a t ha => u.kind a t (hlive a ha)
  word := fun a i ha => u.word a i (hlive a ha)
  text := fun a ha => u.text a (hlive a ha)
  node := by
    intro i header words hi
    have new := u.node i header words hi
    exact ⟨new.toInUse, new.toHolds, fun ha => new.not_live (hlive _ ha), new.isBlock, new.fits⟩
  distinct := u.distinct
  string := u.string
  bottom := u.bottom
  building := u.building
  sound := u.sound

end Heap

namespace Machine

variable {program : Program} {m k : Machine} {t x : ThreadId} {e : Effect} {f : Nat → Address}

/-- What came of the turn of a thread. -/
structure Turn where
  /-- What the instruction meant for the thread. -/
  progress : Progress
  /-- The threads that it started or woke, in this order. -/
  ready : List ThreadId
  /-- The machine afterwards, while no thread runs. -/
  machine : Machine

/-- Lets a thread execute its next instruction.  There is no turn if there is no such thread, if the
instruction fails, or if it ends the run. -/
def turn? (program : Program) (m : Machine) (t : ThreadId) : Option Turn :=
  match m.resume t with
  | none => none
  | some m =>
      match m.step program with
      | .error _ _ => none
      | .ok progress k =>
          let rest := { k with runnable := [] }
          match progress with
          | .advanced | .blocked => some ⟨progress, k.runnable, rest.suspend⟩
          | .exited => some ⟨progress, k.runnable, rest.retire⟩
          | .finished _ | .spinning => none

/-! ## Resumed threads -/

theorem getElem?_insert_thread (threads : ThreadTable) (t x : ThreadId) (r : Registers) :
    (threads.insert t r)[x]? = if x = t then some r else threads[x]? := by
  rw [Std.TreeMap.getElem?_insert]
  simp only [Std.LawfulEqCmp.compare_eq_iff_eq, eq_comm (a := t)]

theorem getElem?_erase_thread (threads : ThreadTable) (t x : ThreadId) :
    (threads.erase t)[x]? = if x = t then none else threads[x]? := by
  rw [Std.TreeMap.getElem?_erase]
  simp only [Std.LawfulEqCmp.compare_eq_iff_eq, eq_comm (a := t)]

/-- A thread runs with its registers, and the other ones keep theirs. -/
theorem of_resume (hresume : m.resume t = some k) : ∃ r, m.threads[t]? = some r ∧
    k = { m with threads := m.threads.erase t, registers := r, current := t } := by
  unfold resume at hresume
  split at hresume
  next => cases hresume
  next r hr => exact ⟨r, hr, (Option.some.inj hresume).symm⟩

/-- What threads use does not depend on which of them runs. -/
theorem live_resume (hm : Run.AtRest m) (hresume : m.resume t = some k) (a : Address) :
    k.heap.Live k.roots a ↔ m.heap.Live m.roots a := by
  obtain ⟨r, hr, rfl⟩ := of_resume hresume
  have hi := hm.heap.toIntact
  constructor
  · intro ha
    refine Heap.Live.trans hi ha fun b hb => .root ?_
    rcases mem_threadRoots.1 hb with hb | ⟨u, s, hs, hb⟩
    · exact mem_threadRoots.2 (.inr ⟨t, r, hr, hb⟩)
    · rw [Std.TreeMap.getElem?_erase] at hs
      split at hs
      next => cases hs
      next => exact mem_threadRoots.2 (.inr ⟨u, s, hs, hb⟩)
  · intro ha
    refine Heap.Live.trans hi ha fun b hb => ?_
    rcases mem_threadRoots.1 hb with hb | ⟨u, s, hs, hb⟩
    · rw [hm.idle] at hb
      obtain rfl : b = Heap.undefined := List.mem_singleton.1 hb
      exact .permanent hi (Heap.addressOf_mod 4)
        (Nat.lt_of_lt_of_le (by decide : Heap.undefined < addressOf Heap.constants.length) hi.constants_le)
    · refine .root (mem_threadRoots.2 ?_)
      by_cases htu : u = t
      · subst htu
        rw [hr, Option.some.injEq] at hs
        exact .inl (hs ▸ hb)
      · refine .inr ⟨u, s, ?_, hb⟩
        rw [getElem?_erase_thread, if_neg htu]
        exact hs

/-! ## What a turn does -/

/-- A machine before and after a turn of a thread, where the new nodes are at these addresses. -/
structure Turned (m k : Machine) (t : ThreadId) (e : Effect) (f : Nat → Address) : Prop
    extends Draws m e where
  /-- The heap. -/
  heap : m.heap.Undergoes k.heap m.roots e.toChange f
  /-- Nobody runs. -/
  rest : Run.AtRest k
  /-- The thread goes on with these registers, unless it came to its end. -/
  own : k.threads[t]? = if e.progress = .exited then none else some (e.registers.placed f)
  /-- The thread that was started. -/
  begun : ∀ r, e.started = some r → k.threads[m.nextThread]? = some r
  /-- The other threads. -/
  other : ∀ x : ThreadId, x ≠ t → (x = m.nextThread → e.started = none) → k.threads[x]? = m.threads[x]?
  /-- The number of the next thread. -/
  nextThread : k.nextThread = m.nextThread + e.started.toList.length
  /-- The queues of what was live. -/
  queue : ∀ p : Place, m.heap.Live m.roots p.address → k.queue p =
    (m.queue p).drop (e.leave p) ++ if e.joins = some p then [t] else []
  /-- The queues of a new channel or wait-group. -/
  newQueue : ∀ i header words, e.made[i]? = some (.node header words) →
    (header.tag = .channel → ∀ side, k.queue (.channel side (f i)) = []) ∧
      (header.tag = .waitGroup → k.queue (.group (f i)) = [])
  /-- All threads that were started or woken were handed over. -/
  runnable : k.runnable = []
  /-- The builtins. -/
  builtins : k.builtins = m.builtins
  /-- What has been printed. -/
  output : k.output = m.output ++ e.printed
  /-- Whether channels are typed. -/
  typedChannels : k.typedChannels = m.typedChannels

/-- What is drawn on with one thread running is drawn on with none. -/
theorem Draws.mono {l : Machine} (draws : Draws l e) (heap : m.heap = l.heap)
    (hlive : ∀ a, l.heap.Live l.roots a → m.heap.Live m.roots a) : Draws m e := by
  rw [heap] at hlive
  refine ⟨heap ▸ draws.toAffords.mono hlive, fun x hx => ?_, fun r hr a ha => ?_⟩
  · have stands := draws.registers x hx
    cases x with
    | known a =>
      rw [heap]
      exact hlive a stands
    | made i => exact stands
  · rw [heap]
    exact hlive a (draws.started r hr a ha)

/-- A machine that differs from what an instruction left behind only in where the registers are. -/
structure Filed (k k' : Machine) (t : ThreadId) (kept : Option Registers) : Prop where
  /-- Nobody runs. -/
  rest : Run.AtRest k'
  /-- The heap. -/
  heap : k'.heap = k.heap
  /-- The threads. -/
  threads : ∀ x : ThreadId, k'.threads[x]? = if x = t then kept else k.threads[x]?
  /-- The number of the next thread. -/
  nextThread : k'.nextThread = k.nextThread
  /-- The queues. -/
  queue : ∀ p, k'.queue p = k.queue p
  /-- All threads that were started or woken were handed over. -/
  runnable : k'.runnable = []
  /-- The builtins. -/
  builtins : k'.builtins = k.builtins
  /-- What has been printed. -/
  output : k'.output = k.output
  /-- Whether channels are typed. -/
  typedChannels : k'.typedChannels = k.typedChannels

/-- The thread goes back into the table, unless it came to its end. -/
theorem Sound.filed (hk : k.Sound) (hcurrent : k.current = t) (hnone : k.threads[t]? = none) (p : Progress) :
    Filed k (if p = .exited then Machine.retire { k with runnable := [] }
      else Machine.suspend { k with runnable := [] }) t (if p = .exited then none else some k.registers) := by
  have hk' : ({ k with runnable := [] } : Machine).Sound := hk.congr rfl rfl rfl
  split
  next =>
    refine ⟨hk'.retire, rfl, fun x => ?_, rfl, fun _ => queue_congr rfl rfl _, rfl, rfl, rfl, rfl⟩
    split
    next hx => exact hx ▸ hnone
    next => rfl
  next =>
    refine ⟨hk'.suspend, rfl, fun x => ?_, rfl, fun _ => queue_congr rfl rfl _, rfl, rfl, rfl, rfl⟩
    exact (getElem?_insert_thread k.threads k.current x k.registers).trans (by rw [hcurrent])

/-- A turn is an instruction of the thread, and what follows from it. -/
theorem of_turn? {turn : Turn} (hturn : m.turn? program t = some turn) : ∃ l k, m.resume t = some l ∧
    l.step program = .ok turn.progress k ∧ turn.ready = k.runnable ∧
      turn.machine = if turn.progress = .exited then retire { k with runnable := [] }
        else suspend { k with runnable := [] } := by
  unfold turn? at hturn
  cases hresume : m.resume t with
  | none =>
    rw [hresume] at hturn
    cases hturn
  | some l =>
    rw [hresume] at hturn
    dsimp only at hturn
    cases hstep : l.step program with
    | error fault k =>
      rw [hstep] at hturn
      cases hturn
    | ok p k =>
      rw [hstep] at hturn
      refine ⟨l, k, rfl, ?_⟩
      rw [hstep]
      cases p with
      | advanced | blocked | exited =>
        obtain rfl := Option.some.inj hturn
        exact ⟨rfl, rfl, rfl⟩
      | finished | spinning => cases hturn

section Turned

variable {l : Machine} (hresume : m.resume t = some l) (realizes : Realizes l k e f)

include hresume realizes

/-- The table while the thread is not in it. -/
theorem Realizes.table (x : ThreadId) : k.threads[x]? =
    if x = m.nextThread ∧ e.started ≠ none then e.started
    else if x = t then none else m.threads[x]? := by
  obtain ⟨r, hr, rfl⟩ := of_resume hresume
  rw [realizes.threads]
  cases hstarted : e.started with
  | none =>
    rw [if_neg fun h => h.2 rfl]
    exact getElem?_erase_thread m.threads t x
  | some s =>
    refine (getElem?_insert_thread _ m.nextThread x s).trans ?_
    rw [getElem?_erase_thread]
    simp only [ne_eq, reduceCtorEq, not_false_eq_true, and_true]

/-- An instruction and what follows from it are a turn. -/
theorem Realizes.turned (hm : Run.AtRest m) (hbound : t ≠ m.nextThread) {k' : Machine}
    {kept : Option Registers} (filed : Filed k k' t kept)
    (hkept : kept = if e.progress = .exited then none else some k.registers) : Turned m k' t e f := by
  have hlive := live_resume hm hresume
  have htable := realizes.table hresume
  obtain ⟨r, hr, rfl⟩ := of_resume hresume
  refine {
    toDraws := realizes.toDraws.mono rfl fun a ha => (hlive a).1 ha
    heap := filed.heap ▸ realizes.heap.mono fun a ha => (hlive a).2 ha
    rest := filed.rest
    own := by rw [filed.threads, if_pos rfl, hkept, realizes.outline]
    begun := fun s hs => ?_
    other := fun x hx hnew => ?_
    nextThread := filed.nextThread.trans realizes.nextThread
    queue := fun p hp => (filed.queue p).trans (realizes.queue p ((hlive _).2 hp))
    newQueue := fun i header words hi => ?_
    runnable := filed.runnable
    builtins := filed.builtins.trans realizes.builtins
    output := filed.output.trans realizes.output
    typedChannels := filed.typedChannels.trans realizes.typedChannels }
  · rw [filed.threads, if_neg (Ne.symm hbound), htable,
      if_pos ⟨rfl, fun h => Option.some_ne_none s (hs.symm.trans h)⟩, hs]
  · rw [filed.threads, if_neg hx, htable, if_neg fun h => h.2 (hnew h.1), if_neg hx]
  · obtain ⟨hchannel, hgroup⟩ := realizes.newQueue i header words hi
    exact ⟨fun htag side => (filed.queue _).trans (hchannel htag side),
      fun htag => (filed.queue _).trans (hgroup htag)⟩

end Turned

/-- A turn has the effect of the instruction. -/
theorem turned_of_turn? (hm : Run.AtRest m) (hbound : t ≠ m.nextThread) (hrunnable : m.runnable = [])
    {turn : Turn} (hturn : m.turn? program t = some turn) : ∃ l e f, m.resume t = some l ∧ l.Sound ∧
      l.effect? program = some e ∧ turn.progress = e.progress ∧
      turn.ready = e.woken ++ (e.started.toList.map fun _ => m.nextThread) ∧
      Turned m turn.machine t e f := by
  obtain ⟨l, k, hresume, hstep, hready, hmachine⟩ := of_turn? hturn
  have hl : l.Sound := hm.toResting.resume hresume
  have hk : k.Sound := (hl.leaves_step program).of_ok hstep
  have performs : Performs (step program) l (l.effect? program) := hl.performs_step
  obtain ⟨e, f, he, hp, realizes⟩ := performs.of_ok hstep
  obtain ⟨r, hr, hlr⟩ := of_resume hresume
  have hcurrent : k.current = t := by rw [realizes.current, hlr]
  have hgone : k.threads[t]? = none := by
    rw [realizes.table hresume, if_neg fun h => hbound h.1, if_pos rfl]
  have filed := hk.filed hcurrent hgone turn.progress
  rw [← hmachine] at filed
  refine ⟨l, e, f, hresume, hl, he, hp.symm, ?_, realizes.turned hresume hm hbound filed (by rw [hp])⟩
  rw [hready, realizes.runnable, hlr]
  dsimp only
  rw [hrunnable, List.nil_append]

end Machine

end ChannelMachine

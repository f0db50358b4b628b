import ChannelMachine.Proofs.Machine.Turns

/-!
# Threads that wait can go on where they stopped

A thread `Stands` at a place if its next instruction is the one that waits there and its operands are
still on the stack.  The place is `Shut` if that instruction would have to wait.  A thread that stands
at a shut place waits again (`Sound.blocks`), and no instruction of another thread moves it away
(`Stands.carry`): what it stands on is live, so it keeps its kind.

`Passes` tells what an instruction does at places: a thread that leaves a queue is woken, unless the
place itself is gone, and the running thread joins a queue only at a shut place where it stands.  The
sender of an unbuffered channel is the exception: it has passed its send when it joins.
-/

namespace ChannelMachine

/-- The channel that a deal is about. -/
def Deal.channel : Deal → Address
  | .made a _ | .sent _ a _ | .received _ a _ => a

/-- The channel or wait-group of a place. -/
def Place.address : Place → Address
  | .channel _ a | .group a => a

namespace Heap

/-- Whether a thread has to wait at a place. -/
def Shut (h : Heap) : Place → Prop
  | .channel .reader a => h.isEmpty a = true
  | .channel .writer a => h.isFull a = true
  | .channel .sender _ => False
  | .group g => Number.zero.less (h.groupCount g) = true

/-! ## What threads rely on -/

/-- What is live stays in use and of its kind, and channels keep the kind of their elements. -/
structure Carries (h k : Heap) (roots : List Address) : Prop where
  /-- What was live is in use and of its kind. -/
  live : ∀ a, h.Live roots a → k.InUse a ∧ k.tag a = h.tag a
  /-- A recorded kind stays. -/
  kind : ∀ a t, h.Live roots a → h.tag a = .channel → h.elementKind? a = some t →
    k.elementKind? a = some t

namespace Carries

variable {h k : Heap} {roots : List Address}

theorem of_spares {but : Address → Prop} (spares : Spares h k roots but)
    (hbut : ∀ a, h.Live roots a → ¬ but a) : Carries h k roots where
  live := spares.live
  kind := by
    intro a t ha htag ht
    obtain ⟨hin, heq⟩ := spares.live a ha
    have hmeeting : (k.tag a).isMeeting = true := isMeeting_of_tag (heq.trans htag) rfl
    have same := (spares.old a hin hmeeting (hbut a ha)).2
    rw [elementKind?_congr same.header, ht]

theorem refl (hs : h.Sound) (hroots : ∀ a ∈ roots, h.InUse a) : Carries h h roots :=
  .of_spares (.refl hs hroots) fun _ _ => id

theorem of_updated {b : Address} (hs : h.Sound) (hroots : ∀ a ∈ roots, h.InUse a)
    (u : Updated h k b)
    (hkind : ∀ t, h.tag b = .channel → h.elementKind? b = some t → k.elementKind? b = some t) :
    Carries h k roots where
  live := by
    intro a ha
    have hin := hs.inUse_of_live hroots ha
    exact ⟨u.inUse hin, u.tag hin.toIsBlock⟩
  kind := by
    intro a t ha htag ht
    by_cases heq : a = b
    · subst heq
      exact hkind t htag ht
    · have hin := hs.inUse_of_live hroots ha
      rw [elementKind?_congr (u.toWrites.same hin.toIsBlock heq).header, ht]

end Carries

end Heap

namespace Machine

variable {m k : Machine} {program : Program} {p : Progress} {d : Option Deal}

namespace Checked

variable {h k : Heap} {typed : Bool} {a v : Address}

/-- The check of a value leaves a sound heap. -/
theorem updated (check : Checked h k typed a v) (hs : h.Sound) (ha : h.InUse a)
    (htag : h.tag a = .channel) : Heap.Updated h k a := by
  rcases check.eq with rfl | ⟨-, -, kind, rfl⟩
  · exact ⟨.refl k a, rfl, hs⟩
  · exact hs.setElementKind ha htag kind

/-- A kind that was recorded is not replaced. -/
theorem elementKind? (check : Checked h k typed a v) {t : Tag} (ht : h.elementKind? a = some t) :
    k.elementKind? a = some t := by
  rcases check.eq with rfl | ⟨-, hnone, -⟩
  · exact ht
  · rw [hnone] at ht
    cases ht

end Checked

/-- The heap after a channel accepted a value. -/
theorem Sound.updated_sent (hm : m.Sound) {v a : Address} {rest : List Address} {checked : Heap}
    (stack : m.registers.stack = v :: a :: rest) (tag : m.heap.tag a = .channel)
    (check : Checked m.heap checked m.typedChannels a v) :
    Heap.Updated m.heap (checked.channelPush a v) a ∧
      Heap.Updated m.heap checked a ∧ checked.InUse a ∧ checked.tag a = .channel := by
  obtain ⟨hvin, hvalue⟩ := hm.isValue_stack (i := 0) (a := v) (by rw [stack]; rfl)
  have hain := hm.inUse_below stack
  have u := check.updated hm.heap hain tag
  have hin := u.inUse hain
  have htag := (u.tag hain.toIsBlock).trans tag
  have hv : (checked.tag v).isValue = true := (u.tag hvin.toIsBlock).symm ▸ hvalue
  exact ⟨u.trans (u.sound.channelPush hin htag (u.inUse hvin) hv), u, hin, htag⟩

theorem Acts.carries (acts : Acts program m k p d) (hm : m.Sound) :
    m.heap.Carries k.heap m.roots := by
  have hsame : k.heap = m.heap → m.heap.Carries k.heap m.roots := by
    intro heq
    rw [heq]
    exact .refl hm.heap hm.inUse_root
  cases acts with
  | apart _ _ _ _ apart => exact .of_spares apart.heap fun _ _ => id
  | started _ heap => exact hsame heap
  | madeChannel _ _ _ notLive heap =>
    exact .of_spares heap fun b hb heq => notLive (heq ▸ hb)
  | sent _ stack tag _ _ check heap =>
    obtain ⟨u, -, hin, htag⟩ := hm.updated_sent stack tag check
    have hbounds := check.updated hm.heap (hm.inUse_below stack) tag
    rw [heap]
    refine .of_updated hm.heap hm.inUse_root u fun t _ ht => ?_
    obtain ⟨hle, hwrite, -⟩ := hbounds.sound.channel_bounds hin htag
    rw [Heap.elementKind?_congr (Heap.header_channelPush hin.toIsBlock (by omega) _)]
    exact check.elementKind? ht
  | full _ stack tag _ _ check =>
    have hin := hm.inUse_below stack
    exact .of_updated hm.heap hm.inUse_root (check.updated hm.heap hin tag)
      fun t _ ht => check.elementKind? ht
  | received _ stack tag _ _ heap =>
    have hin := hm.inUse_top stack
    obtain ⟨hle, -, hread⟩ := hm.heap.channel_bounds hin tag
    rw [heap]
    refine .of_updated hm.heap hm.inUse_root (hm.heap.channelPop hin tag) fun t _ ht => ?_
    rw [Heap.elementKind?_congr (Heap.header_channelPop hin.toIsBlock (by omega)), ht]
  | empty _ _ _ _ _ heap => exact hsame heap
  | madeGroup _ _ notLive heap => exact .of_spares heap fun b hb heq => notLive (heq ▸ hb)
  | counted _ inUse tag _ _ heap =>
    rw [heap]
    refine .of_updated hm.heap hm.inUse_root (hm.heap.setGroupCount inUse tag _)
      fun t hchannel _ => ?_
    rw [(hm.heap.counter inUse tag).2] at hchannel
    cases hchannel
  | waits _ _ _ _ _ heap => exact hsame heap

/-! ## Standing at a place -/

/-- The next instruction of a thread is the one that waits at a place, with its operands on the
stack. -/
inductive Stands (program : Program) (m : Machine) (r : Registers) : Place → Prop where
  /-- A thread that receives. -/
  | receive {a : Address} {rest : List Address} (instr : program.at? r.pc = some .receive)
      (stack : r.stack = a :: rest) (tag : m.heap.tag a = .channel) :
      Stands program m r (.channel .reader a)
  /-- A thread that sends a value which the channel takes. -/
  | send {v a : Address} {rest : List Address} (instr : program.at? r.pc = some .send)
      (stack : r.stack = v :: a :: rest) (tag : m.heap.tag a = .channel)
      (kind : m.typedChannels = true → m.heap.elementKind? a = some (elementType (m.heap.tag v))) :
      Stands program m r (.channel .writer a)
  /-- A thread that waits for a wait-group. -/
  | wait {g : Address} {rest : List Address} (instr : program.at? r.pc = some .groupWait)
      (stack : r.stack = g :: rest) (tag : m.heap.tag g = .waitGroup) :
      Stands program m r (.group g)

namespace Stands

variable {r : Registers} {place : Place}

/-- A thread that stands at a place knows its channel or wait-group. -/
theorem mem_stack (stands : Stands program m r place) : place.address ∈ r.stack := by
  cases stands with
  | receive _ stack => exact stack ▸ List.mem_cons_self ..
  | send _ stack => exact stack ▸ List.mem_cons_of_mem _ (List.mem_cons_self ..)
  | wait _ stack => exact stack ▸ List.mem_cons_self ..

/-- A thread stands at a channel. -/
theorem tag_channel {side : Side} {a : Address} (stands : Stands program m r (.channel side a)) :
    m.heap.tag a = .channel := by
  cases stands with
  | receive _ _ tag => exact tag
  | send _ _ tag => exact tag

/-- A thread stands where it stood as long as its operands are live. -/
theorem carry (stands : Stands program m r place) {roots : List Address}
    (carries : m.heap.Carries k.heap roots) (hstack : ∀ a ∈ r.stack, m.heap.Live roots a)
    (htyped : k.typedChannels = m.typedChannels) : Stands program k r place := by
  cases stands with
  | @receive a _ instr stack tag =>
    have ha := hstack a (stack ▸ List.mem_cons_self ..)
    exact .receive instr stack ((carries.live a ha).2.trans tag)
  | @send v a _ instr stack tag kind =>
    have hv := hstack v (stack ▸ List.mem_cons_self ..)
    have ha := hstack a (stack ▸ List.mem_cons_of_mem _ (List.mem_cons_self ..))
    refine .send instr stack ((carries.live a ha).2.trans tag) fun h => ?_
    rw [(carries.live v hv).2]
    exact carries.kind a _ ha tag (kind (htyped ▸ h))
  | @wait g _ instr stack tag =>
    have hg := hstack g (stack ▸ List.mem_cons_self ..)
    exact .wait instr stack ((carries.live g hg).2.trans tag)

/-- Only the heap and the configuration count. -/
theorem congr (stands : Stands program m r place) (hheap : k.heap = m.heap)
    (htyped : k.typedChannels = m.typedChannels) : Stands program k r place := by
  cases stands with
  | receive instr stack tag => exact .receive instr stack (hheap ▸ tag)
  | send instr stack tag kind =>
    refine .send instr stack (hheap ▸ tag) ?_
    rw [hheap, htyped]
    exact kind
  | wait instr stack tag => exact .wait instr stack (hheap ▸ tag)

end Stands

/-! ## Waiting again -/

/-- The running thread waits. -/
def Blocks (x : Action Progress) (m : Machine) : Prop :=
  Ensures x m (fun p _ => p = .blocked) fun _ _ => False

theorem blocks_peek {depth : Nat} {a : Address} (ha : m.registers.stack[depth]? = some a)
    {f : Address → Action Progress} (hf : Blocks (f a) m) : Blocks (peek depth >>= f) m := by
  refine .bind (ensures_peek (fun b hb => ?_) fun hnone => ?_)
  · obtain rfl := Option.some.inj (ha.symm.trans hb)
    exact hf
  · rw [ha] at hnone
    cases hnone

/-- The value that a thread stands with passes the check. -/
theorem blocks_checked {a v : Address}
    (kind : m.heap.elementKind? a = some (elementType (m.heap.tag v)))
    {f : Unit → Action Progress} (hf : Blocks (f ()) m) : Blocks (checkElement a v >>= f) m := by
  refine .bind (.bind (ensures_readHeap (.bind (ensures_readHeap ?_))))
  rw [kind]
  dsimp only
  rw [if_neg (fun hne => hne rfl)]
  exact .pure hf

theorem blocks_channel {a : Address} (tag : m.heap.tag a = .channel)
    {f : Unit → Action Progress} (hf : Blocks (f ()) m) : Blocks (needChannel a >>= f) m := by
  refine .bind (.bind (ensures_readHeap ?_))
  rw [if_neg (fun hne => hne tag)]
  exact .pure hf

theorem blocks_receive {a : Address} {rest : List Address}
    (stack : m.registers.stack = a :: rest) (tag : m.heap.tag a = .channel)
    (shut : m.heap.isEmpty a = true) : Blocks receive m := by
  refine blocks_peek (a := a) (by rw [stack]; rfl) (blocks_channel tag ?_)
  refine .bind (ensures_readHeap ?_)
  rw [if_pos shut]
  exact .bind (ensures_update (.pure rfl))

theorem blocks_send {v a : Address} {rest : List Address}
    (stack : m.registers.stack = v :: a :: rest) (tag : m.heap.tag a = .channel)
    (kind : m.typedChannels = true → m.heap.elementKind? a = some (elementType (m.heap.tag v)))
    (shut : m.heap.isFull a = true) : Blocks send m := by
  refine blocks_peek (a := v) (by rw [stack]; rfl) (blocks_peek (a := a) (by rw [stack]; rfl) ?_)
  refine blocks_channel tag (.bind (.get ?_))
  have hrest : Blocks (do
      if ← readHeap (·.isFull a) then
        waitAt .writer a
        return Progress.blocked
      updateHeap (·.channelPush a v)
      replace 2 Heap.undefined
      advance
      wakeAt .reader a
      if ← readHeap (·.isUnbuffered a) then
        waitAt .sender a
        return .blocked
      return .advanced) m := by
    refine .bind (ensures_readHeap ?_)
    rw [if_pos shut]
    exact .bind (ensures_update (.pure rfl))
  split
  next htyped => exact blocks_checked (kind htyped) hrest
  next => exact hrest

theorem blocks_groupWait {g : Address} {rest : List Address}
    (stack : m.registers.stack = g :: rest) (tag : m.heap.tag g = .waitGroup)
    (shut : Number.zero.less (m.heap.groupCount g) = true) : Blocks groupWait m := by
  refine blocks_peek (a := g) (by rw [stack]; rfl) (.bind (.bind (ensures_readHeap ?_)))
  rw [if_neg (fun hne => hne tag)]
  refine .pure (.bind (ensures_readHeap ?_))
  rw [if_pos shut]
  exact .bind (ensures_update (.pure rfl))

/-- A thread that stands at a shut place waits again when it runs. -/
theorem Stands.blocks {place : Place} (stands : Stands program m m.registers place)
    (shut : m.heap.Shut place) : ∃ k, m.step program = .ok .blocked k := by
  have hstep : Blocks (step program) m := by
    refine .bind (ensures_registersNow ?_)
    cases stands with
    | receive instr stack tag =>
      rw [instr]
      exact blocks_receive stack tag shut
    | send instr stack tag kind =>
      rw [instr]
      exact blocks_send stack tag kind shut
    | wait instr stack tag =>
      rw [instr]
      exact blocks_groupWait stack tag shut
  cases hresult : m.step program with
  | ok p k => exact ⟨k, by rw [show p = .blocked from hstep.of_ok hresult]⟩
  | error e k => exact (hstep.of_error hresult).elim

/-! ## What an instruction does at places -/

/-- How threads leave queues, and where the running thread joins one. -/
structure Passes (program : Program) (m k : Machine) (d : Option Deal) (leave : Place → Nat)
    (woken : List ThreadId) (joins : Option Place) : Prop where
  /-- A thread that leaves a queue is woken, or what it waited for is gone. -/
  left : ∀ place, ∀ t ∈ (m.queue place).take (leave place),
    t ∈ woken ∨ ¬ m.heap.Live m.roots place.address
  /-- Only a deal about a channel lets its sender go. -/
  sender : ∀ a, (∀ x, d = some x → x.channel ≠ a) → leave (.channel .sender a) = 0
  /-- The running thread joins a queue at a shut place where it stands, or after an unbuffered
  send. -/
  joined : ∀ place, joins = some place →
    (d = none ∧ m.heap.Shut place ∧ k.registers = m.registers ∧
      Stands program k m.registers place) ∨
    ∃ a v, place = .channel .sender a ∧ d = some (.sent m.current a v) ∧
      m.heap.isUnbuffered a = true
  /-- A thread that stands where it receives does receive or waits. -/
  receives : ∀ a, Stands program m m.registers (.channel .reader a) →
    joins = some (.channel .reader a) ∨ ∃ v, d = some (.received m.current a v)
  /-- A thread that stands where it sends does send or waits. -/
  sends : ∀ a, Stands program m m.registers (.channel .writer a) →
    joins = some (.channel .writer a) ∨ ∃ v, d = some (.sent m.current a v)

/-- A thread that stands where it receives is about to. -/
theorem Stands.instr_reader {r : Registers} {a : Address}
    (stands : Stands program m r (.channel .reader a)) :
    program.at? r.pc = some .receive ∧ ∃ rest, r.stack = a :: rest := by
  cases stands with
  | receive instr stack => exact ⟨instr, _, stack⟩

/-- A thread that stands where it sends is about to. -/
theorem Stands.instr_writer {r : Registers} {a : Address}
    (stands : Stands program m r (.channel .writer a)) :
    program.at? r.pc = some .send ∧ ∃ v rest, r.stack = v :: a :: rest := by
  cases stands with
  | send instr stack => exact ⟨instr, _, _, stack⟩

/-- A thread that is about to send receives from no channel. -/
theorem Stands.not_reader {r : Registers} {a : Address} (instr : program.at? r.pc = some .send) :
    ¬ Stands program m r (.channel .reader a) := by
  intro stands
  obtain ⟨hreceive, -⟩ := stands.instr_reader
  rw [instr] at hreceive
  cases hreceive

/-- A thread that is about to receive sends to no channel. -/
theorem Stands.not_writer {r : Registers} {a : Address} (instr : program.at? r.pc = some .receive) :
    ¬ Stands program m r (.channel .writer a) := by
  intro stands
  obtain ⟨hsend, -⟩ := stands.instr_writer
  rw [instr] at hsend
  cases hsend

section Passing

variable {leave : Place → Nat} {woken : List ThreadId} {joins : Option Place}

/-- The running thread is neither about to send nor about to receive. -/
theorem Passes.of_other (notSend : program.at? m.registers.pc ≠ some .send)
    (notReceive : program.at? m.registers.pc ≠ some .receive)
    (left : ∀ place, ∀ t ∈ (m.queue place).take (leave place),
      t ∈ woken ∨ ¬ m.heap.Live m.roots place.address)
    (sender : ∀ a, (∀ x, d = some x → x.channel ≠ a) → leave (.channel .sender a) = 0)
    (joined : ∀ place, joins = some place → d = none ∧ m.heap.Shut place ∧
      k.registers = m.registers ∧ Stands program k m.registers place) :
    Passes program m k d leave woken joins where
  left := left
  sender := sender
  joined := fun place h => .inl (joined place h)
  receives := fun _ stands => absurd stands.instr_reader.1 notReceive
  sends := fun _ stands => absurd stands.instr_writer.1 notSend

/-- No thread leaves a queue. -/
theorem left_none {place : Place} {t : ThreadId}
    (ht : t ∈ (m.queue place).take (oneFrom [] place)) :
    t ∈ woken ∨ ¬ m.heap.Live m.roots place.address := by
  simp [oneFrom] at ht

end Passing

/-- All that an instruction does to threads and queues. -/
theorem Acts.passes (acts : Acts program m k p d) (hm : m.Sound) :
    ∃ leave woken started joins, Shifts m k p leave woken started joins ∧
      Passes program m k d leave woken joins := by
  have carries := acts.carries hm
  have hstack : ∀ a ∈ m.registers.stack, m.heap.Live m.roots a := fun a ha => Sound.live_stack ha
  have hnone : ∀ t ∈ ([] : List ThreadId), ∃ q, t ∈ (m.queue q).take (oneFrom [] q) :=
    fun _ ht => absurd ht List.not_mem_nil
  cases acts with
  | apart notSend notReceive _ goesOn apart =>
    exact ⟨_, [], [], none, ⟨.of_eq apart.channels apart.groups
        (apart.runnable.trans (List.append_nil _).symm), apart.current, apart.typedChannels,
        by simp [goesOn], hnone, .inl ⟨rfl, apart.threads, apart.nextThread⟩⟩,
      .of_other notSend notReceive (fun _ _ => left_none) (fun _ _ => rfl) nofun⟩
  | started instr _ current threads nextThread typedChannels requeues =>
    exact ⟨_, [], [m.nextThread], none, ⟨requeues, current, typedChannels, by simp, hnone,
      .inr ⟨_, rfl, threads, nextThread⟩⟩, .of_other (by simp [instr]) (by simp [instr])
      (fun _ _ => left_none) (fun _ _ => rfl) nofun⟩
  | @madeChannel a _ instr _ crew notLive _ _ _ requeues =>
    refine ⟨_, [], [], none, crew.shifts requeues (by simp) fun _ ht =>
      absurd ht List.not_mem_nil, .of_other (by simp [instr]) (by simp [instr]) ?_ ?_ nofun⟩
    · intro place t ht
      refine .inr fun hlive => ?_
      by_cases hplace : place ∈ Place.ofChannel a
      · refine notLive ?_
        simp only [Place.ofChannel, List.mem_cons, List.not_mem_nil, or_false] at hplace
        rcases hplace with rfl | rfl | rfl <;> exact hlive
      · simp [allFrom, hplace] at ht
    · intro b hb
      have hne : a ≠ b := hb _ rfl
      simp [allFrom, Place.ofChannel, Ne.symm hne]
  | @sent v a _ _ instr stack tag _ crew _ _ _ requeues =>
    refine ⟨_, _, [], _, crew.shifts requeues ?_ fun t ht => ⟨.channel .reader a, ?_⟩,
      ?_, ?_, ?_, ?_, ?_⟩
    · cases m.heap.isUnbuffered a <;> simp
    · simpa [oneFrom] using ht
    · intro place t ht
      refine .inl ?_
      by_cases hplace : place = .channel .reader a
      · subst hplace
        simpa [oneFrom] using ht
      · simp [oneFrom, hplace] at ht
    · intro b _
      simp [oneFrom]
    · intro place hjoins
      split at hjoins
      next hb => exact .inr ⟨a, v, (Option.some.inj hjoins).symm, rfl, hb⟩
      next => cases hjoins
    · exact fun b stands => absurd stands (Stands.not_reader instr)
    · intro b stands
      obtain ⟨-, _, _, hstack'⟩ := stands.instr_writer
      rw [stack] at hstack'
      cases hstack'
      exact .inr ⟨v, rfl⟩
  | @full v a _ instr stack tag shut crew check registers requeues =>
    have stands : Stands program k m.registers (.channel .writer a) := by
      have ha := (carries.live a (hstack a (by simp [stack]))).2
      refine .send instr stack (ha.trans tag) fun htyped => ?_
      exact check.kind (crew.typedChannels ▸ htyped)
    refine ⟨_, [], [], _, crew.shifts requeues (by simp) hnone, fun _ _ => left_none,
      fun _ _ => rfl, ?_, ?_, ?_⟩
    · rintro place hjoins
      obtain rfl := Option.some.inj hjoins
      exact .inl ⟨rfl, shut, registers, stands⟩
    · exact fun b stands => absurd stands (Stands.not_reader instr)
    · intro b stands
      obtain ⟨-, _, _, hstack'⟩ := stands.instr_writer
      rw [stack] at hstack'
      cases hstack'
      exact .inl rfl
  | @received a _ instr stack tag _ crew _ _ requeues =>
    have hleave : oneFrom (if m.heap.isUnbuffered a = true then
        [.channel .sender a, .channel .writer a] else [.channel .writer a])
        (.channel .writer a) = 1 := by
      split <;> simp [oneFrom]
    refine ⟨_, _, [], none, crew.shifts requeues (by simp) fun t ht => ?_, ?_, ?_, nofun, ?_, ?_⟩
    · rcases List.mem_append.1 ht with ht | ht
      · split at ht
        next hb => exact ⟨.channel .sender a, by simpa [oneFrom, hb] using ht⟩
        next => exact absurd ht List.not_mem_nil
      · exact ⟨.channel .writer a, hleave ▸ ht⟩
    · intro place t ht
      refine .inl (List.mem_append.2 ?_)
      by_cases hwriter : place = .channel .writer a
      · subst hwriter
        rw [hleave] at ht
        exact .inr ht
      · refine .inl ?_
        cases hb : m.heap.isUnbuffered a with
        | true =>
          by_cases hsender : place = .channel .sender a
          · subst hsender
            simpa [oneFrom, hb] using ht
          · simp [oneFrom, hb, hwriter, hsender] at ht
        | false => simp [oneFrom, hb, hwriter] at ht
    · intro b hb
      have hne : a ≠ b := hb _ rfl
      cases m.heap.isUnbuffered a <;> simp [oneFrom, Ne.symm hne]
    · intro b stands
      obtain ⟨-, _, hstack'⟩ := stands.instr_reader
      rw [stack] at hstack'
      cases hstack'
      exact .inr ⟨_, rfl⟩
    · exact fun b stands => absurd stands (Stands.not_writer instr)
  | @empty a _ instr stack tag shut crew heap registers requeues =>
    have stands : Stands program k m.registers (.channel .reader a) :=
      .receive instr stack ((congrArg (·.tag a) heap).trans tag)
    refine ⟨_, [], [], _, crew.shifts requeues (by simp) hnone, fun _ _ => left_none,
      fun _ _ => rfl, ?_, ?_, ?_⟩
    · rintro place hjoins
      obtain rfl := Option.some.inj hjoins
      exact .inl ⟨rfl, shut, registers, stands⟩
    · intro b stands
      obtain ⟨-, _, hstack'⟩ := stands.instr_reader
      rw [stack] at hstack'
      cases hstack'
      exact .inl rfl
    · exact fun b stands => absurd stands (Stands.not_writer instr)
  | @madeGroup a instr crew notLive _ _ _ _ requeues =>
    refine ⟨_, [], [], none, crew.shifts requeues (by simp) fun _ ht =>
      absurd ht List.not_mem_nil, .of_other (by simp [instr]) (by simp [instr]) ?_ ?_ nofun⟩
    · intro place t ht
      refine .inr fun hlive => ?_
      by_cases hplace : place = .group a
      · subst hplace
        exact notLive hlive
      · simp [allFrom, hplace] at ht
    · intro b _
      simp [allFrom]
  | @counted g _ instr _ _ _ crew _ requeues =>
    have notSend : program.at? m.registers.pc ≠ some .send := by
      rcases instr with instr | instr <;> simp [instr]
    have notReceive : program.at? m.registers.pc ≠ some .receive := by
      rcases instr with instr | instr <;> simp [instr]
    split at requeues
    next =>
      refine ⟨_, _, [], none, crew.shifts requeues (by simp) fun t ht => ⟨.group g, ?_⟩,
        .of_other notSend notReceive ?_ ?_ nofun⟩
      · simpa [allFrom] using ht
      · intro place t ht
        by_cases hplace : place = .group g
        · subst hplace
          exact .inl (List.mem_of_mem_take ht)
        · simp [allFrom, hplace] at ht
      · intro b _
        simp [allFrom]
    next =>
      exact ⟨_, [], [], none, crew.shifts requeues (by simp) hnone,
        .of_other notSend notReceive (fun _ _ => left_none) (fun _ _ => rfl) nofun⟩
  | @waits g _ instr stack tag above crew heap registers requeues =>
    have stands : Stands program k m.registers (.group g) :=
      .wait instr stack ((congrArg (·.tag g) heap).trans tag)
    refine ⟨_, [], [], _, crew.shifts requeues (by simp) hnone, .of_other (by simp [instr])
      (by simp [instr]) (fun _ _ => left_none) (fun _ _ => rfl) ?_⟩
    rintro place hjoins
    obtain rfl := Option.some.inj hjoins
    exact ⟨rfl, above, registers, stands⟩

end Machine

end ChannelMachine

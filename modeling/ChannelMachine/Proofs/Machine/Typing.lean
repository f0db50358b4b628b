import ChannelMachine.Proofs.Machine.Mirroring

/-!
# Typed and untyped machines

Of two machines that resemble each other the second one may check the types of elements.  Both do the same
with channels and wait-groups, but for a send: the second machine may refuse the value.  Then it ends in a
fault and stays as it is (`Refuses`).  Otherwise it has recorded a kind at most, and goes on like the
first one.  So a step agrees up to a refusal (`Resembles.agrees_step`).
-/

namespace ChannelMachine.Machine

variable {α β : Type} {m k : Machine} {a v : Address}

/-- A value has the wrong type for a channel, and nothing has happened. -/
def Refuses (x : Action α) (k : Machine) : Prop :=
  ∃ expected got, x k = .error (.channelItemType expected got) k

/-- The second machine does what the first one does, or it refuses a value. -/
def Agrees (x : Action α) (m k : Machine) : Prop := Mirrors Resembles x x m k ∨ Refuses x k

/-- A send whose value was checked. -/
def accept (channel value : Address) : Action Progress := do
  if ← readHeap (·.isFull channel) then
    waitAt .writer channel
    return .blocked
  updateHeap (·.channelPush channel value)
  replace 2 Heap.undefined
  advance
  wakeAt .reader channel
  if ← readHeap (·.isUnbuffered channel) then
    waitAt .sender channel
    return .blocked
  return .advanced

namespace Resembles

/-! ## Queues -/

section Queues

variable (r : Resembles m k)

include r

theorem waitAt (side : Side) (a : Address) :
    Mirrors Resembles (Machine.waitAt side a) (Machine.waitAt side a) m k := by
  refine update ?_
  cases r with
  | intro off like => exact .intro off like

theorem wakeAt (side : Side) (a : Address) :
    Mirrors Resembles (Machine.wakeAt side a) (Machine.wakeAt side a) m k := by
  have hdequeue : Mirrors Resembles
      (modifyGet fun m : Machine =>
        ((m.channels.dequeue side a).1, { m with channels := (m.channels.dequeue side a).2 }) :
        Action (Option ThreadId))
      (modifyGet fun m : Machine =>
        ((m.channels.dequeue side a).1, { m with channels := (m.channels.dequeue side a).2 })) m k := by
    cases r with
    | intro off like => exact .modifyGet rfl (.intro off like)
  refine hdequeue.bind fun t? m' k' r => ?_
  cases t? with
  | none => exact .pure _ r
  | some t => exact r.wake t

theorem needChannel {g : Action β} (hg : m.heap.tag a = .channel → Mirrors Resembles g g m k) :
    Mirrors Resembles (Machine.needChannel a >>= fun _ => g) (Machine.needChannel a >>= fun _ => g)
      m k := by
  unfold Machine.needChannel
  rw [bind_assoc]
  refine readHeap (r.heap.tag a) ?_
  by_cases htag : m.heap.tag a = .channel
  · simp only [htag, ne_eq, not_true_eq_false, if_false, pure_bind]
    exact hg htag
  · simp only [if_pos htag]
    exact .throw_bind _ r

theorem needWaitGroup {g : Action β}
    (hg : m.heap.tag a = .waitGroup → Mirrors Resembles g g m k) :
    Mirrors Resembles (Machine.needWaitGroup a >>= fun _ => g)
      (Machine.needWaitGroup a >>= fun _ => g) m k := by
  unfold Machine.needWaitGroup
  rw [bind_assoc]
  refine readHeap (r.heap.tag a) ?_
  by_cases htag : m.heap.tag a = .waitGroup
  · simp only [htag, ne_eq, not_true_eq_false, if_false, pure_bind]
    exact hg htag
  · simp only [if_pos htag]
    exact .throw_bind _ r

end Queues

/-! ## Channels -/

section Communication

variable (r : Resembles m k) (hm : m.Sound)

include r hm

theorem newChannel (capacity : Nat) :
    Mirrors Resembles (Machine.newChannel capacity) (Machine.newChannel capacity) m k := by
  refine .bind (r.onHeap (r.heap.mirrors_newChannel hm.heap hm.inUse_roots capacity)) fun a m' k' r => ?_
  refine .bind (update ?_) fun _ _ _ r => r.push_advance a
  cases r with
  | intro off like => exact .intro off like

omit hm in
/-- The last step of a send: a thread waits for its value to be taken from an unbuffered channel. -/
theorem sent (a : Address) :
    Mirrors Resembles
      (do
        if ← Machine.readHeap (·.isUnbuffered a) then
          Machine.waitAt .sender a
          return Progress.blocked
        return .advanced)
      (do
        if ← Machine.readHeap (·.isUnbuffered a) then
          Machine.waitAt .sender a
          return Progress.blocked
        return .advanced) m k := by
  refine readHeap (r.heap.isUnbuffered a) ?_
  split
  · exact .bind (r.waitAt .sender a) fun _ _ _ r => .pure _ r
  · exact .pure _ r

theorem accept (ha : m.heap.InUse a) (htag : m.heap.tag a = .channel) (v : Address) :
    Mirrors Resembles (Machine.accept a v) (Machine.accept a v) m k := by
  refine readHeap (r.heap.isFull hm.heap ha htag) ?_
  split
  · exact .bind (r.waitAt .writer a) fun _ _ _ r => .pure _ r
  refine .bind (r.updateHeap (r.heap.channelPush ha v)) fun _ _ _ r => ?_
  refine .bind (r.setRegisters _) fun _ _ _ r => .bind r.advance fun _ _ _ r => ?_
  exact .bind (r.wakeAt .reader a) fun _ _ _ r => r.sent a

theorem receive : Mirrors Resembles Machine.receive Machine.receive m k := by
  refine r.peek fun a ha => r.needChannel fun htag => ?_
  have hin := (hm.isValue_stack ha).1
  refine readHeap (r.heap.isEmpty hm.heap hin htag) ?_
  split
  · exact .bind (r.waitAt .reader a) fun _ _ _ r => .pure _ r
  refine readHeap (r.heap.channelFront hm.heap hin htag) ?_
  refine .bind (r.updateHeap (r.heap.channelPop hin)) fun _ _ _ r => ?_
  refine .bind (r.setRegisters _) fun _ _ _ r => .bind r.advance fun _ m' k' r => ?_
  refine readHeap (r.heap.isUnbuffered a) ?_
  have hwriter : ∀ {m k}, Resembles m k → Mirrors Resembles
      (do Machine.wakeAt .writer a; return Progress.advanced)
      (do Machine.wakeAt .writer a; return Progress.advanced) m k :=
    fun r => .bind (r.wakeAt .writer a) fun _ _ _ r => .pure _ r
  split
  · exact .bind (r.wakeAt .sender a) fun _ _ _ r => hwriter r
  · exact hwriter r

/-! ## Wait-groups -/

theorem newWaitGroup :
    Mirrors Resembles Machine.newWaitGroup Machine.newWaitGroup m k := by
  refine .bind (r.onHeap (r.heap.mirrors_newWaitGroup hm.heap hm.inUse_roots)) fun a m' k' r => ?_
  refine .bind (update ?_) fun _ _ _ r => r.push_advance a
  cases r with
  | intro off like => exact .intro off like

theorem adjust (ha : m.heap.InUse a) (htag : m.heap.tag a = .waitGroup) (delta : Number) :
    Mirrors Resembles (Machine.adjust a delta) (Machine.adjust a delta) m k := by
  refine .get ?_
  rw [r.groups]
  have hrest : Mirrors Resembles
      (do
        let count := (← Machine.readHeap (·.groupCount a)).add delta
        if count.less .zero then throw .negativeWaitGroup
        Machine.updateHeap (·.setGroupCount a count)
        if count.same .zero then
          Machine.update fun m => { m with groups := m.groups.reset a }
          Machine.wakeAll (m.groups.get a))
      (do
        let count := (← Machine.readHeap (·.groupCount a)).add delta
        if count.less .zero then throw .negativeWaitGroup
        Machine.updateHeap (·.setGroupCount a count)
        if count.same .zero then
          Machine.update fun m => { m with groups := m.groups.reset a }
          Machine.wakeAll (m.groups.get a)) m k := by
    refine readHeap (r.heap.groupCount hm.heap ha htag) ?_
    by_cases hless : ((m.heap.groupCount a).add delta).less .zero = true
    · simp only [if_pos hless]
      exact .throw_bind _ r
    simp only [if_neg hless]
    refine .bind (r.updateHeap (r.heap.setGroupCount ha _)) fun _ m' k' r => ?_
    split
    · refine .bind (update ?_) fun _ _ _ r => wakeAll _ r
      cases r with
      | intro off like => exact .intro off like
    · exact .pure _ r
  by_cases hmisuse : Number.zero.less delta = true ∧ m.groups.get a ≠ []
  · simp only [if_pos hmisuse]
    exact .throw_bind _ r
  · simp only [if_neg hmisuse]
    exact hrest

theorem groupAdd : Mirrors Resembles Machine.groupAdd Machine.groupAdd m k := by
  refine r.peek fun delta hdelta => r.peek fun a ha => r.needWaitGroup fun htag => ?_
  refine readHeap (r.heap.number? (isBlock_stack hm hdelta)) ?_
  cases m.heap.number? delta with
  | none =>
    refine readHeap (r.heap.tag delta) ?_
    exact .throw _ r
  | some x => exact .bind (r.adjust hm (hm.isValue_stack ha).1 htag x) fun _ _ _ r => r.replace_advance 2 _

theorem groupDone : Mirrors Resembles Machine.groupDone Machine.groupDone m k := by
  refine r.peek fun a ha => r.needWaitGroup fun htag => ?_
  exact .bind (r.adjust hm (hm.isValue_stack ha).1 htag _) fun _ _ _ r => r.replace_advance 1 _

theorem groupWait : Mirrors Resembles Machine.groupWait Machine.groupWait m k := by
  refine r.peek fun a ha => r.needWaitGroup fun htag => ?_
  refine readHeap (r.heap.groupCount hm.heap (hm.isValue_stack ha).1 htag) ?_
  split
  · refine .bind (update ?_) fun _ _ _ r => .pure _ r
    cases r with
    | intro off like => exact .intro off like
  · exact .bind (r.setRegisters _) fun _ _ _ r => .bind r.advance fun _ _ _ r => .pure _ r

/-! ## The check -/

omit hm in
/-- The check of a value refuses it or records a kind at most. -/
theorem checkElement (ha : m.heap.InUse a) (htag : m.heap.tag a = .channel) (v : Address) :
    Refuses (Machine.checkElement a v) k ∨
      ∃ k', Machine.checkElement a v k = .ok () k' ∧ Resembles m k' := by
  have hcheck : Ensures (Machine.checkElement a v) k (fun _ k' => Resembles m k')
      fun e k' => k' = k ∧ ∃ expected got, e = .channelItemType expected got := by
    refine .bind (ensures_readHeap (.bind (ensures_readHeap ?_)))
    split
    · refine ensures_updateHeap ?_
      cases r with
      | intro off like => exact .intro off (like.record ha htag _)
    · split
      · exact .throw ⟨rfl, _, _, rfl⟩
      · exact .pure r
  cases hresult : Machine.checkElement a v k with
  | ok u k' => exact .inr ⟨k', rfl, hcheck.of_ok hresult⟩
  | error e k' =>
    obtain ⟨rfl, expected, got, rfl⟩ := hcheck.of_error hresult
    exact .inl ⟨expected, got, hresult⟩

end Communication

end Resembles

/-! ## Agreement -/

namespace Agrees

variable (r : Resembles m k)

/-- Both go on with what they find in the heap. -/
theorem readHeap {f : Heap → α} {g : α → Action β} (hf : f k.heap = f m.heap)
    (hg : Agrees (g (f m.heap)) m k) : Agrees (Machine.readHeap f >>= g) m k := by
  rcases hg with hg | ⟨expected, got, hg⟩
  · exact .inl (Resembles.readHeap hf hg)
  · exact .inr ⟨expected, got, by rw [← hf] at hg; exact hg⟩

include r

/-- Both go on with the registers. -/
theorem registersNow {g : Registers → Action β} (hg : Agrees (g m.registers) m k) :
    Agrees (Machine.registersNow >>= g) m k := by
  rcases hg with hg | ⟨expected, got, hg⟩
  · exact .inl (r.registersNow hg)
  · exact .inr ⟨expected, got, by rw [← r.registers] at hg; exact hg⟩

/-- Both go on with an operand, or the stack is too short. -/
theorem peek {depth : Nat} {g : Address → Action β}
    (hg : ∀ a, m.registers.stack[depth]? = some a → Agrees (g a) m k) :
    Agrees (Machine.peek depth >>= g) m k := by
  unfold Machine.peek
  rw [bind_assoc]
  refine registersNow r ?_
  cases h : m.registers.stack[depth]? with
  | none => exact .inl (.throw _ r)
  | some a => exact hg a h

theorem needChannel {g : Action β} (hg : m.heap.tag a = .channel → Agrees g m k) :
    Agrees (Machine.needChannel a >>= fun _ => g) m k := by
  unfold Machine.needChannel
  rw [bind_assoc]
  refine readHeap (r.heap.tag a) ?_
  by_cases htag : m.heap.tag a = .channel
  · simp only [htag, ne_eq, not_true_eq_false, if_false, pure_bind]
    exact hg htag
  · simp only [if_pos htag]
    exact .inl (.throw_bind _ r)

end Agrees

namespace Resembles

/-- A send does the same on both machines, unless the second one refuses the value. -/
theorem agrees_send (r : Resembles m k) (hm : m.Sound) : Agrees send m k := by
  refine .peek r fun v _ => .peek r fun a ha => .needChannel r fun htag => ?_
  have hin := (hm.isValue_stack ha).1
  have hsend : ∀ l : Machine,
      (do
        if (← get).typedChannels then Machine.checkElement a v
        Machine.accept a v : Action Progress) l =
      (if l.typedChannels then (do Machine.checkElement a v; Machine.accept a v)
        else Machine.accept a v : Action Progress) l := fun l => by
    change (if l.typedChannels then _ else _ : Action Progress) l = _
    split <;> rfl
  have hm' := (hsend m).trans (by rw [r.off])
  cases hon : k.typedChannels with
  | false =>
    have hk' := (hsend k).trans (by rw [hon])
    exact .inl ((r.accept hm hin htag v).congr hm' hk')
  | true =>
    have hk' := (hsend k).trans (congrFun (if_pos hon) k)
    rcases r.checkElement hin htag v with ⟨expected, got, hrefused⟩ | ⟨l, hpassed, r⟩
    · refine .inr ⟨expected, got, hk'.trans ?_⟩
      change EStateM.bind _ _ k = _
      rw [EStateM.bind, hrefused]
    · have hbind : (do Machine.checkElement a v; Machine.accept a v : Action Progress) k =
          Machine.accept a v l := by
        change EStateM.bind _ _ k = _
        rw [EStateM.bind, hpassed]
      exact .inl ((r.accept hm hin htag v).congr hm' (hk'.trans hbind))

/-! ## Steps -/

/-- A step does the same on both machines, unless the second one refuses a value. -/
theorem agrees_step (r : Resembles m k) (hm : m.Sound) (hk : k.Sound) (program : Program) :
    Agrees (step program) m k := by
  have hproceed : ∀ {x : Action Unit}, Mirrors Resembles x x m k → Agrees (proceed x) m k :=
    fun hx => .inl (hx.bind fun _ _ _ r => .pure _ r)
  have hhalt : Agrees halt m k := .inl (r.registersNow (.pure _ r))
  refine .registersNow r ?_
  cases program.at? m.registers.pc with
  | none => exact hhalt
  | some i =>
    cases i with
    | constant l => exact hproceed (r.constant hm l)
    | load p => exact hproceed (r.load hm p)
    | store p => exact hproceed (r.store hm p)
    | closure arity entry => exact hproceed (r.closure hm arity entry)
    | call n => exact hproceed (r.call hm hk n false)
    | tailCall n => exact hproceed (r.call hm hk n true)
    | ret => exact hproceed (r.ret hm)
    | enterScope n => exact hproceed (r.enterScope hm n)
    | exitScope => exact hproceed ((r.exitScope hm).bind fun _ _ _ r => r.advance)
    | pop => exact hproceed r.drop
    | unary op => exact hproceed (r.unary hm op)
    | binary op => exact hproceed (r.binary hm op)
    | jumpUnless target => exact hproceed (r.jumpUnless target)
    | jump target => exact hproceed (r.setRegisters _)
    | loopEnd _ => exact hproceed r.advance
    | breakLoop => exact .inl (r.leave hm program true)
    | continueLoop => exact .inl (r.leave hm program false)
    | spawn n => exact hproceed (r.spawn n)
    | endThread => exact .inl (.pure _ r)
    | newChannel capacity => exact hproceed (r.newChannel hm capacity)
    | send => exact r.agrees_send hm
    | receive => exact .inl (r.receive hm)
    | newWaitGroup => exact hproceed (r.newWaitGroup hm)
    | groupAdd => exact hproceed (r.groupAdd hm)
    | groupDone => exact hproceed (r.groupDone hm)
    | groupWait => exact .inl (r.groupWait hm)
    | halt => exact hhalt

end Resembles

/-! ## The end of a run -/

/-- An action that does not end the run. -/
structure GoesOn (x : Action Progress) : Prop where
  /-- There is no final value. -/
  ensures : ∀ m, Ensures x m (fun p _ => ∀ a, p ≠ .finished a) fun _ _ => True

namespace GoesOn

theorem pure {p : Progress} (hp : ∀ a, p ≠ .finished a) : GoesOn (Pure.pure p) := ⟨fun _ => hp⟩

/-- Only what comes last counts. -/
theorem bind {x : Action α} {f : α → Action Progress} (hf : ∀ a, GoesOn (f a)) : GoesOn (x >>= f) := by
  refine ⟨fun m => .bind ?_⟩
  unfold Ensures
  cases x m with
  | ok a k => exact (hf a).ensures k
  | error e k => trivial

theorem throw (e : Fault) : GoesOn (MonadExcept.throw e) := ⟨fun _ => trivial⟩

theorem leave (program : Program) (isBreak : Bool) : GoesOn (leave program isBreak) := by
  refine bind fun r => ?_
  split
  · exact bind fun _ => pure nofun
  · exact throw _
  · exact pure nofun

theorem send : GoesOn send := by
  refine bind fun value => bind fun channel => bind fun _ => bind fun m => ?_
  have hrest : GoesOn (accept channel value) := by
    refine bind fun full => ?_
    split
    · exact bind fun _ => pure nofun
    refine bind fun _ => bind fun _ => bind fun _ => bind fun _ => bind fun unbuffered => ?_
    split
    · exact bind fun _ => pure nofun
    · exact pure nofun
  split
  · exact bind fun _ => hrest
  · exact hrest

theorem receive : GoesOn receive := by
  refine bind fun channel => bind fun _ => bind fun empty => ?_
  split
  · exact bind fun _ => pure nofun
  refine bind fun value => bind fun _ => bind fun _ => bind fun _ => bind fun unbuffered => ?_
  split
  · exact bind fun _ => bind fun _ => pure nofun
  · exact bind fun _ => pure nofun

theorem groupWait : GoesOn groupWait := by
  refine bind fun group => bind fun _ => bind fun count => ?_
  split
  · exact bind fun _ => pure nofun
  · exact bind fun _ => bind fun _ => pure nofun

end GoesOn

/-- The value that ends a run is a node. -/
theorem Sound.ensures_finished (hm : m.Sound) (program : Program) :
    Ensures (step program) m (fun p k => ∀ a, p = .finished a → k.heap.IsBlock a)
      fun _ _ => True := by
  have hhalt : Ensures halt m (fun p k => ∀ a, p = .finished a → k.heap.IsBlock a)
      fun _ _ => True := by
    refine .bind (ensures_registersNow (.pure fun a ha => ?_))
    obtain rfl := Progress.finished.inj ha
    cases hstack : m.registers.stack with
    | nil => exact hm.heap.toIntact.isValue_undefined.1.toIsBlock
    | cons b rest => exact (hm.inUse_top hstack).toIsBlock
  have hgoes : ∀ {x : Action Progress}, GoesOn x →
      Ensures x m (fun p k => ∀ a, p = .finished a → k.heap.IsBlock a) fun _ _ => True :=
    fun hx => (hx.ensures m).mono (fun p _ hp a ha => absurd ha (hp a)) fun _ _ h => h
  refine .bind (ensures_registersNow ?_)
  cases program.at? m.registers.pc with
  | none => exact hhalt
  | some i =>
    cases i with
    | halt => exact hhalt
    | send => exact hgoes .send
    | receive => exact hgoes .receive
    | groupWait => exact hgoes .groupWait
    | breakLoop => exact hgoes (.leave program true)
    | continueLoop => exact hgoes (.leave program false)
    | endThread => exact hgoes (.pure nofun)
    | _ => exact hgoes (.bind fun _ => .pure nofun)

end ChannelMachine.Machine

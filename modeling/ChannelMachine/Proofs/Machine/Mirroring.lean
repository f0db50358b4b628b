import ChannelMachine.Machine.Step
import ChannelMachine.Proofs.Heap.Mirroring
import ChannelMachine.Proofs.Machine.Safety

/-!
# Instructions on machines that resemble each other

`Resembles m k` says that the machine `m` does not check the types of elements, and that `k` is `m` but
for the kinds that it recorded and for whether it checks them.  Nothing but a send looks at either, so
every other instruction does the same on both (`Mirrors`).
-/

namespace ChannelMachine.Machine

variable {α β : Type} {m k : Machine}

/-- The first machine does not check types, and the second one is the first but for the recorded kinds and
for whether it checks them. -/
inductive Resembles (m : Machine) : Machine → Prop where
  /-- The heaps differ in recorded kinds only. -/
  | intro {heap : Heap} {typedChannels : Bool} (off : m.typedChannels = false)
      (like : m.heap.Resembles heap) : Resembles m { m with heap, typedChannels }

theorem onHeap_eq (action : Roots → Heap.Action α) (m : Machine) : onHeap action m =
    match action (threadRoots m.registers m.threads) m.heap with
    | .ok a h => .ok a (m.withHeap h)
    | .error e h => .error e (m.withHeap h) := by
  cases m
  rfl

namespace Resembles

section Fields

variable (r : Resembles m k)

include r

theorem off : m.typedChannels = false := by cases r; assumption

theorem heap : m.heap.Resembles k.heap := by cases r; assumption

theorem registers : k.registers = m.registers := by cases r; rfl

theorem threads : k.threads = m.threads := by cases r; rfl

theorem groups : k.groups = m.groups := by cases r; rfl

theorem runnable : k.runnable = m.runnable := by cases r; rfl

theorem builtins : k.builtins = m.builtins := by cases r; rfl

theorem output : k.output = m.output := by cases r; rfl

theorem journal : k.journal = m.journal := by cases r; rfl

theorem noted (e : Event) : Resembles (m.note e) (k.note e) := by
  cases r with
  | intro off like =>
    unfold note
    dsimp only
    split
    · exact .intro off like
    · exact .intro off like

end Fields

/-! ## Actions -/

variable (r : Resembles m k)

include r

omit r in
/-- An action that is done by both. -/
theorem update {f : Machine → Machine} (hf : Resembles (f m) (f k)) :
    Mirrors Resembles (Machine.update f) (Machine.update f) m k :=
  .modifyGet rfl hf

/-- The registers of both are changed. -/
theorem moved (f : Registers → Registers) :
    Resembles (m.withRegisters (f m.registers)) (k.withRegisters (f k.registers)) := by
  cases r with
  | intro off like => exact .intro off like

theorem setRegisters (f : Registers → Registers) :
    Mirrors Resembles (Machine.setRegisters f) (Machine.setRegisters f) m k :=
  update (r.moved f)

theorem advance : Mirrors Resembles Machine.advance Machine.advance m k := r.setRegisters _

theorem push_advance (a : Address) : Mirrors Resembles (do push a; Machine.advance)
    (do push a; Machine.advance) m k :=
  .bind (r.setRegisters _) fun _ _ _ r => r.advance

theorem replace_advance (n : Nat) (a : Address) :
    Mirrors Resembles (do replace n a; Machine.advance) (do replace n a; Machine.advance) m k :=
  .bind (r.setRegisters _) fun _ _ _ r => r.advance

omit r in
/-- Both go on with what they find in the heap. -/
theorem readHeap {f : Heap → α} {g : α → Action β} (hf : f k.heap = f m.heap)
    (hg : Mirrors Resembles (g (f m.heap)) (g (f m.heap)) m k) :
    Mirrors Resembles (Machine.readHeap f >>= g) (Machine.readHeap f >>= g) m k := by
  have hk : Mirrors Resembles (g (f m.heap)) (g (f k.heap)) m k := hf.symm ▸ hg
  exact hk

theorem updateHeap {f : Heap → Heap} (hf : (f m.heap).Resembles (f k.heap)) :
    Mirrors Resembles (Machine.updateHeap f) (Machine.updateHeap f) m k := by
  refine update ?_
  cases r with
  | intro off => exact .intro off hf

/-- Both go on with the registers. -/
theorem registersNow {g : Registers → Action β}
    (hg : Mirrors Resembles (g m.registers) (g m.registers) m k) :
    Mirrors Resembles (Machine.registersNow >>= g) (Machine.registersNow >>= g) m k := by
  have hk : Mirrors Resembles (g m.registers) (g k.registers) m k := r.registers.symm ▸ hg
  exact hk

/-- Both go on with the operands on top. -/
theorem argumentsNow {n : Nat} {g : List Address → Action β}
    (hg : Mirrors Resembles (g (m.registers.stack.take n).reverse)
      (g (m.registers.stack.take n).reverse) m k) :
    Mirrors Resembles (Machine.argumentsNow n >>= g) (Machine.argumentsNow n >>= g) m k := by
  unfold Machine.argumentsNow
  rw [bind_assoc]
  exact r.registersNow hg

/-- Both go on with an operand, or the stack is too short. -/
theorem peek {depth : Nat} {g : Address → Action β}
    (hg : ∀ a, m.registers.stack[depth]? = some a → Mirrors Resembles (g a) (g a) m k) :
    Mirrors Resembles (Machine.peek depth >>= g) (Machine.peek depth >>= g) m k := by
  unfold Machine.peek
  rw [bind_assoc]
  refine r.registersNow ?_
  cases h : m.registers.stack[depth]? with
  | none => exact .throw _ r
  | some a => exact hg a h

/-- Both go on without the operand on top. -/
theorem pop {g : Address → Action β} (hg : ∀ a m' k', m'.heap = m.heap → Resembles m' k' →
      a ∈ m.registers.stack → Mirrors Resembles (g a) (g a) m' k') :
    Mirrors Resembles (Machine.pop >>= g) (Machine.pop >>= g) m k := by
  unfold Machine.pop
  rw [bind_assoc]
  refine r.registersNow ?_
  cases h : m.registers.stack with
  | nil => exact .throw _ r
  | cons a rest =>
    refine hg a _ _ rfl ?_ (by rw [h]; exact List.mem_cons_self)
    cases r with
    | intro off like => exact .intro off like

/-- The reports of the heaps are moved to the journals. -/
theorem withHeap {h h' : Heap} (like : h.Resembles h') :
    Resembles (m.withHeap h) (k.withHeap h') := by
  have habsorb : (absorb h m.journal).1.Resembles (absorb h' m.journal).1 ∧
      (absorb h' m.journal).2 = (absorb h m.journal).2 := by
    cases like with
    | intro arena =>
      unfold absorb
      dsimp only
      split
      · exact ⟨.intro arena, rfl⟩
      · exact ⟨.intro arena, rfl⟩
  cases r with
  | intro off =>
    unfold Machine.withHeap
    dsimp only
    rw [habsorb.2]
    exact .intro off habsorb.1

/-- An action on the heaps. -/
theorem onHeap {action : Roots → Heap.Action α}
    (h : Mirrors Heap.Resembles (action (threadRoots m.registers m.threads))
      (action (threadRoots m.registers m.threads)) m.heap k.heap) :
    Mirrors Resembles (Machine.onHeap action) (Machine.onHeap action) m k := by
  have hk : threadRoots k.registers k.threads = threadRoots m.registers m.threads := by
    rw [r.registers, r.threads]
  unfold Mirrors
  rw [onHeap_eq, onHeap_eq, hk]
  rcases h.cases with ⟨a, h, h', hm, hk, like⟩ | ⟨e, h, h', hm, hk, like⟩
  · rw [hm, hk]
    exact ⟨rfl, r.withHeap like⟩
  · rw [hm, hk]
    exact ⟨rfl, r.withHeap like⟩

/-! ## Constants and operators -/

variable (hm : m.Sound)

include hm

omit r in
theorem isBlock_stack {i : Nat} {a : Address} (ha : m.registers.stack[i]? = some a) :
    m.heap.IsBlock a := (hm.isValue_stack ha).1.toIsBlock

theorem constant (l : Literal) :
    Mirrors Resembles (Machine.constant l) (Machine.constant l) m k := by
  have hpush : ∀ {action : Roots → Heap.Action Address},
      Mirrors Heap.Resembles (action (threadRoots m.registers m.threads))
        (action (threadRoots m.registers m.threads)) m.heap k.heap →
      Mirrors Resembles (do let a ← Machine.onHeap action; push a; Machine.advance)
        (do let a ← Machine.onHeap action; push a; Machine.advance) m k :=
    fun h => .bind (r.onHeap h) fun a _ _ r => r.push_advance a
  cases l with
  | number x => exact hpush (r.heap.mirrors_newNumber hm.heap hm.inUse_roots x)
  | text s => exact hpush (r.heap.mirrors_newString hm.heap hm.inUse_roots s)
  | bool b => exact r.push_advance _
  | null => exact r.push_advance _
  | undefined => exact r.push_advance _

theorem unary (op : UnaryOp) : Mirrors Resembles (Machine.unary op) (Machine.unary op) m k := by
  refine r.peek fun a ha => .bind (r.onHeap ?_) fun b _ _ r => r.replace_advance 1 b
  exact r.heap.mirrors_applyUnary hm.heap hm.inUse_roots op (isBlock_stack hm ha)

theorem binary (op : BinaryOp) : Mirrors Resembles (Machine.binary op) (Machine.binary op) m k := by
  refine r.peek fun a ha => r.peek fun b hb => .bind (r.onHeap ?_) fun c _ _ r => r.replace_advance 2 c
  exact r.heap.mirrors_applyBinary hm.heap hm.inUse_roots op (isBlock_stack hm hb)
    (isBlock_stack hm ha)

/-! ## Variables, scopes and loops -/

theorem load (p : Position) : Mirrors Resembles (Machine.load p) (Machine.load p) m k := by
  refine r.registersNow (readHeap (r.heap.lookup hm.heap hm.registers.inUse hm.registers.tag p) ?_)
  cases m.heap.lookup m.registers.environment p with
  | error fault => exact .throw _ r
  | ok a =>
    dsimp only
    split
    · exact .throw _ r
    · exact r.push_advance a

theorem store (p : Position) : Mirrors Resembles (Machine.store p) (Machine.store p) m k := by
  refine r.peek fun a _ => r.registersNow (.bind (r.onHeap ?_) fun _ _ _ r => r.advance)
  unfold Mirrors Heap.assign
  rw [r.heap.slotOf? hm.heap hm.registers.inUse]
  cases m.heap.slotOf? m.registers.environment p with
  | none => exact ⟨rfl, r.heap⟩
  | some slot => exact ⟨rfl, r.heap.setWord _ _ _⟩

theorem enterScope (slots : Nat) :
    Mirrors Resembles (Machine.enterScope slots) (Machine.enterScope slots) m k := by
  refine r.registersNow (.bind (r.onHeap ?_) fun nodes _ _ r => r.setRegisters _)
  exact r.heap.mirrors_newScope hm.heap hm.inUse_roots Sound.live_environment hm.registers.tag slots

theorem exitScope : Mirrors Resembles Machine.exitScope Machine.exitScope m k := by
  refine r.registersNow ?_
  cases hframes : m.registers.frames with
  | nil => exact .throw _ r
  | cons frame rest =>
    obtain ⟨hin, -⟩ := hm.registers.frames frame (hframes ▸ List.mem_cons_self)
    have moved := r.moved fun r => { r with frames := rest }
    have hrest : Mirrors Resembles
        (do
          if (← Machine.readHeap (·.tag frame)) = .blockframe then
            let outside ← Machine.readHeap (·.word frame 1)
            Machine.setRegisters fun r => { r with environment := outside }
          else throw (.type .notBlockframe))
        (do
          if (← Machine.readHeap (·.tag frame)) = .blockframe then
            let outside ← Machine.readHeap (·.word frame 1)
            Machine.setRegisters fun r => { r with environment := outside }
          else throw (.type .notBlockframe))
        (m.withRegisters { m.registers with frames := rest })
        (k.withRegisters { k.registers with frames := rest }) := by
      refine readHeap (r.heap.tag frame) ?_
      split
      · refine readHeap (r.heap.word hin.toIsBlock (Nat.le_refl 1) (by decide)) ?_
        exact moved.setRegisters _
      · exact .throw _ moved
    exact hrest

omit r hm in
/-- Scopes are left one after the other. -/
theorem exitScopes (n : Nat) : ∀ {m k : Machine}, Resembles m k → m.Sound →
    Mirrors Resembles (Machine.exitScopes n) (Machine.exitScopes n) m k := by
  induction n with
  | zero => exact fun r _ => .pure () r
  | succ n ih =>
    exact fun r hm => (r.exitScope hm).bind_ensures hm.leaves_exitScope fun _ _ _ hm r => ih r hm

theorem leave (program : Program) (isBreak : Bool) :
    Mirrors Resembles (Machine.leave program isBreak) (Machine.leave program isBreak) m k := by
  refine r.registersNow ?_
  split
  · exact .bind (.bind (exitScopes _ r hm) fun _ _ _ r => r.setRegisters _) fun _ _ _ r => .pure _ r
  · exact .throw _ r
  · exact .pure _ r

omit hm in
theorem drop : Mirrors Resembles Machine.drop Machine.drop m k :=
  r.pop fun _ _ _ _ r _ => r.advance

omit hm in
theorem jumpUnless (target : Nat) :
    Mirrors Resembles (Machine.jumpUnless target) (Machine.jumpUnless target) m k := by
  refine r.pop fun a m' k' _ r _ => readHeap (r.heap.bool? a) ?_
  cases m'.heap.bool? a with
  | none =>
    refine readHeap (r.heap.tag a) ?_
    exact .throw _ r
  | some b =>
    cases b with
    | true => exact r.advance
    | false => exact r.setRegisters _

/-! ## Functions and calls -/

theorem closure (arity entry : Nat) :
    Mirrors Resembles (Machine.closure arity entry) (Machine.closure arity entry) m k := by
  refine r.registersNow (.bind (r.onHeap ?_) fun a _ _ r => r.push_advance a)
  exact r.heap.mirrors_make hm.heap hm.inUse_roots fun a _ _ r => .setWords a _ (r.setPayload a _)

theorem ret : Mirrors Resembles Machine.ret Machine.ret m k := by
  have htag := r.heap.tag
  refine r.registersNow (readHeap (by simp only [htag]) ?_)
  have hframes := hm.registers.frames
  cases hdrop : m.registers.frames.dropWhile fun a => m.heap.tag a ≠ .callframe with
  | nil => exact .bind (r.setRegisters _) fun _ _ _ r => .throw _ r
  | cons call rest =>
    have hmem : call ∈ m.registers.frames :=
      (List.dropWhile_sublist _).mem (hdrop ▸ List.mem_cons_self)
    have hcall : m.heap.tag call = .callframe := by
      have := List.head?_dropWhile_not (fun a => decide (m.heap.tag a ≠ .callframe)) m.registers.frames
      rw [hdrop] at this
      simpa using this
    refine readHeap (r.heap.payload (by rw [hcall]; decide)) (readHeap ?_ (r.setRegisters _))
    exact r.heap.word (hframes call hmem).1.toIsBlock (Nat.le_refl 1) (by decide)

/-! ## Builtins -/

omit r hm in
/-- Texts are printed one after the other, and the heaps stay. -/
theorem printAll (as : List Address) : ∀ {m k : Machine}, Resembles m k →
    (∀ a ∈ as, m.heap.IsBlock a) →
      Mirrors Resembles (Machine.printAll as) (Machine.printAll as) m k := by
  induction as with
  | nil => exact fun r _ => .pure () r
  | cons a rest ih =>
    intro m k r has
    refine readHeap (r.heap.display (has a List.mem_cons_self)) ?_
    have hprint : Ensures (print (m.heap.display a)) m (fun _ m' => m'.heap = m.heap) fun _ _ => True :=
      ensures_update rfl
    refine (update ?_ : Mirrors Resembles (print _) (print _) m k).bind_ensures hprint ?_
    · cases r with
      | intro off like => exact .intro off like
    · intro _ m' k' hheap r
      exact ih r fun b hb => hheap ▸ has b (List.mem_cons_of_mem _ hb)

omit hm in
/-- Both go on with what they find in the heap, or end in the same fault. -/
theorem need {f : Heap → Except Fault α} {g : α → Action β} (hf : f k.heap = f m.heap)
    (hg : ∀ x, f m.heap = .ok x → Mirrors Resembles (g x) (g x) m k) :
    Mirrors Resembles (Machine.need f >>= g) (Machine.need f >>= g) m k := by
  unfold Machine.need
  rw [bind_assoc]
  refine readHeap hf ?_
  cases h : f m.heap with
  | ok x => exact hg x h
  | error fault => exact .throw _ r

/-- A builtin gives the same value. -/
theorem runBuiltin (hk : k.Sound) (b : Builtin) {as : List Address}
    (has : ∀ a ∈ as, m.heap.InUse a) :
    Mirrors Resembles (Machine.runBuiltin b as) (Machine.runBuiltin b as) m k := by
  have hnumber : ∀ x : Number, Mirrors Resembles (Machine.onHeap (Heap.newNumber x))
      (Machine.onHeap (Heap.newNumber x)) m k :=
    fun x => r.onHeap (r.heap.mirrors_newNumber hm.heap hm.inUse_roots x)
  have hblocks : ∀ a ∈ as, m.heap.IsBlock a := fun a ha => (has a ha).toIsBlock
  have harity : ∀ as : List Address, Mirrors Resembles
      (MonadExcept.throw (.arity b.arity as.length) : Action Address)
      (MonadExcept.throw (.arity b.arity as.length)) m k := fun as => .throw _ r
  cases b with
  | print => exact .bind (printAll as r hblocks) fun _ _ _ r => .pure _ r
  | println =>
    refine .bind (printAll as r hblocks) fun _ m' k' r => .bind (update ?_) fun _ _ _ r => .pure _ r
    cases r with
    | intro off like => exact .intro off like
  | len =>
    cases as with
    | nil => exact harity _
    | cons a rest =>
      exact r.need (r.heap.lengthOf hm.heap hk.heap (has a List.mem_cons_self)) fun n _ => hnumber _
  | abs =>
    cases as with
    | nil => exact harity _
    | cons a rest =>
      exact r.need (r.heap.needNumber (hblocks a List.mem_cons_self)) fun x _ => hnumber _
  | min | max =>
    cases as with
    | nil => exact harity _
    | cons a rest =>
      cases rest with
      | nil => exact harity _
      | cons a' rest =>
        exact r.need (r.heap.needNumbers (hblocks a List.mem_cons_self) (hblocks a' (by simp)))
          fun xs _ => hnumber _
  | string =>
    cases as with
    | nil => exact harity _
    | cons a rest =>
      refine readHeap (r.heap.display (hblocks a List.mem_cons_self)) ?_
      exact r.onHeap (r.heap.mirrors_newString hm.heap hm.inUse_roots _)

theorem callBuiltin (hk : k.Sound) (slot n : Nat) (tail : Bool) :
    Mirrors Resembles (Machine.callBuiltin slot n tail) (Machine.callBuiltin slot n tail) m k := by
  refine .get ?_
  rw [r.builtins]
  cases m.builtins[slot]? with
  | none => exact .throw _ r
  | some entry =>
    have hrun : Mirrors Resembles
        (do
          let result ← Machine.runBuiltin entry.action (← Machine.argumentsNow n)
          replace (n + 1) result
          if tail then Machine.ret else Machine.advance)
        (do
          let result ← Machine.runBuiltin entry.action (← Machine.argumentsNow n)
          replace (n + 1) result
          if tail then Machine.ret else Machine.advance) m k := by
      refine r.argumentsNow ?_
      have harguments : ∀ a ∈ (m.registers.stack.take n).reverse, m.heap.InUse a := fun a ha =>
        (hm.registers.stack a (List.mem_of_mem_take (List.mem_reverse.1 ha))).1
      refine (r.runBuiltin hm hk entry.action harguments).bind_ensures
        (hm.ensures_runBuiltin entry.action _) ?_
      rintro a m' k' ⟨hm', ha⟩ r
      have hreplace : Ensures (replace (n + 1) a) m' (fun _ l => l.Sound) fun _ _ => True :=
        ensures_replace (hm'.replaced (n + 1) ha)
      refine (r.setRegisters _).bind_ensures hreplace fun _ _ _ hm' r => ?_
      split
      · exact r.ret hm'
      · exact r.advance
    by_cases harity : entry.arity ≠ n
    · simp only [if_pos harity]
      exact .throw_bind _ r
    · simp only [if_neg harity]
      exact hrun

/-! ## Calls -/

theorem callClosure {a : Address} (ha : a ∈ m.registers.stack) (htag : m.heap.tag a = .closure)
    (n : Nat) (tail : Bool) :
    Mirrors Resembles (Machine.callClosure a n tail) (Machine.callClosure a n tail) m k := by
  have hin := (hm.registers.stack a ha).1
  have hword : ∀ i, 1 ≤ i → i < nodeSize → k.heap.word a i = m.heap.word a i :=
    fun i hpos hlt => r.heap.word hin.toIsBlock hpos hlt
  obtain ⟨-, hcaptured⟩ := hm.heap.word_closure hin htag
  have hblock : m.heap.IsBlock (m.heap.word a 2) :=
    (hm.inUse_of_live (hcaptured _ (Sound.live_stack ha))).toIsBlock
  refine readHeap (hword 1 (by decide) (by decide)) ?_
  by_cases harity : m.heap.word a 1 ≠ n
  · simp only [if_pos harity]
    exact .throw_bind _ r
  simp only [if_neg harity]
  refine readHeap (r.heap.payload (by rw [htag]; decide)) (readHeap (hword 2 (by decide) (by decide)) ?_)
  refine r.argumentsNow ?_
  cases tail with
  | true =>
    refine .bind (r.onHeap (r.heap.mirrors_newArguments hm.heap hm.inUse_roots hblock
      (hm.live_arguments n))) fun inside m' k' r => r.registersNow (readHeap ?_ (r.setRegisters _))
    simp only [r.heap.tag]
  | false =>
    refine r.registersNow (.bind (r.onHeap ?_) fun nodes _ _ r => r.setRegisters _)
    exact r.heap.mirrors_newCall hm.heap hm.inUse_roots _ Sound.live_environment hm.registers.tag
      hblock (hm.live_arguments n)

theorem call (hk : k.Sound) (n : Nat) (tail : Bool) :
    Mirrors Resembles (Machine.call n tail) (Machine.call n tail) m k := by
  refine r.peek fun a ha => readHeap (r.heap.tag a) ?_
  cases htag : m.heap.tag a with
  | builtin =>
    exact readHeap (r.heap.payload (by rw [htag]; decide)) (r.callBuiltin hm hk _ n tail)
  | closure => exact r.callClosure hm (List.mem_of_getElem? ha) htag n tail
  | _ => exact .throw _ r

/-! ## Threads -/

omit hm in
theorem start (registers : Registers) :
    Mirrors Resembles (Machine.start registers) (Machine.start registers) m k := by
  have started : Resembles
      { m with
        threads := m.threads.insert m.nextThread registers
        nextThread := m.nextThread + 1
        runnable := m.runnable ++ [m.nextThread] }
      { k with
        threads := k.threads.insert k.nextThread registers
        nextThread := k.nextThread + 1
        runnable := k.runnable ++ [k.nextThread] } := by
    cases r with
    | intro off like => exact .intro off like
  have noted := started.noted (.spawned m.nextThread m.current)
  refine update ?_
  cases r with
  | intro => exact noted

omit hm in
theorem spawn (n : Nat) : Mirrors Resembles (Machine.spawn n) (Machine.spawn n) m k := by
  refine r.registersNow ?_
  by_cases hlt : m.registers.stack.length < n + 1
  · simp only [if_pos hlt]
    exact .throw_bind _ r
  simp only [if_neg hlt]
  exact .bind (r.start _) fun _ _ _ r => .bind (r.setRegisters _) fun _ _ _ r => r.setRegisters _

omit hm in
theorem wake (t : ThreadId) : Mirrors Resembles (Machine.wake t) (Machine.wake t) m k := by
  have woken : Resembles { m with runnable := m.runnable ++ [t] }
      { k with runnable := k.runnable ++ [t] } := by
    cases r with
    | intro off like => exact .intro off like
  exact update (woken.noted (.woken t))

omit r hm in
theorem wakeAll (ts : List ThreadId) : ∀ {m k : Machine}, Resembles m k →
    Mirrors Resembles (Machine.wakeAll ts) (Machine.wakeAll ts) m k := by
  induction ts with
  | nil => exact fun r => .pure () r
  | cons t rest ih => exact fun r => .bind (r.wake t) fun _ _ _ r => ih r

end Resembles

end ChannelMachine.Machine

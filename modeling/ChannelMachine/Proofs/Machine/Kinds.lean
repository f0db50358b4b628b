import ChannelMachine.Proofs.Machine.Accounts
import ChannelMachine.Proofs.Machine.Composed
import ChannelMachine.Proofs.Machine.Typing

/-!
# The kind of a channel

A typed machine records for each channel the type of the first value that it accepts, and the record is
right at all times (`Typed`): a channel of which nothing is recorded has accepted nothing, and all that
another one accepted is of the recorded type.  That no value of another type gets in is up to the check in
a send, which is refused (`Mismatch`) before anything has happened.  Nothing else is refused for its type.
-/

namespace ChannelMachine

/-- The types of the values that channels accepted, by address, the oldest first. -/
abbrev Elements := Address → List Tag

namespace Elements

/-- Enters what happened to a channel, if anything, whose values lie in a heap. -/
def enter (l : Elements) (h : Heap) : Option Deal → Elements
  | none => l
  | some (.made a _) => fun b => if b = a then [] else l b
  | some (.sent _ a v) => fun b => if b = a then l a ++ [Machine.elementType (h.tag v)] else l b
  | some (.received ..) => l

variable {l : Elements} {h : Heap} {a : Address}

/-- A deal is about one channel only. -/
theorem enter_of_ne {d : Option Deal} (hd : ∀ x, d = some x → x.channel ≠ a) :
    l.enter h d a = l a := by
  match d, hd with
  | none, _ => rfl
  | some (.made _ _), hd => exact if_neg (Ne.symm (hd _ rfl))
  | some (.sent _ _ _), hd => exact if_neg (Ne.symm (hd _ rfl))
  | some (.received _ _ _), _ => rfl

theorem enter_made (capacity : Nat) : l.enter h (some (.made a capacity)) a = [] := if_pos rfl

theorem enter_sent (t : ThreadId) (v : Address) :
    l.enter h (some (.sent t a v)) a = l a ++ [Machine.elementType (h.tag v)] := if_pos rfl

/-- Adding the type that all have keeps a list uniform. -/
theorem uniform_append {ts : List Tag} {t : Tag} (hts : ∀ u ∈ ts, ∀ w ∈ ts, u = w)
    (ht : ∀ u, ts.head? = some u → u = t) : ∀ u ∈ ts ++ [t], ∀ w ∈ ts ++ [t], u = w := by
  have hall : ∀ u ∈ ts ++ [t], u = t := by
    intro u hu
    rcases List.mem_append.1 hu with hu | hu
    · cases ts with
      | nil => cases hu
      | cons first rest => exact (hts u hu first List.mem_cons_self).trans (ht first rfl)
    · exact List.mem_singleton.1 hu
  exact fun u hu w hw => (hall u hu).trans (hall w hw).symm

end Elements

/-- Nothing is recorded of a new channel. -/
theorem Heap.elementKind?_new {h : Heap} {a : Address} {capacity : Nat}
    (hheader : h.header a = channelHeader capacity) : h.elementKind? a = none := by
  have hpayload : h.payload a = channelPayload (capacity == 0) noKind := congrArg Header.payload hheader
  have hcode : (h.payload a).toNat / 256 % 256 = noKind := by
    rw [hpayload, toNat_channelPayload _ (by decide)]
    unfold noKind
    split <;> omega
  rw [elementKind?]
  simp only [hcode, if_true]

namespace Machine

variable {m k : Machine} {program : Program} {p : Progress} {d : Option Deal} {a v : Address}
  {expected got : Tag}

/-! ## Refusals -/

/-- The next instruction sends a value of another type than the recorded one. -/
structure Mismatch (program : Program) (m : Machine) (a v : Address) (expected : Tag) : Prop where
  /-- It is a send. -/
  instr : program.at? m.registers.pc = some .send
  /-- The channel and the value. -/
  stack : ∃ rest, m.registers.stack = v :: a :: rest
  /-- It is a channel. -/
  tag : m.heap.tag a = .channel
  /-- Types are checked. -/
  typed : m.typedChannels = true
  /-- A type is recorded. -/
  kind : m.heap.elementKind? a = some expected
  /-- It is another one. -/
  ne : expected ≠ elementType (m.heap.tag v)

/-- What a send does behind the check does not depend on types. -/
theorem tolerant_accept (a v : Address) : Tolerant (accept a v) := by
  have composed : Composed (· ≠ .compare) (accept a v) := composed_accepting nofun nofun nofun a v
  exact composed.tolerant fun h => h rfl

/-- A value was refused for its type, and nothing has happened. -/
def Mismatched (program : Program) (m : Machine) (e : Fault) (k : Machine) : Prop :=
  k = m ∧ ∃ a v expected, Mismatch program m a v expected ∧
    e = .channelItemType expected (elementType (m.heap.tag v))

/-- The rule for actions that do not tell types apart. -/
theorem ensures_tolerant {α : Type} {x : Action α} {bad : Fault → Machine → Prop} (hx : Tolerant x)
    (k : Machine) : Ensures x k (fun _ _ => True) fun e l => e.isMismatch = true → bad e l :=
  (hx.ensures k).mono (fun _ _ h => h) fun _ _ h he => by rw [h] at he; cases he

/-- A value is refused by a send only, and before anything has happened. -/
theorem ensures_refused (program : Program) (m : Machine) :
    Ensures (step program) m (fun _ _ => True)
      fun e k => e.isMismatch = true → Mismatched program m e k := by
  refine .bind (ensures_registersNow ?_)
  cases instr : program.at? m.registers.pc with
  | none =>
    have composed : Composed (· ≠ .compare) halt := composed_halt
    exact ensures_tolerant (composed.tolerant fun h => h rfl) m
  | some i =>
    by_cases hi : i = .send
    · subst hi
      refine .bind (ensures_peek (fun v hv => ?_) fun _ => nofun)
      refine .bind (ensures_peek (fun a ha => ?_) fun _ => nofun)
      refine .bind (ensures_channel (fun tag => .bind (.get ?_)) fun _ => nofun)
      have hrest : ∀ k, Ensures (accept a v) k (fun _ _ => True)
          fun e l => e.isMismatch = true → Mismatched program m e l :=
        ensures_tolerant (tolerant_accept a v)
      split
      next typed =>
        refine .bind (.bind (ensures_readHeap (.bind (ensures_readHeap ?_))))
        split
        next => exact ensures_updateHeap (hrest _)
        next expected kind =>
          split
          next hne =>
            refine .throw fun _ => ⟨rfl, a, v, expected, ?_, rfl⟩
            exact ⟨instr, exists_top_two hv ha, tag, typed, kind, hne⟩
          next => exact .pure (hrest _)
      next => exact hrest _
    · exact ensures_tolerant (tolerant_execute program hi) m

/-- The rule for an operand that is there. -/
theorem ensures_operand {depth : Nat} {good : Address → Machine → Prop}
    {bad : Fault → Machine → Prop} (ha : m.registers.stack[depth]? = some a) (h : good a m) :
    Ensures (peek depth) m good bad := by
  refine ensures_peek (fun b hb => ?_) fun hnone => ?_
  · obtain rfl := Option.some.inj (ha.symm.trans hb)
    exact h
  · rw [ha] at hnone
    cases hnone

/-- A value of another type than the recorded one is refused. -/
theorem Mismatch.step (mismatch : Mismatch program m a v expected) : m.step program =
    .error (.channelItemType expected (elementType (m.heap.tag v))) m := by
  obtain ⟨rest, hstack⟩ := mismatch.stack
  have hrefused : Ensures (Machine.step program) m (fun _ _ => False) fun e k =>
      e = .channelItemType expected (elementType (m.heap.tag v)) ∧ k = m := by
    refine .bind (ensures_registersNow ?_)
    rw [mismatch.instr]
    refine .bind (ensures_operand (a := v) (by rw [hstack]; rfl) ?_)
    refine .bind (ensures_operand (a := a) (by rw [hstack]; rfl) ?_)
    refine .bind (.bind (ensures_readHeap ?_))
    rw [if_neg (fun hne => hne mismatch.tag)]
    refine .pure (.bind (.get ?_))
    rw [if_pos mismatch.typed]
    refine .bind (.bind (ensures_readHeap (.bind (ensures_readHeap ?_))))
    rw [mismatch.kind]
    dsimp only
    rw [if_pos mismatch.ne]
    exact .throw ⟨rfl, rfl⟩
  cases hresult : m.step program with
  | ok p k => exact (hrefused.of_ok hresult).elim
  | error e k =>
    obtain ⟨rfl, rfl⟩ := hrefused.of_error hresult
    rfl

/-! ## Records -/

/-- A channel that no deal is about is the same node, if a record is there whenever it is full. -/
theorem Acts.sameNode (acts : Acts program m k p d) (hm : m.Sound) (ha : k.heap.InUse a)
    (htag : k.heap.tag a = .channel) (hd : ∀ x, d = some x → x.channel ≠ a)
    (hfull : m.heap.InUse a → m.heap.tag a = .channel → m.heap.isFull a = true →
      m.heap.elementKind? a ≠ none) : m.heap.InUse a ∧ m.heap.SameNode k.heap a := by
  have hsame : k.heap = m.heap → m.heap.InUse a ∧ m.heap.SameNode k.heap a := fun heq => by
    rw [heq] at ha ⊢
    exact ⟨ha, .refl _ a⟩
  have hspares : ∀ {but : Address → Prop}, m.heap.Spares k.heap m.roots but → ¬ but a →
      m.heap.InUse a ∧ m.heap.SameNode k.heap a :=
    fun spares hnot => spares.old a ha (Heap.isMeeting_of_tag htag rfl) hnot
  have hupdated : ∀ {b : Address}, Heap.Updated m.heap k.heap b → b ≠ a →
      m.heap.InUse a ∧ m.heap.SameNode k.heap a := fun u hne => by
    have same := u.toWrites.same (u.toWrites.isBlock.1 ha.toIsBlock) (Ne.symm hne)
    exact ⟨(Heap.InUse.congr u.toWrites.size same.tag).1 ha, same⟩
  cases acts with
  | apart _ _ _ _ apart => exact hspares apart.heap id
  | started _ heap => exact hsame heap
  | madeChannel _ _ _ _ heap => exact hspares heap (Ne.symm (hd _ rfl))
  | sent _ stack tag _ _ check heap =>
    exact hupdated (heap ▸ (hm.updated_sent stack tag check).1) (hd _ rfl)
  | @full v b _ _ stack tag full _ check =>
    have hin := hm.inUse_below stack
    by_cases heq : b = a
    · subst heq
      exact hsame (check.eq.resolve_right fun h => hfull hin tag full h.2.1)
    · exact hupdated (check.updated hm.heap hin tag) heq
  | received _ stack tag _ _ heap =>
    have hin := hm.inUse_top stack
    exact hupdated (heap ▸ hm.heap.channelPop hin tag) (hd _ rfl)
  | empty _ _ _ _ _ heap => exact hsame heap
  | madeGroup _ _ _ heap _ tag =>
    refine hspares heap fun heq => ?_
    rw [heq, tag] at htag
    cases htag
  | counted _ inUse tag _ _ heap =>
    have u : Heap.Updated m.heap k.heap _ := heap ▸ hm.heap.setGroupCount inUse tag _
    refine hupdated u fun heq => ?_
    rw [← heq, u.kind, (hm.heap.counter inUse tag).2] at htag
    cases htag
  | waits _ _ _ _ _ heap => exact hsame heap

/-- The record of a channel right after something happened to it: nothing of a new one, the type of the
value that it accepted, and what it was if it delivered one. -/
theorem Acts.record {x : Deal} (acts : Acts program m k p (some x)) (hm : m.Sound)
    (typed : m.typedChannels = true) :
    (∃ a capacity, x = .made a capacity ∧ k.heap.elementKind? a = none) ∨
      (∃ t a v, x = .sent t a v ∧ m.heap.InUse a ∧ m.heap.tag a = .channel ∧
        k.heap.elementKind? a = some (elementType (m.heap.tag v)) ∧
        ∀ kind, m.heap.elementKind? a = some kind → kind = elementType (m.heap.tag v)) ∨
      ∃ t a v, x = .received t a v ∧ m.heap.InUse a ∧ m.heap.tag a = .channel ∧
        k.heap.elementKind? a = m.heap.elementKind? a := by
  cases acts with
  | @madeChannel a capacity _ _ _ _ _ _ holds =>
    refine .inl ⟨a, capacity, rfl, ?_⟩
    exact Heap.elementKind?_new holds.header
  | @sent v a rest checked _ stack tag _ _ check heap =>
    obtain ⟨hvin, -⟩ := hm.isValue_stack (i := 0) (a := v) (by rw [stack]; rfl)
    obtain ⟨-, u, hin, htag⟩ := hm.updated_sent stack tag check
    obtain ⟨hle, hwrite, -⟩ := u.sound.channel_bounds hin htag
    have hkind : checked.elementKind? a = some (elementType (m.heap.tag v)) := by
      rw [check.kind typed, u.tag hvin.toIsBlock]
    refine .inr (.inl ⟨_, a, v, rfl, hm.inUse_below stack, tag, ?_, fun kind hbefore => ?_⟩)
    · rw [heap, Heap.elementKind?_congr (Heap.header_channelPush hin.toIsBlock (by omega) v), hkind]
    · exact Option.some.inj ((check.elementKind? hbefore).symm.trans hkind)
  | @received a rest _ stack tag _ _ heap =>
    have hin := hm.inUse_top stack
    obtain ⟨hle, -, hread⟩ := hm.heap.channel_bounds hin tag
    refine .inr (.inr ⟨_, a, _, rfl, hin, tag, ?_⟩)
    rw [heap, Heap.elementKind?_congr (Heap.header_channelPop hin.toIsBlock (by omega))]

/-- The records are right: a channel has the type of the values that it accepted, of which there is one,
if any. -/
structure Typed (m : Machine) (l : Elements) : Prop where
  /-- The record is the type of the first value. -/
  kind : ∀ a, m.heap.InUse a → m.heap.tag a = .channel → m.heap.elementKind? a = (l a).head?
  /-- All values have one type, also those of channels that are gone. -/
  uniform : ∀ a, ∀ t ∈ l a, ∀ u ∈ l a, t = u

/-- An instruction of a typed machine keeps the records right. -/
theorem Acts.typed {l : Elements} (acts : Acts program m k p d) (hm : m.Sound)
    (htyped : m.typedChannels = true) (typed : Typed m l)
    (hfull : ∀ a, m.heap.InUse a → m.heap.tag a = .channel → m.heap.isFull a = true → l a ≠ []) :
    Typed k (l.enter m.heap d) := by
  -- The record and the types of a channel that the deal is about, or of one that no deal is about.
  have habout : ∀ x, d = some x → (k.heap.elementKind? x.channel = (l.enter m.heap d x.channel).head? ∧
      ∀ t ∈ l.enter m.heap d x.channel, ∀ u ∈ l.enter m.heap d x.channel, t = u) := by
    rintro x rfl
    rcases acts.record hm htyped with ⟨a, capacity, rfl, hkind⟩ |
      ⟨t, a, v, rfl, hin, htag, hkind, hsame⟩ | ⟨t, a, v, rfl, hin, htag, hkind⟩
    · rw [Deal.channel, Elements.enter_made]
      exact ⟨hkind, fun _ ht => absurd ht List.not_mem_nil⟩
    · rw [Deal.channel, Elements.enter_sent, hkind]
      rw [typed.kind a hin htag] at hsame
      refine ⟨?_, Elements.uniform_append (typed.uniform a) hsame⟩
      cases hl : l a with
      | nil => rfl
      | cons first rest => rw [hl] at hsame; rw [← hsame first rfl]; rfl
    · exact ⟨hkind.trans (typed.kind a hin htag), typed.uniform a⟩
  constructor
  · intro a ha htag
    by_cases hd : ∀ x, d = some x → x.channel ≠ a
    · obtain ⟨hin, same⟩ := acts.sameNode hm ha htag hd fun hin htag full hnone => by
        rw [typed.kind a hin htag, List.head?_eq_none_iff] at hnone
        exact hfull a hin htag full hnone
      rw [Elements.enter_of_ne hd, ← typed.kind a hin (same.tag.symm.trans htag)]
      exact Heap.elementKind?_congr same.header
    · simp only [Classical.not_forall, Classical.not_not] at hd
      obtain ⟨x, hx, rfl⟩ := hd
      exact (habout x hx).1
  · intro a
    by_cases hd : ∀ x, d = some x → x.channel ≠ a
    · rw [Elements.enter_of_ne hd]
      exact typed.uniform a
    · simp only [Classical.not_forall, Classical.not_not] at hd
      obtain ⟨x, hx, rfl⟩ := hd
      exact (habout x hx).2

end Machine

end ChannelMachine

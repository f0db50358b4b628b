import ChannelMachine.Proofs.Meaning.Stepping

/-!
# Scopes and calls on views

What the instructions do that open and close scopes, leave loops, make functions, call them and return
from them.  A call of a builtin that has a value returns at once; a call of a function of the program
goes on with its code.
-/

namespace ChannelMachine

/-- Nodes that would fit could not be made for want of nodes. -/
theorem Heap.Failed.exhausted {h k : Heap} {roots : List Address} {sizes : List Nat} {e : Fault}
    (failed : Failed h k roots sizes e) (hsizes : ∀ n ∈ sizes, 1 ≤ n ∧ n ≤ nodeSize) :
    e = .heapExhausted := by
  rcases failed.cause with he | ⟨n, hn, -, hfits⟩
  · exact he
  · exact absurd (hsizes n hn) hfits

namespace Source

open Machine

/-! ## Larger worlds -/

namespace World

/-- One frame more. -/
def withFrame (w : World) (slots : List (Option Datum)) : World :=
  { w with store := { w.store with frames := w.store.frames ++ [slots] } }

/-- A text more is printed. -/
def print (w : World) (text : String) : World :=
  { w with store := { w.store with output := w.store.output ++ text } }

theorem getElem?_append_of_some {α : Type} {l : List α} {i : Nat} {x : α} (h : l[i]? = some x)
    (rest : List α) : (l ++ rest)[i]? = some x := by
  rw [List.getElem?_append_left (List.getElem?_eq_some_iff.1 h).1, h]

theorem extends_withFrame (w : World) (slots : List (Option Datum)) : w.Extends (w.withFrame slots) :=
  ⟨fun _ _ h => getElem?_append_of_some h _, fun _ _ h => h, fun _ _ h => h⟩

end World

namespace View.Agrees

variable {v : View} {w : World} {ρ : Placing} {m : Machine} {environment : Environment} {a : Address}

theorem frameCount (sees : ρ.Sees m.heap environment a) : m.heap.frameCount a = environment.length := by
  rw [← Heap.length_framesOf, ← sees.frames.length_eq, List.length_reverse]

/-- A new environment with a frame of values. -/
theorem madeEnvironment (agrees : v.Agrees ρ m) (hm : m.Sound) (sees : ρ.Sees m.heap environment a)
    (ha : m.heap.Live m.roots a) {k : Heap} {values : List Nat} {frame inside : Nat}
    (made : Heap.MadeEnvironment m.heap k m.roots a values frame inside)
    {slots : List (Option Datum)}
    (hslots : List.Forall₂ (fun x b => ρ.ShowsVariable m.heap x b ∧ m.heap.Live m.roots b) slots values)
    {l : List String} (hnames : l.length = slots.length) :
    ∃ σ, View.Agrees ⟨v.world.withFrame slots, v.spot⟩ σ (m.withHeap k) ∧
      σ.Sees (m.withHeap k).heap (⟨l, v.world.store.frames.length⟩ :: environment) inside := by
  have hk := agrees.withHeap hm made.toGrows
  have alike := alike_withHeap m k
  have keeps := made.toGrows.keepsAll hm.heap hm.inUse_root
  have same := alike.keepsAll
  have hsees := (sees.keep keeps ha (hm.heap.typed _ (hm.inUse_of_live ha))).keep same trivial
    (made.toGrows.sound.typed _ (made.toGrows.inUse hm.heap hm.inUse_root ha))
  have hlen := hslots.length_eq
  have hframe := made.newFrame.toHolds.of_same made.newFrame.fits (alike.same frame)
  have hsize : (m.withHeap k).heap.size frame = slots.length + 1 := by
    rw [Heap.size, hframe.header, Heap.toNat_size made.newFrame.fits, hlen]
  -- No item had the node of the frame, since the node was not live.
  have hnew : ∀ y, ¬ ((ρ.within (m.heap.Live m.roots)).within fun _ => True) y frame :=
    fun _ hy => made.newFrame.not_live hy.1.2
  have hnumber : ∀ b, ¬ ((ρ.within (m.heap.Live m.roots)).within fun _ => True)
      (.frame v.world.store.frames.length) b := by
    intro b hb
    obtain ⟨_, hslots', -⟩ := hk.placed.holds _ _ hb
    rw [List.getElem?_eq_none (Nat.le_refl _)] at hslots'
    cases hslots'
  refine ⟨_, hk.extend (fun _ _ => .inl) (hk.placed.add (v.world.extends_withFrame slots)
    (alike.inUse.2 made.newFrame.toInUse) hnumber hnew
    ⟨slots, ?_, hframe.tag, hsize, fun j x hx => ?_⟩) rfl, ?_, ?_⟩
  · exact List.getElem?_concat_length
  · have hj := (List.getElem?_eq_some_iff.1 hx).1
    have hj' : j < values.length := hlen ▸ hj
    obtain ⟨hshows, hlive⟩ := hslots.get hj hj'
    rw [List.get_eq_getElem, List.get_eq_getElem, (List.getElem?_eq_some_iff.1 hx).2] at hshows
    rw [hframe.word j _ (List.getElem?_eq_getElem hj')]
    exact ((hshows.keep keeps hlive).keep same trivial).mono fun _ _ => .inl
  · exact (alike.tag inside).trans made.newInside.toHolds.tag
  · have hle := (made.toGrows.sound.typed _ made.newInside.toInUse).le
    rw [((alike.same inside).framesOf hle).2, made.framesOf, List.reverse_cons]
    have hold := hsees.frames
    rw [((alike.same a).framesOf (made.toGrows.sound.typed _
      (made.toGrows.inUse hm.heap hm.inUse_root ha)).le).2, (made.toKeeps.framesOf ha
      (hm.heap.typed _ (hm.inUse_of_live ha)).le).2] at hold
    exact List.rel_append (hold.imp fun _ _ places => ⟨.inl places.1, places.2⟩)
      (.cons ⟨.inr ⟨rfl, rfl⟩, hsize.trans (congrArg (· + 1) hnames.symm)⟩ .nil)

/-- The sizes of a frame and of an environment with this frame. -/
theorem fits {slots : Nat} (sees : ρ.Sees m.heap environment a) (hslots : slots ≤ maxSlots)
    (hdepth : environment.length < maxSlots) :
    ∀ n ∈ [slots + 1, m.heap.frameCount a + 2], 1 ≤ n ∧ n ≤ nodeSize := by
  have hcount := frameCount sees
  unfold maxSlots nodeSize at hslots hdepth
  unfold nodeSize
  intro n hn
  simp only [List.mem_cons, List.not_mem_nil, or_false] at hn
  omega

end View.Agrees

section Steps

variable {program : Program} {w : World} {operands : List Datum} {environment : Environment}
  {returns : List Kont} {pc : Nat} {m : Machine} {ρ : Placing}

/-! ## Scopes -/

/-- Two values that are related as often as there are elements in a list. -/
theorem forall₂_map_replicate {α β γ : Type} {R : α → β → Prop} {x : α} {y : β} (l : List γ)
    (h : R x y) : List.Forall₂ R (l.map fun _ => x) (.replicate l.length y) := by
  induction l with
  | nil => exact .nil
  | cons _ rest ih => exact .cons h ih

theorem steps_enterScope {names : List String} (hi : program.at? pc = some (.enterScope names.length))
    (hslots : names.length ≤ maxSlots) (hdepth : environment.length < maxSlots) :
    Steps program ⟨w, operands, environment, returns, pc⟩
      ⟨w.withFrame (names.map fun _ => none), operands,
        ⟨names, w.store.frames.length⟩ :: environment, .block environment :: returns, pc + 1⟩ := by
  refine steps_of_proceed hi rfl fun m ρ hm agrees => ?_
  refine .bind (ensures_registersNow (.bind (ensures_onHeap ?_)))
  refine (hm.heap.newScope_ensures hm.inUse_roots Sound.live_environment hm.registers.tag
    names.length).mono ?_ ?_
  · rintro ⟨block, inside⟩ k ⟨hblock, frame, made⟩
    have hvalues : List.Forall₂ (fun x b => ρ.ShowsVariable m.heap x b ∧ m.heap.Live m.roots b)
        (names.map fun _ => none) (.replicate names.length Heap.unassigned) :=
      forall₂_map_replicate names ⟨rfl, hm.heap.live_unassigned.1⟩
    obtain ⟨σ, hk, hinside⟩ := agrees.madeEnvironment hm agrees.environment Sound.live_environment
      made hvalues (l := names) (List.length_map _).symm
    have same := (alike_withHeap m k).same block
    refine ensures_setRegisters ⟨σ, hk.withRegisters (t := ⟨operands,
      ⟨names, w.store.frames.length⟩ :: environment, .block environment :: returns, pc + 1⟩)
      hk.operands hinside (.cons ⟨same.tag.trans hblock.toHolds.tag, ?_⟩ hk.returns)
      (congrArg (· + 1) hk.pc)⟩
    rw [same.word 1 (by decide) (by decide), hblock.toHolds.word 0 _ rfl]
    exact hk.environment
  · exact fun e k failed => ⟨failed.exhausted (View.Agrees.fits agrees.environment hslots hdepth),
      agrees.output⟩

/-- The innermost scope is closed. -/
theorem View.Agrees.ensures_exitScope {outside : Environment}
    (agrees : View.Agrees ⟨w, operands, environment, .block outside :: returns, pc⟩ ρ m)
    {good : Unit → Machine → Prop} {bad : Fault → Machine → Prop}
    (h : ∀ k, View.Agrees ⟨w, operands, outside, returns, pc⟩ ρ k → good () k) :
    Ensures exitScope m good bad := by
  have hreturns := agrees.returns
  refine .bind (ensures_registersNow ?_)
  split
  next hnil =>
    rw [hnil] at hreturns
    cases hreturns
  next frame rest hframes =>
    rw [hframes] at hreturns
    obtain ⟨⟨htag, hsees⟩, hrest⟩ := List.forall₂_cons.1 hreturns
    refine .bind (ensures_setRegisters (.bind (ensures_readHeap ?_)))
    rw [show (m.withRegisters { m.registers with frames := rest }).heap = m.heap from rfl, htag,
      if_pos rfl]
    exact .bind (ensures_readHeap (ensures_setRegisters (h _ (agrees.withRegisters
      (t := ⟨operands, outside, returns, pc⟩) agrees.operands hsees hrest agrees.pc))))

theorem steps_exitScope {outside : Environment} (hi : program.at? pc = some .exitScope) :
    Steps program ⟨w, operands, environment, .block outside :: returns, pc⟩
      ⟨w, operands, outside, returns, pc + 1⟩ := by
  refine steps_of_proceed hi rfl fun m ρ hm agrees => ?_
  exact .bind (agrees.ensures_exitScope fun k hk => ensures_advance ⟨ρ, hk.advanced⟩)

/-- What is left of an environment and the frames to return to when some scopes are closed. -/
inductive Unwinds : Nat → Environment → List Kont → Environment → List Kont → Prop where
  /-- No scope is closed. -/
  | refl (environment : Environment) (returns : List Kont) :
      Unwinds 0 environment returns environment returns
  /-- The innermost scope is closed first. -/
  | step {n : Nat} {environment outside environment' : Environment} {returns returns' : List Kont}
      (rest : Unwinds n outside returns environment' returns') :
      Unwinds (n + 1) environment (.block outside :: returns) environment' returns'

theorem Unwinds.ensures_exitScopes {n : Nat} {environment' : Environment} {returns' : List Kont}
    (unwinds : Unwinds n environment returns environment' returns') {m : Machine}
    (agrees : View.Agrees ⟨w, operands, environment, returns, pc⟩ ρ m)
    {good : Unit → Machine → Prop} {bad : Fault → Machine → Prop}
    (h : ∀ k, View.Agrees ⟨w, operands, environment', returns', pc⟩ ρ k → good () k) :
    Ensures (exitScopes n) m good bad := by
  induction unwinds generalizing m with
  | refl => exact .pure (h m agrees)
  | step _ ih => exact .bind (agrees.ensures_exitScope fun k hk => ih hk h)

/-- A loop is left, or goes on with its next round. -/
theorem steps_leave {isBreak : Bool} {exit : LoopExit} {environment' : Environment}
    {returns' : List Kont}
    (hi : program.at? pc = some (if isBreak then .breakLoop else .continueLoop))
    (hfound : program.loopEndAfter pc = .found exit)
    (unwinds : Unwinds exit.closed environment returns environment' returns') :
    Steps program ⟨w, operands, environment, returns, pc⟩
      ⟨w, operands, environment', returns', if isBreak then exit.marker + 1 else exit.next⟩ := by
  refine steps_of hi fun m ρ hm agrees => ?_
  have hexecute : Machine.execute program (if isBreak then .breakLoop else .continueLoop) =
      leave program isBreak := by
    cases isBreak <;> rfl
  have hpc : m.registers.pc = pc := agrees.pc
  rw [hexecute]
  refine .bind (ensures_registersNow ?_)
  rw [hpc, hfound]
  refine .bind (.bind (unwinds.ensures_exitScopes agrees fun k hk => ensures_goTo ?_))
  exact .pure ⟨rfl, ρ, hk.moved _⟩

/-! ## Returning -/

/-- Where a function returns to. -/
structure Return where
  /-- The index. -/
  pc : Nat
  /-- The environment. -/
  environment : Environment
  /-- What the caller returns to. -/
  returns : List Kont

/-- Whether a frame to return to is that of a scope. -/
def Kont.isBlock : Kont → Bool
  | .block _ => true
  | .call .. => false

/-- The innermost call is the one to return from. -/
def ReturnsTo (returns : List Kont) (r : Return) : Prop :=
  returns.dropWhile Kont.isBlock = .call r.pc r.environment :: r.returns

theorem ReturnsTo.block {r : Return} (h : ReturnsTo returns r) (outside : Environment) :
    ReturnsTo (.block outside :: returns) r := h

/-- Related lists are related behind what is dropped. -/
theorem forall₂_dropWhile {α β : Type} {R : α → β → Prop} {p : α → Bool} {q : β → Bool} {l : List α}
    {l' : List β} (h : List.Forall₂ R l l') (hpq : ∀ x y, R x y → p x = q y) :
    List.Forall₂ R (l.dropWhile p) (l'.dropWhile q) := by
  induction h with
  | nil => exact .nil
  | @cons x y l l' hxy rest ih =>
    rw [List.dropWhile_cons, List.dropWhile_cons, hpq x y hxy]
    split
    next => exact ih
    next => exact .cons hxy rest

theorem Placing.Returns.isBlock {h : Heap} {t : Kont} {a : Address} (ht : ρ.Returns h t a) :
    t.isBlock = decide (h.tag a = .blockframe) ∧ t.isBlock = decide (h.tag a ≠ .callframe) := by
  cases t with
  | block environment =>
    rw [ht.1]
    exact ⟨rfl, rfl⟩
  | call pc environment =>
    rw [ht.1]
    exact ⟨rfl, rfl⟩

theorem View.Agrees.ensures_ret {r : Return} (hr : ReturnsTo returns r)
    (agrees : View.Agrees ⟨w, operands, environment, returns, pc⟩ ρ m)
    {good : Unit → Machine → Prop} {bad : Fault → Machine → Prop}
    (h : ∀ k, View.Agrees ⟨w, operands, r.environment, r.returns, r.pc⟩ ρ k → good () k) :
    Ensures ret m good bad := by
  have hreturns := forall₂_dropWhile agrees.returns fun _ _ ht => ht.isBlock.2
  rw [show returns.dropWhile Kont.isBlock = _ from hr] at hreturns
  refine .bind (ensures_registersNow (.bind (ensures_readHeap ?_)))
  split
  next hnil =>
    rw [hnil] at hreturns
    cases hreturns
  next call rest hframes =>
    rw [hframes] at hreturns
    obtain ⟨⟨-, hpc, hsees⟩, hrest⟩ := List.forall₂_cons.1 hreturns
    exact .bind (ensures_readHeap (.bind (ensures_readHeap (ensures_setRegisters
      (h _ (agrees.withRegisters (t := ⟨operands, r.environment, r.returns, r.pc⟩)
        agrees.operands hsees hrest hpc))))))

theorem steps_ret {r : Return} (hi : program.at? pc = some .ret) (hr : ReturnsTo returns r) :
    Steps program ⟨w, operands, environment, returns, pc⟩
      ⟨w, operands, r.environment, r.returns, r.pc⟩ :=
  steps_of_proceed hi rfl fun _ ρ _ agrees => agrees.ensures_ret hr fun _ hk => ⟨ρ, hk⟩

/-! ## Functions -/

/-- What lies on the stack before a call. -/
theorem View.Agrees.called {arguments : List Datum} {d : Datum}
    (agrees : View.Agrees ⟨w, arguments.reverse ++ d :: operands, environment, returns, pc⟩ ρ m) :
    (∃ a, m.registers.stack[arguments.length]? = some a ∧ ρ.Shows m.heap d a) ∧
      List.Forall₂ (ρ.Shows m.heap) arguments
        (m.registers.stack.take arguments.length).reverse ∧
      List.Forall₂ (ρ.Shows m.heap) operands (m.registers.stack.drop (arguments.length + 1)) ∧
      (m.registers.stack.take arguments.length).reverse.length = arguments.length := by
  have hlen : arguments.reverse.length = arguments.length := List.length_reverse
  have htake := List.forall₂_take arguments.length agrees.operands
  have hdrop := List.forall₂_drop (arguments.length + 1) agrees.operands
  rw [List.take_left' hlen] at htake
  rw [← List.drop_drop, List.drop_left' hlen, List.drop_one, List.tail_cons] at hdrop
  refine ⟨agrees.operand ?_, ?_, hdrop, ?_⟩
  · rw [List.getElem?_append_right (Nat.le_of_eq hlen), hlen, Nat.sub_self]
    rfl
  · rw [← List.forall₂_reverse_iff, List.reverse_reverse]
    exact htake
  · rw [List.length_reverse, ← htake.length_eq, hlen]

/-- The arguments of a call are variables of live nodes. -/
theorem View.Agrees.argumentSlots {arguments : List Datum} (hm : m.Sound) {n : Nat}
    (harguments : List.Forall₂ (ρ.Shows m.heap) arguments (m.registers.stack.take n).reverse) :
    List.Forall₂ (fun x b => ρ.ShowsVariable m.heap x b ∧ m.heap.Live m.roots b)
      (arguments.map some) (m.registers.stack.take n).reverse := by
  rw [List.forall₂_map_left_iff]
  exact forall₂_imp_mem harguments fun d a ha hd => ⟨hd, (hm.live_arguments n a ha).1⟩

section Functions

variable {arguments : List Datum} {i : Nat} {f : Function} {entry : Nat}

/-- The rule for a call of a function of the program. -/
theorem View.Agrees.ensures_callClosure
    (agrees : View.Agrees ⟨w, arguments.reverse ++ .function i :: operands, environment, returns, pc⟩
      ρ m) (hm : m.Sound) (hf : w.store.functions[i]? = some f) (hentry : w.entries[i]? = some entry)
    {tail : Bool} {good : Unit → Machine → Prop} {bad : Fault → Machine → Prop}
    (hbad : f.parameters.length ≠ arguments.length →
      bad (.arity f.parameters.length arguments.length) m)
    (h : f.parameters.length = arguments.length → ∀ captured, ρ.Sees m.heap f.environment captured →
      m.heap.tag captured = .environment → m.heap.Live m.roots captured →
      List.Forall₂ (fun x b => ρ.ShowsVariable m.heap x b ∧ m.heap.Live m.roots b)
        (arguments.map some) (m.registers.stack.take arguments.length).reverse →
      Ensures (enterFunction captured entry arguments.length tail) m good bad) :
    Ensures (Machine.call arguments.length tail) m good bad := by
  obtain ⟨⟨a, ha, hfunction⟩, harguments, -, -⟩ := agrees.called
  obtain ⟨f', hf', htag, harity, hsees, hentry'⟩ := agrees.placed.holds _ _ hfunction
  obtain rfl := Option.some.inj (hf'.symm.trans hf)
  obtain rfl : (m.heap.payload a).toNat = entry := Option.some.inj (hentry'.symm.trans hentry)
  refine ensures_call_closure ha htag (hm.ensures_callClosure (List.mem_of_getElem? ha) htag
    (fun hne => ?_) fun heq hctag hclive => ?_)
  · rw [harity] at hne ⊢
    exact hbad hne
  · rw [harity] at heq
    exact h heq _ hsees hctag hclive (View.Agrees.argumentSlots hm harguments)

end Functions

/-! ## Builtins -/

/-- A text is printed. -/
theorem View.Agrees.printed {v : View} (agrees : v.Agrees ρ m) (text : String) :
    View.Agrees ⟨v.world.print text, v.spot⟩ ρ { m with output := m.output ++ text } :=
  ⟨⟨agrees.placed.right_unique, agrees.placed.left_unique, agrees.placed.inUse, fun x a hx =>
      (agrees.placed.holds x a hx).mono (fun _ _ h => h)
        ⟨fun _ _ h => h, fun _ _ h => h, fun _ _ h => h⟩⟩,
    agrees.operands, agrees.environment, agrees.returns, agrees.pc, agrees.builtins, agrees.runnable,
    congrArg (· ++ text) agrees.output⟩

section Builtins

variable {v : View} {arguments : List Datum} {addresses : List Address} {b : Builtin} {d : Datum}
  {text : String}

/-- The machine needs a number as the evaluator does. -/
theorem Placed.needNumber {w : World} {h : Heap} (p : Placed w ρ h) (hs : h.Sound) {a : Address}
    (hd : ρ.Shows h d a) :
    (∀ x, d.needNumber = .ok x → h.needNumber a = .ok x) ∧
      ∀ e, d.needNumber = .error (.fault e) → h.needNumber a = .error e := by
  have htag := p.tag hs hd
  unfold Heap.needNumber
  rw [p.number? hs hd]
  cases d with
  | number x => exact ⟨fun y hy => congrArg Except.ok (Except.ok.inj hy), nofun⟩
  | _ =>
    refine ⟨nofun, fun e he => ?_⟩
    obtain rfl := Stop.fault.inj (Except.error.inj he)
    exact congrArg (fun tag => Except.error (Fault.type (.notNumber tag))) htag

theorem Placed.needNumbers {w : World} {h : Heap} (p : Placed w ρ h) (hs : h.Sound) {a a' : Address}
    {d d' : Datum} (hd : ρ.Shows h d a) (hd' : ρ.Shows h d' a') {α : Type}
    {f : Number → Number → Except Stop α} :
    (∀ z, (do f (← d.needNumber) (← d'.needNumber)) = .ok z →
      ∃ x y, h.needNumbers a a' = .ok (x, y) ∧ f x y = .ok z) ∧
      ∀ e, (do f (← d.needNumber) (← d'.needNumber)) = .error (.fault e) →
        h.needNumbers a a' = .error e ∨ ∃ x y, f x y = .error (.fault e) := by
  obtain ⟨hok, hfault⟩ := p.needNumber hs hd
  obtain ⟨hok', hfault'⟩ := p.needNumber hs hd'
  unfold Heap.needNumbers
  cases hx : d.needNumber with
  | ok x =>
    rw [hok x hx]
    cases hy : d'.needNumber with
    | ok y =>
      rw [hok' y hy]
      exact ⟨fun z hz => ⟨x, y, rfl, hz⟩, fun e he => .inr ⟨x, y, he⟩⟩
    | error stop =>
      refine ⟨nofun, fun e he => ?_⟩
      obtain rfl := Except.error.inj he
      rw [hfault' e hy]
      exact .inl rfl
  | error stop =>
    refine ⟨nofun, fun e he => ?_⟩
    obtain rfl := Except.error.inj he
    rw [hfault e hx]
    exact .inl rfl

theorem ensures_need {α : Type} {f : Heap → Except Fault α} {good : α → Machine → Prop}
    {bad : Fault → Machine → Prop} {x : α} (hx : f m.heap = .ok x) (h : good x m) :
    Ensures (need f) m good bad := by
  refine .bind (ensures_readHeap ?_)
  rw [hx]
  exact .pure h

theorem World.print_empty (w : World) : w.print "" = w := by
  simp [World.print]

/-- A builtin gives its value, and prints what it is to print. -/
theorem View.Agrees.ensures_runBuiltin (agrees : v.Agrees ρ m) (hm : m.Sound)
    (harguments : List.Forall₂ (ρ.Shows m.heap) arguments addresses)
    (h : builtinMeaning b arguments = .ok (d, text)) {good : Address → Machine → Prop}
    {bad : Fault → Machine → Prop}
    (hgood : ∀ a k σ, View.Agrees ⟨v.world.print text, v.spot⟩ σ k → σ.Shows k.heap d a → good a k)
    (hbad : ∀ k : Machine, k.output = m.output → bad .heapExhausted k) :
    Ensures (runBuiltin b addresses) m good bad := by
  have hp := agrees.placed
  -- The builtins that print nothing give a new node.
  have hmakes : text = "" → ∀ {action : Roots → Heap.Action Address}, Makes action m.heap d →
      Ensures (onHeap action) m good bad := by
    rintro rfl action hmakes
    refine agrees.ensures_makes hm hmakes (fun a k σ hk hd => hgood a k σ ?_ hd) hbad
    rw [World.print_empty]
    exact hk
  have hs := hm.heap
  unfold builtinMeaning at h
  split at h
  case h_1 u =>
    obtain ⟨rfl, rfl⟩ := Prod.mk.inj (Except.ok.inj h)
    obtain ⟨a, _, ha, hnil, rfl⟩ := List.forall₂_cons_left_iff.1 harguments
    cases hnil
    have hprinted := agrees.printed (m.heap.display a)
    rw [hp.display hs ha] at hprinted
    refine .bind (.bind (ensures_readHeap (.bind (ensures_update (.pure (.pure ?_))))))
    rw [hp.display hs ha]
    exact hgood _ _ ρ hprinted rfl
  case h_2 u =>
    obtain ⟨rfl, rfl⟩ := Prod.mk.inj (Except.ok.inj h)
    obtain ⟨a, _, ha, hnil, rfl⟩ := List.forall₂_cons_left_iff.1 harguments
    cases hnil
    have hprinted := agrees.printed (m.heap.display a ++ "\n")
    rw [hp.display hs ha] at hprinted
    refine .bind (.bind (ensures_readHeap (.bind (ensures_update (.pure (.bind (ensures_update
      (.pure ?_))))))))
    rw [hp.display hs ha]
    refine hgood _ _ ρ ?_ rfl
    rw [← String.append_assoc] at hprinted
    exact hprinted
  case h_3 t =>
    obtain ⟨rfl, rfl⟩ := Prod.mk.inj (Except.ok.inj h)
    obtain ⟨a, _, ha, hnil, rfl⟩ := List.forall₂_cons_left_iff.1 harguments
    cases hnil
    have hlength : m.heap.lengthOf a = .ok t.utf8ByteSize := by
      unfold Heap.lengthOf
      rw [hp.tag hs ha]
      dsimp only [Datum.tag]
      rw [hp.text? hs ha]
      rfl
    exact .bind (ensures_need hlength (hmakes rfl (makes_newNumber hs _)))
  case h_4 => cases h
  case h_5 u =>
    obtain ⟨a, _, ha, hnil, rfl⟩ := List.forall₂_cons_left_iff.1 harguments
    cases hnil
    obtain ⟨x, hx, h⟩ := exists_of_bind h
    obtain ⟨rfl, rfl⟩ := Prod.mk.inj (Except.ok.inj h)
    exact .bind (ensures_need ((hp.needNumber hs ha).1 x hx) (hmakes rfl (makes_newNumber hs _)))
  case h_6 u u' =>
    obtain ⟨a, _, ha, hrest, rfl⟩ := List.forall₂_cons_left_iff.1 harguments
    obtain ⟨a', _, ha', hnil, rfl⟩ := List.forall₂_cons_left_iff.1 hrest
    cases hnil
    obtain ⟨x, y, hneed, h⟩ := (hp.needNumbers hs ha ha').1 _ h
    obtain ⟨rfl, rfl⟩ := Prod.mk.inj (Except.ok.inj h)
    exact .bind (ensures_need hneed (hmakes rfl (makes_newNumber hs _)))
  case h_7 u u' =>
    obtain ⟨a, _, ha, hrest, rfl⟩ := List.forall₂_cons_left_iff.1 harguments
    obtain ⟨a', _, ha', hnil, rfl⟩ := List.forall₂_cons_left_iff.1 hrest
    cases hnil
    obtain ⟨x, y, hneed, h⟩ := (hp.needNumbers hs ha ha').1 _ h
    obtain ⟨rfl, rfl⟩ := Prod.mk.inj (Except.ok.inj h)
    exact .bind (ensures_need hneed (hmakes rfl (makes_newNumber hs _)))
  case h_8 u =>
    obtain ⟨rfl, rfl⟩ := Prod.mk.inj (Except.ok.inj h)
    obtain ⟨a, _, ha, hnil, rfl⟩ := List.forall₂_cons_left_iff.1 harguments
    cases hnil
    refine .bind (ensures_readHeap ?_)
    rw [hp.display hs ha]
    exact hmakes rfl (makes_newString hs _)
  case h_9 => cases h

/-- The rule for a call of a builtin. -/
theorem View.Agrees.ensures_callBuiltin
    (agrees : View.Agrees ⟨w, arguments.reverse ++ .builtin b :: operands, environment, returns, pc⟩
      ρ m) {tail : Bool} {good : Unit → Machine → Prop} {bad : Fault → Machine → Prop}
    (hbad : b.arity ≠ arguments.length → bad (.arity b.arity arguments.length) m)
    (h : b.arity = arguments.length → List.Forall₂ (ρ.Shows m.heap) arguments
        (m.registers.stack.take arguments.length).reverse →
      Ensures (do
        let result ← runBuiltin b (m.registers.stack.take arguments.length).reverse
        Machine.replace (arguments.length + 1) result
        if tail then ret else advance) m good bad) :
    Ensures (Machine.call arguments.length tail) m good bad := by
  obtain ⟨⟨a, ha, hbuiltin⟩, harguments, -, -⟩ := agrees.called
  obtain ⟨htag, hentry⟩ := agrees.placed.holds _ _ hbuiltin
  have hslot : m.builtins[(m.heap.payload a).toNat]? = some b.entry := by
    rw [agrees.builtins]
    exact hentry
  refine ensures_call_builtin ha htag (Machine.ensures_callBuiltin (fun hnone => ?_)
    (fun entry hsome harity => ?_) fun entry hsome harity => ?_)
  · exact nomatch hslot.symm.trans hnone
  · obtain rfl := Option.some.inj (hslot.symm.trans hsome)
    exact hbad harity
  · obtain rfl := Option.some.inj (hslot.symm.trans hsome)
    exact h harity harguments

end Builtins

end Steps

end Source

end ChannelMachine

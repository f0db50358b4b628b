import ChannelMachine.Proofs.Meaning.Views
import ChannelMachine.Proofs.Source.Enclosing

/-!
# Instructions on views

What the instructions do that push values, work on them, read and assign variables, open and close
scopes, and jump: one lemma for each that takes a view to the next one, and one for each fault that the
evaluator knows.
-/

namespace ChannelMachine.Source

open Machine

/-! ## Making values -/

/-- An action on the heap gives a node of a value. -/
def Makes (action : Roots → Heap.Action Address) (h : Heap) (d : Datum) : Prop :=
  ∀ roots : Roots, (∀ a ∈ roots.get, h.InUse a) →
    Ensures (action roots) h (fun a k => Heap.Grows h k roots.get ∧ ∀ ρ : Placing, ρ.Shows k d a)
      (fun e _ => e = .heapExhausted)

section Makes

variable {h : Heap}

theorem makes_newNumber (hs : h.Sound) (x : Number) : Makes (Heap.newNumber x) h (.number x) := by
  intro roots hroots
  refine (hs.newNumber_ensures hroots x).mono ?_ fun _ _ refused => refused.exhausted
  intro a k made
  refine ⟨made.toGrows, fun ρ => ?_⟩
  change k.number? a = some x
  have htag : k.tag a = .number := made.toHolds.tag
  rw [Heap.number?, if_pos htag, made.toHolds.word 0 _ rfl, UInt64.ofNat_toNat]

theorem makes_newString (hs : h.Sound) (s : String) : Makes (Heap.newString s) h (.text s) := by
  intro roots hroots
  refine (hs.newString_ensures hroots s).mono ?_ fun _ _ refused => refused.1.exhausted
  exact fun a k hastext => ⟨hastext.toGrows, fun _ => hastext.has⟩

end Makes

section Rules

variable {v : View} {ρ : Placing} {m : Machine} {d : Datum} {a : Address} {α : Type}
  {bad : Fault → Machine → Prop}

/-- The rule for an action on the heap that gives a node of a value. -/
theorem View.Agrees.ensures_makes (agrees : v.Agrees ρ m) (hm : m.Sound)
    {action : Roots → Heap.Action Address} (h : Makes action m.heap d)
    {good : Address → Machine → Prop}
    (hgood : ∀ a k σ, v.Agrees σ k → σ.Shows k.heap d a → good a k)
    (hbad : ∀ k : Machine, k.output = m.output → bad .heapExhausted k) :
    Ensures (onHeap action) m good bad := by
  refine ensures_onHeap ((h (threadRoots m.registers m.threads) hm.inUse_root).mono ?_ ?_)
  · rintro a k ⟨g, shows⟩
    have same := (alike_withHeap m k).keepsAll
    refine hgood a _ _ (agrees.withHeap hm g) ?_
    exact ((shows _).keep same trivial).mono fun _ _ h => h
  · rintro e k rfl
    exact hbad _ rfl

/-- The rule for a value that takes the place of some operands. -/
theorem View.Agrees.ensures_replace (agrees : v.Agrees ρ m) (n : Nat) (hd : ρ.Shows m.heap d a) :
    Ensures (do replace n a; advance) m
      (fun _ k => ∃ σ, View.Agrees ⟨v.world, { v.spot with
        operands := d :: v.spot.operands.drop n, pc := v.spot.pc + 1 }⟩ σ k) bad :=
  .bind (Machine.ensures_replace (ensures_advance ⟨ρ, (agrees.replaced n hd).advanced⟩))

/-- The rule for a value that is pushed. -/
theorem View.Agrees.ensures_push (agrees : v.Agrees ρ m) (hd : ρ.Shows m.heap d a) :
    Ensures (do push a; advance) m
      (fun _ k => ∃ σ, View.Agrees ⟨v.world, { v.spot with
        operands := d :: v.spot.operands, pc := v.spot.pc + 1 }⟩ σ k) bad :=
  agrees.ensures_replace 0 hd

/-- The operand at a depth holds the value there. -/
theorem View.Agrees.operand (agrees : v.Agrees ρ m) {i : Nat} (hd : v.spot.operands[i]? = some d) :
    ∃ a, m.registers.stack[i]? = some a ∧ ρ.Shows m.heap d a := by
  have hlt := (List.getElem?_eq_some_iff.1 hd).1
  have hlt' := agrees.operands.length_eq ▸ hlt
  refine ⟨m.registers.stack[i], List.getElem?_eq_getElem hlt', ?_⟩
  have hshows := agrees.operands.get hlt hlt'
  rwa [List.get_eq_getElem, List.get_eq_getElem, (List.getElem?_eq_some_iff.1 hd).2] at hshows

/-- The rule for an operand. -/
theorem View.Agrees.ensures_peek (agrees : v.Agrees ρ m) {i : Nat}
    (hd : v.spot.operands[i]? = some d) {good : Address → Machine → Prop}
    (h : ∀ a, m.registers.stack[i]? = some a → ρ.Shows m.heap d a → good a m) :
    Ensures (peek i) m good bad := by
  obtain ⟨a, ha, hshows⟩ := agrees.operand hd
  refine Machine.ensures_peek (fun b hb => ?_) fun hnone => ?_
  · obtain rfl := Option.some.inj (ha.symm.trans hb)
    exact h a ha hshows
  · rw [ha] at hnone
    cases hnone

/-- The rule for an operand that is popped. -/
theorem View.Agrees.ensures_pop {w : World} {t : Spot} {rest : List Datum}
    (agrees : View.Agrees ⟨w, { t with operands := d :: rest }⟩ ρ m)
    {good : Address → Machine → Prop}
    (h : ∀ a k, View.Agrees ⟨w, { t with operands := rest }⟩ ρ k → ρ.Shows k.heap d a →
      k.heap = m.heap → k.output = m.output → good a k) : Ensures pop m good bad := by
  have hoperands := agrees.operands
  refine Machine.ensures_pop (fun a stack hstack => ?_) fun hnil => ?_
  · rw [hstack] at hoperands
    obtain ⟨hd, hrest⟩ := List.forall₂_cons.1 hoperands
    exact h a _ (agrees.withRegisters (t := { t with operands := rest }) hrest
      agrees.environment agrees.returns agrees.pc) hd rfl rfl
  · rw [hnil] at hoperands
    cases hoperands

end Rules

/-! ## Operators -/

section Operators

variable {w : World} {ρ : Placing} {h : Heap} {a b : Address} {v u d : Datum}

/-- What two values are to an operation. -/
def Datum.operands : Datum → Datum → Operands
  | .number x, .number y => .numbers x y
  | .text s, .text t => .texts s t
  | _, _ => .other

theorem Placed.operands (p : Placed w ρ h) (hs : h.Sound) (hv : ρ.Shows h v a)
    (hu : ρ.Shows h u b) : h.operands a b = v.operands u := by
  unfold Heap.operands
  rw [p.number? hs hv, p.number? hs hu, p.text? hs hv, p.text? hs hu]
  cases v with
  | number x => cases u <;> rfl
  | text s => cases u <;> rfl
  | _ => cases u <;> rfl

theorem Placed.badOperands (p : Placed w ρ h) (hs : h.Sound) (hv : ρ.Shows h v a)
    (hu : ρ.Shows h u b) (op : BinaryOp) :
    h.badOperands op a b = .type (.badOperands op v.tag u.tag) := by
  rw [Heap.badOperands, p.tag hs hv, p.tag hs hu]

end Operators

/-! ## Instructions on values -/

section Steps

variable {program : Program} {w : World} {operands : List Datum} {environment : Environment}
  {returns : List Kont} {pc : Nat} {v u d : Datum}

theorem steps_jump {target : Nat} (hi : program.at? pc = some (.jump target)) :
    Steps program ⟨w, operands, environment, returns, pc⟩
      ⟨w, operands, environment, returns, target⟩ :=
  steps_of_proceed hi rfl fun _ ρ _ agrees => ensures_goTo ⟨ρ, agrees.moved target⟩

theorem steps_jumpUnless {target : Nat} (hi : program.at? pc = some (.jumpUnless target))
    (test : Bool) :
    Steps program ⟨w, .bool test :: operands, environment, returns, pc⟩
      ⟨w, operands, environment, returns, if test then pc + 1 else target⟩ := by
  refine steps_of_proceed hi rfl fun m ρ hm agrees => ?_
  refine .bind (agrees.ensures_pop (t := ⟨operands, environment, returns, pc⟩)
    fun a k hk hd hheap _ => .bind (ensures_readHeap ?_))
  rw [hk.placed.bool? (hheap ▸ hm.heap) hd]
  cases test with
  | true => exact ensures_advance ⟨ρ, hk.advanced⟩
  | false => exact ensures_goTo ⟨ρ, hk.moved target⟩

theorem faults_jumpUnless {target : Nat} (hi : program.at? pc = some (.jumpUnless target))
    {cause : Fault} (hv : v.truth = .error (.fault cause)) :
    Faults program ⟨w, v :: operands, environment, returns, pc⟩ cause := by
  refine faults_of_proceed hi rfl fun m ρ hm agrees => ?_
  refine .bind (agrees.ensures_pop (t := ⟨operands, environment, returns, pc⟩)
    fun a k hk hd hheap houtput => .bind (ensures_readHeap ?_))
  have hk' : k.heap.Sound := hheap ▸ hm.heap
  have htag := hk.placed.tag hk' hd
  rw [hk.placed.bool? hk' hd]
  cases v with
  | bool b => cases hv
  | _ =>
    refine .bind (ensures_readHeap (.throw ⟨?_, houtput.trans agrees.output⟩))
    rw [htag]
    exact Stop.fault.inj (Except.error.inj hv)

/-! ## Variables -/

/-- The slot of a variable is one of the frame of its layer. -/
theorem View.Agrees.slotOf? {v : View} {ρ : Placing} {m : Machine} (agrees : v.Agrees ρ m)
    {p : Position} {layer : Layer} (hlayer : v.spot.environment.reverse[p.frame]? = some layer)
    (hslot : p.slot < layer.names.length) :
    ∃ frame, ρ (.frame layer.frame) frame ∧ m.heap.size frame = layer.names.length + 1 ∧
      m.heap.slotOf? m.registers.environment p = some (frame, p.slot + 1) := by
  have hlt := (List.getElem?_eq_some_iff.1 hlayer).1
  have hlt' := agrees.environment.frames.length_eq ▸ hlt
  have hcount := hlt'
  rw [Heap.length_framesOf] at hcount
  have hplaces := agrees.environment.frames.get hlt hlt'
  have hframe := Heap.getElem?_framesOf hcount
  rw [List.get_eq_getElem, List.get_eq_getElem, (List.getElem?_eq_some_iff.1 hlayer).2,
    (List.getElem?_eq_some_iff.1 hframe).2] at hplaces
  obtain ⟨hplaced, hsize⟩ := hplaces
  obtain ⟨_, -, htag, -⟩ := agrees.placed.holds _ _ hplaced
  refine ⟨_, hplaced, hsize, ?_⟩
  unfold Heap.slotOf?
  rw [if_pos hcount]
  exact if_pos ⟨htag, hsize ▸ Nat.succ_lt_succ hslot⟩

/-- A variable is what the world says. -/
theorem View.Agrees.lookup {v : View} {ρ : Placing} {m : Machine} (agrees : v.Agrees ρ m)
    {p : Position} {layer : Layer} (hlayer : v.spot.environment.reverse[p.frame]? = some layer)
    (hslot : p.slot < layer.names.length) {x : Option Datum}
    (hx : v.world.store.slot? layer.frame p.slot = some x) :
    ∃ a, m.heap.lookup m.registers.environment p = .ok a ∧ ρ.ShowsVariable m.heap x a := by
  obtain ⟨frame, hframe, -, hslot⟩ := agrees.slotOf? hlayer hslot
  obtain ⟨slots, hslots, -, -, hword⟩ := agrees.placed.holds _ _ hframe
  refine ⟨m.heap.word frame (p.slot + 1), ?_, hword p.slot x ?_⟩
  · unfold Heap.lookup
    rw [hslot]
  · rw [Store.slot?, hslots] at hx
    exact hx

end Steps

end ChannelMachine.Source

import ChannelMachine.Proofs.Decimal.Order
import ChannelMachine.Proofs.Text.Bytes
import ChannelMachine.Proofs.Run.Ledger

/-!
# Comparisons

Two numbers are compared by their values, and two texts by their bytes, whichever nodes hold them
(`Run.comparisons_by_value`).  Equality looks at the nodes first.  That does no harm to texts, which have one node
each, nor to numbers that have a value.  But NaN is equal to itself where both operands are one node
(`Run.equals_itself`).
-/

namespace ChannelMachine

/-! ## Values -/

namespace BinaryOp

/-- Whether an operation is a comparison. -/
def isComparison : BinaryOp → Bool
  | .lt | .le | .gt | .ge | .eq | .ne => true
  | _ => false

/-- What a comparison says of two values that are in an order. -/
def holds {α : Type*} [LinearOrder α] (op : BinaryOp) (p q : α) : Bool :=
  match op with
  | .lt => p < q
  | .le => p ≤ q
  | .gt => q < p
  | .ge => q ≤ p
  | .eq => p = q
  | .ne => p ≠ q
  | _ => false

/-- What a comparison says of values that there may not be.  Without both of them, there is no order,
and they are not equal. -/
def holdsOf {α : Type*} [LinearOrder α] (op : BinaryOp) : Option α → Option α → Bool
  | some p, some q => op.holds p q
  | _, _ => op = .ne

section

variable {α : Type*} [LinearOrder α] {op : BinaryOp}

theorem eq_holds_iff (p q : α) : BinaryOp.eq.holds p q = true ↔ p = q := decide_eq_true_iff

theorem holds_ne (p q : α) : BinaryOp.ne.holds p q = !BinaryOp.eq.holds p q := by
  simp [holds]

theorem holds_eq (p q : α) : BinaryOp.eq.holds p q = (BinaryOp.le.holds p q && BinaryOp.ge.holds p q) := by
  simp [holds, le_antisymm_iff]

theorem holdsOf_ne (p q : Option α) : BinaryOp.ne.holdsOf p q = !BinaryOp.eq.holdsOf p q := by
  cases p with
  | none => rfl
  | some p =>
    cases q with
    | none => rfl
    | some q => exact holds_ne p q

theorem holdsOf_eq (p q : Option α) :
    BinaryOp.eq.holdsOf p q = (BinaryOp.le.holdsOf p q && BinaryOp.ge.holdsOf p q) := by
  cases p with
  | none => rfl
  | some p =>
    cases q with
    | none => rfl
    | some q => exact holds_eq p q

theorem holdsOf_none {p q : Option α} (h : p = none ∨ q = none) (hop : op ≠ .ne) :
    op.holdsOf p q = false := by
  rcases h with rfl | rfl
  · exact decide_eq_false hop
  · cases p <;> exact decide_eq_false hop

end

/-- The orderings of numbers are those of their values. -/
theorem comparesNumbers_eq {op : BinaryOp} (hop : op = .lt ∨ op = .le ∨ op = .gt ∨ op = .ge)
    (x y : Number) : op.comparesNumbers x y = op.holdsOf x.value? y.value? := by
  by_cases h : x.isNaN = true ∨ y.isNaN = true
  · have hnone : x.value? = none ∨ y.value? = none := by
      rwa [Number.value?_eq_none, Number.value?_eq_none]
    obtain ⟨hless, hmost, -⟩ := Number.unordered h
    obtain ⟨hless', hmost', -⟩ := Number.unordered h.symm
    rcases hop with rfl | rfl | rfl | rfl
    · rw [holdsOf_none hnone (by decide)]; exact hless
    · rw [holdsOf_none hnone (by decide)]; exact hmost
    · rw [holdsOf_none hnone (by decide)]; exact hless'
    · rw [holdsOf_none hnone (by decide)]; exact hmost'
  · rw [not_or, Bool.not_eq_true, Bool.not_eq_true] at h
    obtain ⟨p, hp⟩ := Number.exists_value? h.1
    obtain ⟨q, hq⟩ := Number.exists_value? h.2
    rw [hp, hq, Bool.eq_iff_iff]
    rcases hop with rfl | rfl | rfl | rfl
    · exact (Number.less_iff hp hq).trans decide_eq_true_iff.symm
    · exact (Number.atMost_iff hp hq).trans decide_eq_true_iff.symm
    · exact (Number.less_iff hq hp).trans decide_eq_true_iff.symm
    · exact (Number.atMost_iff hq hp).trans decide_eq_true_iff.symm

/-- The orderings of texts are those of their bytes. -/
theorem comparesTexts_eq {op : BinaryOp} (hop : op = .lt ∨ op = .le ∨ op = .gt ∨ op = .ge)
    (s t : String) : op.comparesTexts s t = op.holds (Text.octets s) (Text.octets t) := by
  have hlt := Text.octets_lt_iff (s := s) (t := t)
  have hlt' := Text.octets_lt_iff (s := t) (t := s)
  rcases hop with rfl | rfl | rfl | rfl <;> simp [comparesTexts, holds, hlt, hlt', ← not_lt]

end BinaryOp

/-- Numbers are the same where their values are. -/
theorem Number.same_eq_holdsOf (x y : Number) : x.same y = BinaryOp.eq.holdsOf x.value? y.value? := by
  rw [same_eq, BinaryOp.holdsOf_eq, ← BinaryOp.comparesNumbers_eq (by decide),
    ← BinaryOp.comparesNumbers_eq (by decide)]
  rfl

/-! ## Nodes -/

namespace Heap

variable {h : Heap} {a b : Address} {op : BinaryOp} {x y : Number} {s t : String}

/-- A comparison of two nodes has this answer, and makes no node. -/
def Answers (h : Heap) (op : BinaryOp) (a b : Address) (answer : Bool) : Prop :=
  ∀ roots : Roots, applyBinary op a b roots h = .ok (boolean answer) h

theorem Answers.unique {answer answer' : Bool} (first : h.Answers op a b answer)
    (second : h.Answers op a b answer') : answer = answer' := by
  have heq := (first noRoots).symm.trans (second noRoots)
  injection heq with hboolean
  revert hboolean
  cases answer <;> cases answer' <;> decide

theorem answers_eq (h : Heap) (a b : Address) : h.Answers .eq a b (h.sameValue a b) := fun _ => rfl

theorem answers_ne (h : Heap) (a b : Address) : h.Answers .ne a b (!h.sameValue a b) := fun _ => rfl

theorem operands_numbers (hx : h.number? a = some x) (hy : h.number? b = some y) :
    h.operands a b = .numbers x y := by
  rw [operands, hx, hy]

theorem number?_of_text? (hs : h.text? a = some s) : h.number? a = none := by
  rw [text?] at hs
  split at hs
  next htag => rw [number?, htag, if_neg (by decide)]
  next => cases hs

theorem operands_texts (hs : h.text? a = some s) (ht : h.text? b = some t) :
    h.operands a b = .texts s t := by
  rw [operands, number?_of_text? hs, hs, ht]

theorem answers_numbers (hop : op = .lt ∨ op = .le ∨ op = .gt ∨ op = .ge)
    (hx : h.number? a = some x) (hy : h.number? b = some y) :
    h.Answers op a b (op.comparesNumbers x y) := by
  intro roots
  have hoperands := operands_numbers hx hy
  unfold applyBinary
  rcases hop with rfl | rfl | rfl | rfl <;>
    · change EStateM.bind EStateM.get _ h = _
      dsimp only [EStateM.bind, EStateM.get]
      rw [hoperands]
      rfl

theorem answers_texts (hop : op = .lt ∨ op = .le ∨ op = .gt ∨ op = .ge)
    (hs : h.text? a = some s) (ht : h.text? b = some t) :
    h.Answers op a b (op.comparesTexts s t) := by
  intro roots
  have hoperands := operands_texts hs ht
  unfold applyBinary
  rcases hop with rfl | rfl | rfl | rfl <;>
    · change EStateM.bind EStateM.get _ h = _
      dsimp only [EStateM.bind, EStateM.get]
      rw [hoperands]
      rfl

/-- Equality is that of the values, unless it takes a short cut: both nodes are one, which holds NaN. -/
theorem sameValue_numbers (hx : h.number? a = some x) (hy : h.number? b = some y)
    (hnan : a = b → x.isNaN = false) :
    h.sameValue a b = BinaryOp.eq.holdsOf x.value? y.value? := by
  rw [sameValue]
  split
  next heq =>
    obtain rfl := heq
    obtain rfl := Option.some.inj (hx.symm.trans hy)
    obtain ⟨p, hp⟩ := Number.exists_value? (hnan rfl)
    rw [hp]
    exact (decide_eq_true rfl).symm
  next =>
    rw [hx, hy]
    exact Number.same_eq_holdsOf x y

/-- Interned texts are the same where their nodes are. -/
theorem Interned.sameValue_texts (hi : h.Interned) (ha : h.IsBlock a) (hb : h.IsBlock b)
    (hs : h.text? a = some s) (ht : h.text? b = some t) :
    h.sameValue a b = BinaryOp.eq.holds (Text.octets s) (Text.octets t) := by
  have hiff : a = b ↔ s = t := by
    constructor
    · rintro rfl
      exact Option.some.inj (hs.symm.trans ht)
    · rintro rfl
      exact Option.some.inj ((hi.strings_of_text? ha hs).symm.trans (hi.strings_of_text? hb ht))
  have heq : BinaryOp.eq.holds (Text.octets s) (Text.octets t) = decide (a = b) := by
    unfold BinaryOp.holds
    exact decide_eq_decide.2 (Text.octets_inj.trans hiff.symm)
  rw [heq, sameValue, number?_of_text? hs]
  split
  next hab => exact (decide_eq_true hab).symm
  next hab => exact (decide_eq_false hab).symm

/-- Two nodes that can be compared: two numbers or two texts.  What is left out is a NaN that one
node holds for both operands. -/
inductive Comparable (h : Heap) (a b : Address) : Prop where
  /-- Two numbers. -/
  | numbers {x y : Number} : h.number? a = some x → h.number? b = some y → (a = b → x.isNaN = false) →
      Comparable h a b
  /-- Two texts. -/
  | texts {s t : String} : h.IsBlock a → h.IsBlock b → h.text? a = some s → h.text? b = some t →
      Comparable h a b

/-- Comparisons depend on the values of nodes, and agree with one another. -/
structure Compares (h : Heap) : Prop where
  /-- Numbers are compared by their values, unless one node holds NaN for both operands. -/
  numbers : ∀ (op : BinaryOp) (a b : Address) (x y : Number), op.isComparison = true →
    h.number? a = some x → h.number? b = some y → (a = b → x.isNaN = false) →
      h.Answers op a b (op.holdsOf x.value? y.value?)
  /-- Texts are compared by their bytes. -/
  texts : ∀ (op : BinaryOp) (a b : Address) (s t : String), op.isComparison = true →
    h.IsBlock a → h.IsBlock b → h.text? a = some s → h.text? b = some t →
      h.Answers op a b (op.holds (Text.octets s) (Text.octets t))
  /-- Inequality is the negation of equality. -/
  ne_iff : ∀ (a b : Address) (answer : Bool), h.Answers .ne a b answer ↔ h.Answers .eq a b (!answer)
  /-- What is equal is at most the other, both ways. -/
  eq_iff : ∀ a b : Address, h.Comparable a b →
    (h.Answers .eq a b true ↔ h.Answers .le a b true ∧ h.Answers .ge a b true)

theorem Answers.iff {answer answer' : Bool} (answers : h.Answers op a b answer) :
    h.Answers op a b answer' ↔ answer = answer' :=
  ⟨answers.unique, fun heq => heq ▸ answers⟩

/-- In a heap whose texts are interned, comparisons do so. -/
theorem Interned.compares (hi : h.Interned) : h.Compares := by
  have numbers (op : BinaryOp) (a b : Address) (x y : Number) (hop : op.isComparison = true)
      (hx : h.number? a = some x) (hy : h.number? b = some y) (hnan : a = b → x.isNaN = false) :
      h.Answers op a b (op.holdsOf x.value? y.value?) := by
    have hsame := sameValue_numbers hx hy hnan
    cases op
    case eq => exact hsame ▸ h.answers_eq a b
    case ne => exact BinaryOp.holdsOf_ne x.value? y.value? ▸ hsame ▸ h.answers_ne a b
    case lt | le | gt | ge =>
      rw [← BinaryOp.comparesNumbers_eq (by decide)]
      exact answers_numbers (by decide) hx hy
    all_goals cases hop
  have texts (op : BinaryOp) (a b : Address) (s t : String) (hop : op.isComparison = true)
      (ha : h.IsBlock a) (hb : h.IsBlock b) (hs : h.text? a = some s) (ht : h.text? b = some t) :
      h.Answers op a b (op.holds (Text.octets s) (Text.octets t)) := by
    have hsame := hi.sameValue_texts ha hb hs ht
    cases op
    case eq => exact hsame ▸ h.answers_eq a b
    case ne => exact BinaryOp.holds_ne (Text.octets s) _ ▸ hsame ▸ h.answers_ne a b
    case lt | le | gt | ge =>
      rw [← BinaryOp.comparesTexts_eq (by decide)]
      exact answers_texts (by decide) hs ht
    all_goals cases hop
  refine ⟨numbers, texts, fun a b answer => ?_, fun a b comparable => ?_⟩
  · rw [(h.answers_ne a b).iff, (h.answers_eq a b).iff]
    cases h.sameValue a b <;> cases answer <;> decide
  · cases comparable with
    | numbers hx hy hnan =>
      rw [(numbers .eq a b _ _ rfl hx hy hnan).iff, (numbers .le a b _ _ rfl hx hy hnan).iff,
        (numbers .ge a b _ _ rfl hx hy hnan).iff, BinaryOp.holdsOf_eq, Bool.and_eq_true]
    | texts ha hb hs ht =>
      rw [(texts .eq a b _ _ rfl ha hb hs ht).iff, (texts .le a b _ _ rfl ha hb hs ht).iff,
        (texts .ge a b _ _ rfl ha hb hs ht).iff, BinaryOp.holds_eq, Bool.and_eq_true]

end Heap

/-! ## Runs -/

namespace Machine

variable {m : Machine} {program : Program} {op : BinaryOp} {a b : Address} {rest : List Address}
  {answer : Bool}

/-- The instruction puts the answer in the place of its operands. -/
theorem step_of_answers (instr : program.at? m.registers.pc = some (.binary op))
    (stack : m.registers.stack = b :: a :: rest) (answers : m.heap.Answers op a b answer) :
    m.step program = .ok .advanced ((m.withHeap m.heap).withRegisters
      { m.registers with stack := Heap.boolean answer :: rest, pc := m.registers.pc + 1 }) := by
  have h : Ensures (Machine.step program) m
      (fun p k => p = .advanced ∧ k = (m.withHeap m.heap).withRegisters
        { m.registers with stack := Heap.boolean answer :: rest, pc := m.registers.pc + 1 })
      fun _ _ => False := by
    refine .bind (ensures_registersNow ?_)
    rw [instr]
    refine .bind (.bind (ensures_peek (fun right hright => ?_) fun hnone => ?_))
    · obtain rfl : b = right := by simpa [stack] using hright
      refine .bind (ensures_peek (fun left hleft => ?_) fun hnone => ?_)
      · obtain rfl : a = left := by simpa [stack] using hleft
        refine .bind (ensures_onHeap (.ok (answers _) ?_))
        refine .bind (ensures_replace (ensures_advance (.pure ⟨rfl, ?_⟩)))
        change (m.withHeap m.heap).withRegisters { m.registers with
          stack := Heap.boolean answer :: m.registers.stack.drop 2, pc := m.registers.pc + 1 } = _
        rw [stack]
        rfl
      · rw [stack] at hnone
        cases hnone
    · rw [stack] at hnone
      cases hnone
  obtain ⟨p, k, hstep, rfl, rfl⟩ := h.exists_ok
  exact hstep

end Machine

namespace Run

/-- Comparisons depend on values in a state of a run, and the instruction of a comparison leaves its
answer. -/
structure Compares (program : Program) (run : Run) : Prop where
  /-- The comparisons of nodes. -/
  heap : run.machine.heap.Compares
  /-- The instruction. -/
  step : ∀ (m : Machine) (s : Scheduler) (left : Nat) (op : BinaryOp) (a b : Address)
    (rest : List Address) (answer : Bool), run = .running m s left →
    program.at? m.registers.pc = some (.binary op) → m.registers.stack = b :: a :: rest →
    m.heap.Answers op a b answer →
      m.step program = .ok .advanced ((m.withHeap m.heap).withRegisters
        { m.registers with stack := Heap.boolean answer :: rest, pc := m.registers.pc + 1 })

/-- Comparisons depend on values in all states of the run of any program. -/
theorem comparisons_by_value {config : Config} {m : Machine}
    (hcreate : Machine.create config standardBuiltins = .ok m) (program : Program) {run : Run}
    (hreach : Reaches program (begin m (.create config.maxQuantum config.seed)) run) :
    Compares program run where
  heap := (hreach.sound_of_create hcreate).heap.toInterned.compares
  step _ _ _ _ _ _ _ _ _ instr stack answers := Machine.step_of_answers instr stack answers

/-- The main thread compares two texts. -/
def comparing : Program :=
  ⟨#[.constant (.text "B"), .constant (.text "a"), .binary .lt, .halt]⟩

/-- The text of capital letters is less. -/
theorem comparisons_by_value_comparing : ∃ m,
    Machine.create { heapWords := 200, seed := 7 } standardBuiltins = .ok m ∧
      Reaches comparing (begin m (.create 15 7)) ((begin m (.create 15 7)).after comparing 3) ∧
      ((begin m (.create 15 7)).after comparing 3).machine.registers.stack = [150, 140] ∧
      ((begin m (.create 15 7)).after comparing 3).machine.heap.Answers .lt 140 150 true := by
  obtain ⟨m, hcreate, heq⟩ := exists_sample
  -- The run is evaluated once for all facts about it.
  obtain ⟨hstack, hle, hs, ht, hless⟩ : (sample.after comparing 3).machine.registers.stack = [150, 140] ∧
      160 ≤ (sample.after comparing 3).machine.heap.words.size ∧
      (sample.after comparing 3).machine.heap.text? 140 = some "B" ∧
      (sample.after comparing 3).machine.heap.text? 150 = some "a" ∧
      BinaryOp.lt.holds (Text.octets "B") (Text.octets "a") = true := by
    decide +kernel
  rw [heq] at hstack hle hs ht
  have hreach := reaches_after comparing (begin m (.create 15 7)) 3
  have hcompares := (comparisons_by_value hcreate comparing hreach).heap
  refine ⟨m, hcreate, hreach, hstack, ?_⟩
  have hfirst : 140 + nodeSize ≤ _ := le_trans (by decide) hle
  have hsecond : 150 + nodeSize ≤ _ := le_trans (by decide) hle
  exact hless ▸ hcompares.texts .lt 140 150 "B" "a" rfl ⟨by decide, hfirst⟩ ⟨by decide, hsecond⟩ hs ht

/-- The main thread compares the quotient of zero and zero with itself. -/
def selfComparing : Program := ⟨#[.enterScope 1, .constant (.number .zero), .constant (.number .zero),
  .binary .div, .store ⟨1, 0⟩, .pop, .load ⟨1, 0⟩, .load ⟨1, 0⟩, .binary .eq, .exitScope, .halt]⟩

/-- The quotient is NaN, which no number is equal to.  It is equal to itself, since one node holds it
for both operands, but not at most itself. -/
theorem equals_itself : ∃ m,
    Machine.create { heapWords := 200, seed := 7 } standardBuiltins = .ok m ∧
      ((begin m (.create 15 7)).after selfComparing 9).ExecutesAt mainThread 8 ∧
      ((begin m (.create 15 7)).after selfComparing 9).machine.registers.stack = [190, 190] ∧
      (∃ x, ((begin m (.create 15 7)).after selfComparing 9).machine.heap.number? 190 = some x ∧
        x.value? = none) ∧
      ((begin m (.create 15 7)).after selfComparing 9).machine.heap.Answers .eq 190 190 true ∧
      ((begin m (.create 15 7)).after selfComparing 9).machine.heap.Answers .le 190 190 false ∧
      ((begin m (.create 15 7)).after selfComparing 10).machine.registers.stack = [Heap.boolean true] := by
  obtain ⟨m, hcreate, heq⟩ := exists_sample
  obtain ⟨hexecutes, hstack, hnan, hanswer⟩ : (sample.after selfComparing 9).ExecutesAt mainThread 8 ∧
      (sample.after selfComparing 9).machine.registers.stack = [190, 190] ∧
      ((sample.after selfComparing 9).machine.heap.number? 190).map Number.isNaN = some true ∧
      (sample.after selfComparing 10).machine.registers.stack = [Heap.boolean true] := by
    decide +kernel
  rw [heq] at hexecutes hstack hnan hanswer
  obtain ⟨x, hx, hnan⟩ := Option.map_eq_some_iff.1 hnan
  have hmost : BinaryOp.le.comparesNumbers x x = false := (Number.unordered (.inl hnan)).2.1
  exact ⟨m, hcreate, hexecutes, hstack, ⟨x, hx, Number.value?_eq_none.2 hnan⟩,
    Heap.answers_eq _ 190 190, hmost ▸ Heap.answers_numbers (by decide) hx hx, hanswer⟩

end Run

end ChannelMachine

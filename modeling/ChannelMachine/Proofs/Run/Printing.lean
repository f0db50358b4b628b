import ChannelMachine.Proofs.Decimal.Printing
import ChannelMachine.Proofs.Machine.Origins
import ChannelMachine.Proofs.Run.Comparing
import ChannelMachine.Proofs.Run.Threads

/-!
# Numbers compared as texts

The builtin `string` gives the text of a number (`Machine.Sound.ensures_spelling`), and the text stays while
its node is live (`Run.Spelled.text?`).  Since finite numbers have equal texts where they are the same, a
program may compare the texts in place of the numbers (`Run.shows_numbers`).
-/

namespace ChannelMachine

/-! ## Calls of the builtin -/

/-- A number is shown as its text. -/
theorem Heap.display_of_number? {h : Heap} {a : Address} {x : Number} (hx : h.number? a = some x) :
    h.display a = x.display := by
  have htag : h.tag a = .number := by
    by_contra hne
    rw [number?, if_neg hne] at hx
    cases hx
  rw [display, unbox, htag]
  dsimp only
  rw [hx]
  rfl

namespace Machine

variable {program : Program} {m : Machine} {tail : Bool} {x : Number} {rest : List Address}

/-- The running thread is about to call the builtin `string` with a number. -/
structure Spells (program : Program) (m : Machine) (tail : Bool) (x : Number) (rest : List Address) :
    Prop where
  /-- The instruction. -/
  instruction : program.at? m.registers.pc = some (if tail then .tailCall 1 else .call 1)
  /-- The number and the builtin are on top of the other operands. -/
  operands : ∃ a function, m.registers.stack = a :: function :: rest ∧ m.heap.number? a = some x ∧
    m.heap.tag function = .builtin ∧
    m.builtins[(m.heap.payload function).toNat]? = some Builtin.string.entry

/-- The next instruction puts a boolean in the place of its operands. -/
def Decides (program : Program) (m : Machine) (answer : Bool) (rest : List Address) : Prop :=
  m.step program = .ok .advanced ((m.withHeap m.heap).withRegisters
    { m.registers with stack := Heap.boolean answer :: rest, pc := m.registers.pc + 1 })

/-- What comes behind the work of a builtin leaves the heap and the operands alone. -/
theorem ensures_ret_or_advance (m : Machine) (tail : Bool) : Ensures (if tail then ret else advance) m
    (fun _ k => k.heap = m.heap ∧ k.registers.stack = m.registers.stack)
    fun e _ => tail = true ∧ e = .returnStackUnderflow := by
  cases tail with
  | false => exact ensures_advance ⟨rfl, rfl⟩
  | true =>
    refine .bind (ensures_registersNow (.bind (ensures_readHeap ?_)))
    split
    · exact .bind (ensures_setRegisters (.throw ⟨rfl, rfl⟩))
    · exact .bind (ensures_readHeap (.bind (ensures_readHeap (ensures_setRegisters ⟨rfl, rfl⟩))))

/-- The text of the number takes the place of the operands, unless there is no memory for it or, in a tail
call, nowhere to return to. -/
theorem Sound.ensures_spelling (hm : m.Sound) (spells : m.Spells program tail x rest) :
    Ensures (Machine.step program) m
      (fun p k => p = .advanced ∧ ∃ a, k.registers.stack = a :: rest ∧ k.heap.text? a = some x.display)
      fun e _ => e = .heapExhausted ∨ tail = true ∧ e = .returnStackUnderflow := by
  obtain ⟨a, function, hstack, hx, htag, hentry⟩ := spells.operands
  have h : Ensures (proceed (call 1 tail)) m
      (fun p k => p = .advanced ∧ ∃ a, k.registers.stack = a :: rest ∧ k.heap.text? a = some x.display)
      fun e _ => e = .heapExhausted ∨ tail = true ∧ e = .returnStackUnderflow := by
    have hfunction : m.registers.stack[1]? = some function := by simp [hstack]
    refine .bind (ensures_call_builtin hfunction htag (ensures_callBuiltin (fun hnone => ?_)
      (fun entry hsome harity => ?_) fun entry hsome _ => ?_))
    · exact nomatch hentry.symm.trans hnone
    · obtain rfl := Option.some.inj (hentry.symm.trans hsome)
      exact absurd rfl harity
    · obtain rfl := Option.some.inj (hentry.symm.trans hsome)
      rw [hstack]
      refine .bind (.bind (ensures_readHeap ?_))
      rw [Heap.display_of_number? hx]
      refine ensures_onHeap ((hm.heap.newString_ensures hm.inUse_roots x.display).mono
        (fun text k made => ?_) fun e k refused => .inl refused.1.exhausted)
      refine .bind (ensures_replace ((ensures_ret_or_advance _ tail).mono (fun _ l same => .pure ?_)
        fun _ _ he => .inr he))
      refine ⟨rfl, text, ?_, ?_⟩
      · rw [same.2]
        exact congrArg (fun stack => text :: stack.drop 2) hstack
      · rw [same.1]
        exact ((alike_withHeap m k).text? text).trans made.has
  unfold Ensures at *
  rw [step_call_eq spells.instruction]
  exact h

end Machine

/-! ## Texts of numbers -/

namespace Run

variable {program : Program} {run : Run} {n : Nat} {a b : Address} {x y : Number}

/-- A call of `string` in a step gave a node as the text of a number, and it has been live since. -/
structure Spelled (program : Program) (run : Run) (n : Nat) (a : Address) (i : Nat) (x : Number) : Prop where
  /-- The step is an earlier one. -/
  before : i < n
  /-- The call. -/
  called : ∃ m s left tail rest p k, run.after program i = running m s left ∧
    m.Spells program tail x rest ∧ m.step program = .ok p k ∧ k.registers.stack = a :: rest
  /-- The node has been live. -/
  live : ∀ j, i < j → j ≤ n →
    (run.after program j).machine.heap.Live (run.after program j).machine.roots a

/-- A step leaves the texts alone that are live. -/
theorem Fresh.text?_succ (fresh : run.Fresh) (hactive : (run.after program (n + 1)).Active)
    (ha : (run.after program n).machine.heap.Live (run.after program n).machine.roots a) :
    (run.after program (n + 1)).machine.heap.text? a = (run.after program n).machine.heap.text? a := by
  cases fresh.moves program n with
  | dispatched _ same => rw [same.heap]
  | stopped _ ended => exact absurd hactive ended
  | stepped here hm hstep _ turned =>
    rw [here] at ha ⊢
    obtain ⟨e, f, -, -, realizes⟩ := hm.performs_step.of_ok hstep
    rw [turned.heap]
    exact realizes.heap.text a ha

/-- So do all steps in which they are live. -/
theorem Fresh.text?_after (fresh : run.Fresh) {i : Nat} (hle : i ≤ n) (hactive : (run.after program n).Active)
    (hlive : ∀ j, i ≤ j → j < n →
      (run.after program j).machine.heap.Live (run.after program j).machine.roots a) :
    (run.after program n).machine.heap.text? a = (run.after program i).machine.heap.text? a := by
  induction n, hle using Nat.le_induction with
  | base => rfl
  | succ n hn ih =>
    rw [fresh.text?_succ hactive (hlive n hn (Nat.lt_succ_self n))]
    exact ih hactive.of_next fun j hi hj => hlive j hi (Nat.lt_succ_of_lt hj)

/-- The node of the text of a number still has the text. -/
theorem Spelled.text? {i : Nat} (spelled : run.Spelled program n a i x) (fresh : run.Fresh)
    (hactive : (run.after program n).Active) :
    (run.after program n).machine.heap.text? a = some x.display := by
  obtain ⟨m, s, left, tail, rest, p, k, here, spells, hstep, hstack⟩ := spelled.called
  have hm : m.Sound := by
    have sound := fresh.sound_after program i
    rwa [here] at sound
  obtain ⟨rfl, b, hstack', htext⟩ := (hm.ensures_spelling spells).of_ok hstep
  obtain ⟨rfl, -⟩ := List.cons.inj (hstack.symm.trans hstack')
  rw [fresh.text?_after spelled.before hactive fun j hij hj => spelled.live j hij hj.le,
    (fresh.turned here hstep nofun).heap]
  exact htext

/-- The operands behind the next instruction. -/
def stackBehind (program : Program) (run : Run) : List Address :=
  match run.machine.step program with
  | .ok _ k => k.registers.stack
  | .error _ _ => []

/-- A call in a state that is known, whose result stays on the stack. -/
theorem spelled_of_stack {t : ThreadId} {i pc : Nat} (b function : Address) (rest : List Address)
    (hi : i < n) (executes : (run.after program i).ExecutesAt t pc)
    (instr : program.at? pc = some (.call 1))
    (operands : (run.after program i).machine.registers.stack = b :: function :: rest ∧
      (run.after program i).machine.heap.number? b = some x ∧
      (run.after program i).machine.heap.tag function = .builtin ∧
      (run.after program i).machine.builtins[((run.after program i).machine.heap.payload function).toNat]? =
        some Builtin.string.entry)
    (result : stackBehind program (run.after program i) = a :: rest)
    (stays : ∀ j, i < j → j ≤ n → a ∈ (run.after program j).machine.registers.stack) :
    run.Spelled program n a i x := by
  obtain ⟨m, s, left, here, -, hpc⟩ := executes
  rw [here] at operands result
  refine ⟨hi, ?_, fun j hij hj => .root (mem_threadRoots.2 (.inl (Registers.mem_roots.2
    (.inl (stays j hij hj)))))⟩
  unfold stackBehind at result
  split at result
  next p k hstep =>
    exact ⟨m, s, left, false, rest, p, k, here, ⟨hpc ▸ instr, b, function, operands⟩, hstep, result⟩
  next => cases result

/-- What a program sees of finite numbers and of their texts. -/
structure ShowsNumbers (program : Program) (run : Run) : Prop where
  /-- A call of `string` gives the text of the number, unless there is no memory for it or, in a tail call,
  nowhere to return to. -/
  spells : ∀ n m s left tail x rest, run.after program n = running m s left →
    m.Spells program tail x rest →
      (∃ a k, m.step program = .ok .advanced k ∧ k.registers.stack = a :: rest ∧
        k.heap.text? a = some x.display) ∨
      ∃ e k, m.step program = .error e k ∧
        (e = .heapExhausted ∨ tail = true ∧ e = .returnStackUnderflow)
  /-- A comparison of two numbers says whether they are the same. -/
  numbers : ∀ n m s left a b x y rest, run.after program n = running m s left →
    program.at? m.registers.pc = some (.binary .eq) → m.registers.stack = b :: a :: rest →
    m.heap.number? a = some x → m.heap.number? b = some y → x.IsFinite → y.IsFinite →
      m.Decides program (x.same y) rest
  /-- A comparison of their texts says that, too. -/
  texts : ∀ n m s left a b i j x y rest, run.after program n = running m s left →
    program.at? m.registers.pc = some (.binary .eq) → m.registers.stack = b :: a :: rest →
    run.Spelled program n a i x → run.Spelled program n b j y → x.IsFinite → y.IsFinite →
      m.Decides program (x.same y) rest

/-- The text of a finite number denotes a rational number that is rounded to the number again, and two texts are
equal if the numbers are.  So a program may compare the texts in place of the numbers. -/
theorem shows_numbers {config : Config} {m : Machine}
    (hcreate : Machine.create config standardBuiltins = .ok m) (program : Program) :
    (∀ x : Number, x.IsFinite → (∃ v, Denotes x.display v ∧ Number.RoundsTo v x.plain) ∧
      x.display ∉ ["NaN", "+Inf", "-Inf"]) ∧
    (∀ x y : Number, x.IsFinite → y.IsFinite → (x.display = y.display ↔ x.same y = true)) ∧
    ShowsNumbers program (begin m (.create config.maxQuantum config.seed)) := by
  have fresh := fresh_begin hcreate
  generalize begin m (.create config.maxQuantum config.seed) = run at fresh ⊢
  have here : ∀ {n m s left}, run.after program n = running m s left → m.Sound := by
    intro n m s left hn
    have sound := fresh.sound_after program n
    rwa [hn] at sound
  refine ⟨fun x hx => ?_, fun x y => Number.display_eq_iff, ⟨?_, ?_, ?_⟩⟩
  · obtain ⟨v, denotes, rounds⟩ := Number.exists_denotes_display hx
    exact ⟨⟨v, denotes, rounds⟩, denotes.not_name⟩
  · intro n m s left tail x rest hn spells
    have h := (here hn).ensures_spelling spells
    cases hstep : m.step program with
    | ok p k =>
      obtain ⟨rfl, a, hstack, htext⟩ := h.of_ok hstep
      exact .inl ⟨a, k, rfl, hstack, htext⟩
    | error e k => exact .inr ⟨e, k, rfl, h.of_error hstep⟩
  · intro n m s left a b x y rest hn instr hstack hx hy finite finite'
    refine Machine.step_of_answers instr hstack ?_
    have hsame := Heap.sameValue_numbers hx hy fun _ => finite.isNaN
    rw [← Number.same_eq_holdsOf] at hsame
    exact hsame ▸ m.heap.answers_eq a b
  · intro n m s left a b i j x y rest hn instr hstack spelled spelled' finite finite'
    refine Machine.step_of_answers instr hstack ?_
    have hactive : (run.after program n).Active := by rw [hn]; exact nofun
    have htext := spelled.text? fresh hactive
    have htext' := spelled'.text? fresh hactive
    rw [hn] at htext htext'
    have hin (c : Address) (hc : c ∈ m.registers.stack) : m.heap.IsBlock c :=
      ((here hn).registers.stack c hc).1.toIsBlock
    have hsame := (here hn).heap.toInterned.sameValue_texts (hin a (by simp [hstack]))
      (hin b (by simp [hstack])) htext htext'
    have heq : BinaryOp.eq.holds (Text.octets x.display) (Text.octets y.display) = x.same y := by
      rw [Bool.eq_iff_iff, BinaryOp.eq_holds_iff, Text.octets_inj, Number.display_eq_iff finite finite']
    exact heq ▸ hsame ▸ m.heap.answers_eq a b

/-- The main thread compares the texts of both zeros. -/
def spelling : Program := ⟨#[.load ⟨0, 6⟩, .constant (.number .zero), .call 1,
  .load ⟨0, 6⟩, .constant (.number Number.zero.neg), .call 1, .binary .eq, .halt]⟩

/-- The zeros have one text, and so they are equal. -/
theorem shows_numbers_spelling : ∃ first m s left,
    Machine.create { heapWords := 200, seed := 7 } standardBuiltins = .ok first ∧
      (begin first (.create 15 7)).after spelling 7 = running m s left ∧
      (begin first (.create 15 7)).Spelled spelling 7 150 3 Number.zero ∧
      (begin first (.create 15 7)).Spelled spelling 7 150 6 Number.zero.neg ∧
      m.Decides spelling true [] := by
  obtain ⟨first, hcreate, heq⟩ := exists_sample
  obtain ⟨hstays, h₃, h₆, h₇, hstack⟩ :
      (∀ j < 8, 3 < j → 150 ∈ (sample.after spelling j).machine.registers.stack) ∧
      (sample.after spelling 3).ExecutesAt mainThread 2 ∧
      (sample.after spelling 6).ExecutesAt mainThread 5 ∧
      (sample.after spelling 7).ExecutesAt mainThread 6 ∧
      (sample.after spelling 7).machine.registers.stack = [150, 150] := by
    decide +kernel
  have positive : sample.Spelled spelling 7 150 3 Number.zero :=
    spelled_of_stack 140 120 [] (by decide) h₃ rfl (by decide +kernel) (by decide +kernel)
      fun j hj hle => hstays j (Nat.lt_succ_of_le hle) hj
  have negative : sample.Spelled spelling 7 150 6 Number.zero.neg :=
    spelled_of_stack 160 120 [150] (by decide) h₆ rfl (by decide +kernel) (by decide +kernel)
      fun j hj hle => hstays j (Nat.lt_succ_of_le hle) (lt_trans (by decide) hj)
  rw [heq] at h₇ hstack positive negative
  obtain ⟨m, s, left, here, -, hpc⟩ := h₇
  rw [here] at hstack
  have shows := (shows_numbers hcreate spelling).2.2
  exact ⟨first, m, s, left, hcreate, here, positive, negative,
    shows.texts 7 m s left 150 150 3 6 .zero Number.zero.neg [] here (hpc ▸ rfl) hstack positive negative
      nofun nofun⟩

end Run

end ChannelMachine

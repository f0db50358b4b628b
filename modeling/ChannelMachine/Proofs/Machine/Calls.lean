import ChannelMachine.Proofs.Machine.Instructions

/-!
# The rules for calls

A call looks at what lies under its arguments and checks how many of them there are, before it does
anything else.  There is one rule for the checks of a builtin and one for those of a function of the
program; each asks for the call that is refused and for what follows the checks.
-/

namespace ChannelMachine.Machine

variable {m : Machine} {function : Address} {n : Nat} {tail : Bool} {good : Unit → Machine → Prop}
  {bad : Fault → Machine → Prop}

/-! ## What is called -/

theorem peek_eq (h : m.registers.stack[n]? = some function) : peek n m = .ok function m := by
  obtain ⟨_, _, heq, rfl, rfl⟩ : ∃ a k, peek n m = .ok a k ∧ a = function ∧ k = m :=
    Ensures.exists_ok (ensures_peek (fun a ha => ⟨Option.some.inj (ha.symm.trans h), rfl⟩)
      fun hnone => nomatch h.symm.trans hnone)
  exact heq

/-- Where a function is under the arguments, it is what is called. -/
theorem call_eq (tail : Bool) (h : m.registers.stack[n]? = some function) :
    call n tail m = match m.heap.tag function with
      | .builtin => callBuiltin (m.heap.payload function).toNat n tail m
      | .closure => callClosure function n tail m
      | t => .error (.notCallable t) m := by
  have htag : readHeap (·.tag function) m = .ok (m.heap.tag function) m := rfl
  unfold call
  simp only [bind, EStateM.bind, peek_eq h, htag]
  cases m.heap.tag function <;> rfl

theorem call_builtin_eq (tail : Bool) (h : m.registers.stack[n]? = some function)
    (htag : m.heap.tag function = .builtin) :
    call n tail m = callBuiltin (m.heap.payload function).toNat n tail m := by
  rw [call_eq tail h, htag]

theorem call_closure_eq (tail : Bool) (h : m.registers.stack[n]? = some function)
    (htag : m.heap.tag function = .closure) : call n tail m = callClosure function n tail m := by
  rw [call_eq tail h, htag]

theorem ensures_call_builtin (hfunction : m.registers.stack[n]? = some function)
    (htag : m.heap.tag function = .builtin)
    (h : Ensures (callBuiltin (m.heap.payload function).toNat n tail) m good bad) :
    Ensures (call n tail) m good bad := by
  unfold Ensures
  rw [call_builtin_eq tail hfunction htag]
  exact h

theorem ensures_call_closure (hfunction : m.registers.stack[n]? = some function)
    (htag : m.heap.tag function = .closure) (h : Ensures (callClosure function n tail) m good bad) :
    Ensures (call n tail) m good bad := by
  unfold Ensures
  rw [call_closure_eq tail hfunction htag]
  exact h

/-- The rule for a call. -/
theorem ensures_call (hunder : m.registers.stack[n]? = none → bad .stackUnderflow m)
    (hbuiltin : ∀ a, m.registers.stack[n]? = some a → m.heap.tag a = .builtin →
      Ensures (callBuiltin (m.heap.payload a).toNat n tail) m good bad)
    (hclosure : ∀ a, m.registers.stack[n]? = some a → m.heap.tag a = .closure →
      Ensures (callClosure a n tail) m good bad)
    (hbad : ∀ t, bad (.notCallable t) m) : Ensures (call n tail) m good bad := by
  refine .bind (ensures_peek (fun a ha => .bind (ensures_readHeap ?_)) hunder)
  split
  next htag => exact .bind (ensures_readHeap (hbuiltin a ha htag))
  next htag => exact hclosure a ha htag
  next => exact .throw (hbad _)

/-! ## Builtins -/

/-- The rule for a call of a builtin. -/
theorem ensures_callBuiltin {slot : Nat}
    (hunknown : m.builtins[slot]? = none → bad (.unknownBuiltin slot) m)
    (hbad : ∀ entry, m.builtins[slot]? = some entry → entry.arity ≠ n →
      bad (.arity entry.arity n) m)
    (h : ∀ entry, m.builtins[slot]? = some entry → entry.arity = n →
      Ensures (do
        let result ← runBuiltin entry.action (m.registers.stack.take n).reverse
        replace (n + 1) result
        if tail then ret else advance) m good bad) :
    Ensures (callBuiltin slot n tail) m good bad := by
  refine .bind (.get ?_)
  cases hentry : m.builtins[slot]? with
  | none => exact .throw (hunknown hentry)
  | some entry =>
    by_cases harity : entry.arity ≠ n
    · simp only [if_pos harity]
      exact .bind (.throw (hbad entry hentry harity))
    · simp only [if_neg harity]
      exact .bind (ensures_argumentsNow (h entry hentry (Classical.not_not.1 harity)))

/-! ## Functions of the program -/

/-- What follows the checks of a call of a function of the program. -/
def enterFunction (captured : Address) (entry n : Nat) (tail : Bool) : Action Unit := do
  let arguments ← argumentsNow n
  if tail then
    let inside ← onHeap (Heap.newArguments captured arguments)
    let frames := (← registersNow).frames
    let frames ← readHeap fun h => frames.dropWhile fun a => h.tag a = .blockframe
    setRegisters fun r =>
      { r with stack := r.stack.drop (n + 1), frames, environment := inside, pc := entry }
  else
    let r ← registersNow
    let (call, inside) ← onHeap (Heap.newCall (r.pc + 1) r.environment captured arguments)
    setRegisters fun r =>
      { stack := r.stack.drop (n + 1), frames := call :: r.frames, environment := inside,
        pc := entry }

/-- The operands that are taken as arguments are live values. -/
theorem Sound.live_arguments (hm : m.Sound) (n : Nat) :
    ∀ w ∈ (m.registers.stack.take n).reverse,
      m.heap.Live m.roots w ∧ (m.heap.tag w).isValue = true := by
  intro w hw
  have hmem := List.mem_of_mem_take (List.mem_reverse.1 hw)
  exact ⟨live_stack hmem, (hm.registers.stack w hmem).2⟩

/-- The rule for a call of a function of the program. -/
theorem ensures_callClosure
    (hbad : m.heap.word function 1 ≠ n → bad (.arity (m.heap.word function 1) n) m)
    (h : m.heap.word function 1 = n →
      Ensures (enterFunction (m.heap.word function 2) (m.heap.payload function).toNat n tail) m
        good bad) :
    Ensures (callClosure function n tail) m good bad := by
  refine .bind (ensures_readHeap ?_)
  by_cases harity : m.heap.word function 1 ≠ n
  · rw [if_pos harity]
    exact .bind (.throw (hbad harity))
  · rw [if_neg harity]
    exact .bind (ensures_readHeap (.bind (ensures_readHeap (h (Classical.not_not.1 harity)))))

/-- What the function keeps is a live environment. -/
theorem Sound.ensures_callClosure (hm : m.Sound) (hfunction : function ∈ m.registers.stack)
    (htag : m.heap.tag function = .closure)
    (hbad : m.heap.word function 1 ≠ n → bad (.arity (m.heap.word function 1) n) m)
    (h : m.heap.word function 1 = n → m.heap.tag (m.heap.word function 2) = .environment →
      m.heap.Live m.roots (m.heap.word function 2) →
      Ensures (enterFunction (m.heap.word function 2) (m.heap.payload function).toNat n tail) m
        good bad) :
    Ensures (callClosure function n tail) m good bad := by
  obtain ⟨hctag, hclive⟩ := hm.heap.word_closure (hm.registers.stack _ hfunction).1 htag
  exact Machine.ensures_callClosure hbad fun harity =>
    h harity hctag (hclive _ (live_stack hfunction))

end ChannelMachine.Machine

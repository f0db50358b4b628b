import ChannelMachine.Proofs.Source.Segments

/-!
# Plans

A plan gives each index of a program a shape: how many operands, frames and block frames a thread
has that is about to execute the instruction there.  `Follows` are the rules by which an instruction
takes one shape to the next.  They need not look at values, since every way to an index brings the
same shape.

A loop is left by a search of the code behind (`Program.findLoopEnd`), so the rules for `breakLoop`
and `continueLoop` depend on what follows.  `LoopAround` is what the code around a piece has to
promise for them, and `Program.Skips` what a piece promises to the code around it.
-/

namespace ChannelMachine

/-! ## Shapes -/

/-- What executes a piece of code. -/
inductive Level where
  /-- The main thread, outside of functions. -/
  | main
  /-- A thread that the instruction at an index started, before its call. -/
  | spawned (start : Nat)
  /-- Such a thread behind its call. -/
  | ending (start : Nat)
  /-- Any thread, in a function. -/
  | function
deriving DecidableEq

/-- What is known of a thread at an index. -/
structure Shape where
  /-- The operands since the running function was called. -/
  height : Nat
  /-- The slots of the frames of the environment, innermost first. -/
  scopes : List Nat
  /-- Where the scopes were opened that are open since the running function was called, innermost
  first.  There is a block frame for each. -/
  opened : List Nat
  /-- The loop around the code. -/
  loop : Option Source.Inside
  /-- What executes the code. -/
  level : Level

/-- The shapes at the indices of a program. -/
abbrev Plan := Nat → Option Shape

namespace Shape

/-- The shape with `n` operands more. -/
def lift (σ : Shape) (n : Nat) : Shape := { σ with height := σ.height + n }

/-- The shape inside of a scope that is opened at an index. -/
def enter (σ : Shape) (pc slots : Nat) : Shape :=
  { σ with
    scopes := slots :: σ.scopes, opened := pc :: σ.opened, loop := σ.loop.map Source.Inside.enter }

/-- The shape inside of the scope of a loop. -/
def enterLoop (σ : Shape) (place : Source.LoopPlace) (slots : Nat) : Shape :=
  { σ with
    scopes := slots :: σ.scopes, opened := place.start :: σ.opened, loop := some ⟨place, 0⟩ }

/-- The shape without operands outside of `n` scopes that are all in the same loop. -/
def leave (σ : Shape) (n : Nat) : Shape :=
  ⟨0, σ.scopes.drop n, σ.opened.drop n, σ.loop.map fun i => ⟨i.loop, i.scopes - n⟩, σ.level⟩

/-- The shape at the start of a function that is made here. -/
def entry (σ : Shape) (arity : Nat) : Shape := ⟨0, arity :: σ.scopes, [], none, .function⟩

/-- The shape without operands of a new thread. -/
def spawned (σ : Shape) (pc : Nat) : Shape := ⟨0, σ.scopes, [], none, .spawned pc⟩

/-- The shape without operands of that thread behind its call. -/
def ending (σ : Shape) (pc : Nat) : Shape := ⟨0, σ.scopes, [], none, .ending pc⟩

/-- There is a variable at a position. -/
def Has (σ : Shape) (p : Position) : Prop :=
  ∃ slots, σ.scopes.reverse[p.frame]? = some slots ∧ p.slot < slots

/-- One frame more would fit, with so many slots. -/
def Fits (σ : Shape) (slots : Nat) : Prop := slots ≤ maxSlots ∧ σ.scopes.length < maxSlots

/-- The second shape is that inside of a scope that is opened at an index. -/
structure Opens (σ : Shape) (pc slots : Nat) (τ : Shape) : Prop where
  /-- The operands stay. -/
  height : τ.height = σ.height
  /-- There is a frame more. -/
  scopes : τ.scopes = slots :: σ.scopes
  /-- There is a block frame more. -/
  opened : τ.opened = pc :: σ.opened
  /-- The same thread goes on in the same function. -/
  level : τ.level = σ.level

theorem opens_enter (σ : Shape) (pc slots : Nat) : σ.Opens pc slots (σ.enter pc slots) :=
  ⟨rfl, rfl, rfl, rfl⟩

theorem opens_enterLoop (σ : Shape) (place : Source.LoopPlace) (slots : Nat) :
    σ.Opens place.start slots (σ.enterLoop place slots) :=
  ⟨rfl, rfl, rfl, rfl⟩

theorem lift_lift (σ : Shape) (m n : Nat) : (σ.lift m).lift n = σ.lift (m + n) := by
  simp [lift, Nat.add_assoc]

/-- The operands of a shape on those of another one without any. -/
theorem exists_lift (σ : Shape) {n : Nat} (h : σ.height = n) :
    ∃ ρ : Shape, σ = ρ.lift n ∧ ρ.height = 0 ∧ ρ.level = σ.level :=
  ⟨{ σ with height := 0 }, by simp [lift, ← h], rfl, rfl⟩

theorem loop_lift (σ : Shape) (n : Nat) : (σ.lift n).loop = σ.loop := rfl

theorem leave_enter (σ : Shape) (pc slots n : Nat) :
    (σ.enter pc slots).leave (n + 1) = σ.leave n := by
  cases hloop : σ.loop <;> simp [leave, enter, hloop, Source.Inside.enter]

theorem leave_zero {σ : Shape} (h : σ.height = 0) : σ.leave 0 = σ := by
  cases σ with
  | mk height scopes opened loop level =>
    cases h
    cases loop <;> rfl

/-- The loop around does not depend on the operands. -/
theorem loop_leave_zero (σ : Shape) : (σ.leave 0).loop = σ.loop := by
  cases hloop : σ.loop <;> simp [leave, hloop]

end Shape

/-! ## Rules -/

/-- How many operands an instruction takes that puts one in their place and goes on. -/
def Instruction.takes? : Instruction → Option Nat
  | .constant _ | .newChannel _ | .newWaitGroup => some 0
  | .unary _ | .receive | .groupDone | .groupWait => some 1
  | .binary _ | .send | .groupAdd => some 2
  | .call n => some (n + 1)
  | _ => none

/-- A loop stands in the code, and a search from an index finds its end. -/
structure Program.FindsLoop (p : Program) (pc : Nat) (i : Source.Inside) : Prop where
  /-- It starts with a scope. -/
  start : ∃ slots, p.at? i.loop.start = some (.enterScope slots)
  /-- It ends with a mark. -/
  marker : p.at? i.loop.marker = some (.loopEnd i.loop.next)
  /-- The search comes to the mark. -/
  search : p.loopEndAfter pc = .found ⟨i.loop.marker, i.loop.next, i.scopes⟩

/-- An instruction at an index with a shape, and what it requires of the plan. -/
inductive Follows (p : Program) (plan : Plan) (pc : Nat) : Shape → Instruction → Prop where
  /-- Some operands are replaced by one. -/
  | plain {σ : Shape} {i : Instruction} {n : Nat} (takes : i.takes? = some n)
      (next : plan (pc + 1) = some (σ.lift 1)) : Follows p plan pc (σ.lift n) i
  /-- The value of a variable. -/
  | load {σ : Shape} {q : Position} (has : σ.Has q) (next : plan (pc + 1) = some (σ.lift 1)) :
      Follows p plan pc σ (.load q)
  /-- The value on top is assigned. -/
  | store {σ : Shape} {q : Position} (has : σ.Has q) (next : plan (pc + 1) = some (σ.lift 1)) :
      Follows p plan pc (σ.lift 1) (.store q)
  /-- A function, whose code has a plan. -/
  | closure {σ : Shape} {arity entry : Nat} (fits : σ.Fits arity)
      (next : plan (pc + 1) = some (σ.lift 1)) (body : plan entry = some (σ.entry arity)) :
      Follows p plan pc σ (.closure arity entry)
  /-- A call in place of the running function takes all operands. -/
  | tailCall {σ : Shape} {n : Nat} (height : σ.height = n + 1) (level : σ.level = .function) :
      Follows p plan pc σ (.tailCall n)
  /-- The result is the only operand. -/
  | ret {σ : Shape} (height : σ.height = 1) (level : σ.level = .function) :
      Follows p plan pc σ .ret
  /-- A scope is opened. -/
  | enterScope {σ τ : Shape} {slots : Nat} (fits : σ.Fits slots) (opens : σ.Opens pc slots τ)
      (next : plan (pc + 1) = some τ) : Follows p plan pc σ (.enterScope slots)
  /-- A scope is closed. -/
  | exitScope {σ τ : Shape} {start slots : Nat} (opens : σ.Opens start slots τ)
      (next : plan (pc + 1) = some σ) : Follows p plan pc τ .exitScope
  /-- An operand is dropped. -/
  | pop {σ : Shape} (next : plan (pc + 1) = some σ) : Follows p plan pc (σ.lift 1) .pop
  /-- An operand is dropped, and there are two ways to go on. -/
  | jumpUnless {σ : Shape} {target : Nat} (next : plan (pc + 1) = some σ)
      (jumps : plan target = some σ) : Follows p plan pc (σ.lift 1) (.jumpUnless target)
  /-- The code goes on elsewhere. -/
  | jump {σ : Shape} {target : Nat} (jumps : plan target = some σ) :
      Follows p plan pc σ (.jump target)
  /-- Nothing happens. -/
  | loopEnd {σ : Shape} {round : Nat} (next : plan (pc + 1) = some σ) :
      Follows p plan pc σ (.loopEnd round)
  /-- A loop is left, without operands. -/
  | breakLoop {σ : Shape} {i : Source.Inside} (height : σ.height = 0) (inside : σ.loop = some i)
      (finds : p.FindsLoop pc i) (opened : σ.opened[i.scopes]? = some i.loop.start)
      (jumps : plan (i.loop.marker + 1) = some (σ.leave i.scopes)) : Follows p plan pc σ .breakLoop
  /-- A loop goes on, without operands. -/
  | continueLoop {σ : Shape} {i : Source.Inside} (height : σ.height = 0) (inside : σ.loop = some i)
      (finds : p.FindsLoop pc i) (opened : σ.opened[i.scopes]? = some i.loop.start)
      (jumps : plan i.loop.next = some (σ.leave i.scopes)) : Follows p plan pc σ .continueLoop
  /-- A function and its arguments move to a new thread, which calls it and ends. -/
  | spawn {σ : Shape} {n : Nat} (call : p.at? (pc + 1) = some (.call n))
      (stop : p.at? (pc + 2) = some .endThread)
      (start : plan (pc + 1) = some ((σ.spawned pc).lift (n + 1)))
      (ending : plan (pc + 2) = some ((σ.ending pc).lift 1))
      (next : plan (pc + 3) = some (σ.lift 1)) : Follows p plan pc (σ.lift (n + 1)) (.spawn n)
  /-- A new thread calls its function. -/
  | firstCall {σ : Shape} {start n : Nat} (here : pc = start + 1)
      (next : plan (pc + 1) = some ((σ.ending start).lift 1)) :
      Follows p plan pc ((σ.spawned start).lift (n + 1)) (.call n)
  /-- A thread ends that is not the main one. -/
  | endThread {σ : Shape} {start : Nat} (here : pc = start + 2) (level : σ.level = .ending start) :
      Follows p plan pc σ .endThread
  /-- The main thread ends the run with the only operand. -/
  | halt {σ : Shape} (height : σ.height = 1) (level : σ.level = .main) :
      Follows p plan pc σ .halt

/-- A new operand. -/
theorem Follows.push {p : Program} {plan : Plan} {pc : Nat} {σ : Shape} {i : Instruction}
    (takes : i.takes? = some 0) (next : plan (pc + 1) = some (σ.lift 1)) :
    Follows p plan pc σ i :=
  .plain takes next

/-! ## The code of new threads -/

/-- Behind the instruction that starts a thread stands the code of the thread, which has no other. -/
structure ForThread (p : Program) (plan : Plan) (pc n : Nat) : Prop where
  /-- The function is called. -/
  call : p.at? (pc + 1) = some (.call n)
  /-- The thread ends. -/
  stop : p.at? (pc + 2) = some .endThread
  /-- Only such a thread makes this call. -/
  start : ∀ σ, plan (pc + 1) = some σ → σ.level = .spawned pc
  /-- Only such a thread ends here. -/
  ending : ∀ σ, plan (pc + 2) = some σ → σ.level = .ending pc

/-- A shape of a new thread stands in its code. -/
def Shape.AtHome (p : Program) (plan : Plan) (pc : Nat) (σ : Shape) : Prop :=
  match σ.level with
  | .main | .function => True
  | .spawned start => pc = start + 1 ∧ ∃ (ρ : Shape) (n : Nat), σ = (ρ.spawned start).lift (n + 1) ∧
      p.at? pc = some (.call n) ∧ plan (pc + 1) = some ((ρ.ending start).lift 1) ∧
      p.at? (pc + 1) = some .endThread
  | .ending start => pc = start + 2 ∧ p.at? pc = some .endThread

open Classical in
/-- The plan without what looks like the code of a new thread elsewhere. -/
noncomputable def Plan.tidy (p : Program) (plan : Plan) : Plan := fun pc =>
  (plan pc).filter fun σ => σ.AtHome p plan pc

section Tidy

variable {p : Program} {plan : Plan} {pc : Nat} {σ : Shape} {i : Instruction}

theorem Plan.tidy_eq_some : plan.tidy p pc = some σ ↔ plan pc = some σ ∧ σ.AtHome p plan pc := by
  simp [Plan.tidy]

theorem Shape.atHome_of_level (h : σ.level = .main ∨ σ.level = .function) : σ.AtHome p plan pc := by
  unfold Shape.AtHome
  rcases h with h | h <;> rw [h] <;> trivial

/-- A thread ends at home. -/
theorem Shape.atHome_ending {start n : Nat} (hpc : pc = start + 2)
    (hend : p.at? pc = some .endThread) : ((σ.ending start).lift n).AtHome p plan pc :=
  ⟨hpc, hend⟩

theorem Shape.AtHome.tidy (home : σ.AtHome p plan pc) : σ.AtHome p (plan.tidy p) pc := by
  unfold Shape.AtHome at home ⊢
  split at home
  next => trivial
  next => trivial
  next start =>
    obtain ⟨rfl, ρ, n, hσ, hcall, hplan, hend⟩ := home
    exact ⟨rfl, ρ, n, hσ, hcall, Plan.tidy_eq_some.2 ⟨hplan, Shape.atHome_ending rfl hend⟩, hend⟩
  next => exact home

/-- The code outside of new threads keeps its shapes, and a new thread has those of its own code. -/
theorem Follows.tidy (follows : Follows p plan pc σ i) (hi : p.at? pc = some i)
    (home : σ.AtHome p plan pc) : Follows p (plan.tidy p) pc σ i := by
  by_cases hlevel : σ.level = .main ∨ σ.level = .function
  · have keep : ∀ {q : Nat} {τ : Shape}, plan q = some τ → τ.level = σ.level →
        plan.tidy p q = some τ := fun hτ h =>
      Plan.tidy_eq_some.2 ⟨hτ, Shape.atHome_of_level (h ▸ hlevel)⟩
    cases follows with
    | plain takes next => exact .plain takes (keep next rfl)
    | load has next => exact .load has (keep next rfl)
    | store has next => exact .store has (keep next rfl)
    | closure fits next body =>
      exact .closure fits (keep next rfl)
        (Plan.tidy_eq_some.2 ⟨body, Shape.atHome_of_level (.inr rfl)⟩)
    | tailCall height level => exact .tailCall height level
    | ret height level => exact .ret height level
    | enterScope fits opens next => exact .enterScope fits opens (keep next opens.level)
    | exitScope opens next => exact .exitScope opens (keep next opens.level.symm)
    | pop next => exact .pop (keep next rfl)
    | jumpUnless next jumps => exact .jumpUnless (keep next rfl) (keep jumps rfl)
    | jump jumps => exact .jump (keep jumps rfl)
    | loopEnd next => exact .loopEnd (keep next rfl)
    | breakLoop height inside finds opened jumps =>
      exact .breakLoop height inside finds opened (keep jumps rfl)
    | continueLoop height inside finds opened jumps =>
      exact .continueLoop height inside finds opened (keep jumps rfl)
    | @spawn ρ n call stop start ending next =>
      have hending := Plan.tidy_eq_some.2 ⟨ending, Shape.atHome_ending rfl stop⟩
      exact .spawn call stop
        (Plan.tidy_eq_some.2 ⟨start, rfl, ρ, n, rfl, call, ending, stop⟩) hending (keep next rfl)
    | firstCall => rcases hlevel with h | h <;> cases h
    | endThread here level => exact .endThread here level
    | halt height level => exact .halt height level
  · unfold Shape.AtHome at home
    split at home
    next h => exact absurd (.inl h) hlevel
    next h => exact absurd (.inr h) hlevel
    next start _ =>
      obtain ⟨rfl, ρ, n, rfl, hcall, hplan, hend⟩ := home
      obtain rfl := Option.some.inj (hi.symm.trans hcall)
      exact .firstCall rfl (Plan.tidy_eq_some.2 ⟨hplan, Shape.atHome_ending rfl hend⟩)
    next start hstart =>
      obtain ⟨hpc, hend⟩ := home
      obtain rfl := Option.some.inj (hi.symm.trans hend)
      exact .endThread hpc hstart

end Tidy

/-! ## Lists at an index -/

/-- The values of a function from an index on are those of a list. -/
def Lies {α : Type} (f : Nat → Option α) : Nat → List α → Prop
  | _, [] => True
  | n, x :: rest => f n = some x ∧ Lies f (n + 1) rest

section Lies

variable {α : Type} {f : Nat → Option α}

theorem lies_nil (n : Nat) : Lies f n [] ↔ True := Iff.rfl

theorem lies_cons (n : Nat) (x : α) (rest : List α) :
    Lies f n (x :: rest) ↔ f n = some x ∧ Lies f (n + 1) rest := Iff.rfl

theorem lies_append (first second : List α) :
    ∀ n, Lies f n (first ++ second) ↔ Lies f n first ∧ Lies f (n + first.length) second := by
  induction first with
  | nil => exact fun n => (iff_of_eq (true_and _)).symm
  | cons x rest ih =>
    intro n
    rw [List.cons_append, lies_cons, lies_cons, ih, and_assoc, List.length_cons,
      show n + 1 + rest.length = n + (rest.length + 1) by omega]

theorem lies_of_getElem? (l : List α) :
    ∀ n, (∀ i x, l[i]? = some x → f (n + i) = some x) → Lies f n l := by
  induction l with
  | nil => exact fun _ _ => trivial
  | cons x rest ih =>
    refine fun n h => ⟨h 0 x rfl, ih _ fun i y hy => ?_⟩
    rw [show n + 1 + i = n + (i + 1) by omega]
    exact h (i + 1) y hy

/-- A value that stands at an index, and those behind it. -/
theorem Lies.head {n : Nat} {l : List α} {x : α} (h : Lies f n l) (hx : l.head? = some x) :
    f n = some x := by
  cases l with
  | nil => cases hx
  | cons y rest => exact Option.some.inj hx ▸ h.1

/-- The value in front of a list and the one behind it. -/
theorem Lies.entry {n m : Nat} {l : List α} {x y : α} (h : Lies f n l) (hlen : l.length = m)
    (hend : f (n + m) = some y) (hx : (l ++ [y]).head? = some x) : f n = some x :=
  ((lies_append l [y] n).2 ⟨h, hlen ▸ hend, trivial⟩).head hx

end Lies

/-- All instructions of some code follow the shapes of a list. -/
def Flows (p : Program) (plan : Plan) : Nat → Source.Code → List Shape → Prop
  | _, [], [] => True
  | pc, i :: code, σ :: shapes => Follows p plan pc σ i ∧ Flows p plan (pc + 1) code shapes
  | _, _, _ => False

section Flows

variable {p : Program} {plan : Plan}

theorem Flows.append {first second : Source.Code} {shapes later : List Shape} :
    ∀ {pc : Nat}, Flows p plan pc first shapes → Flows p plan (pc + first.length) second later →
      Flows p plan pc (first ++ second) (shapes ++ later) := by
  induction first generalizing shapes with
  | nil =>
    intro pc hfirst hsecond
    cases shapes with
    | nil => exact hsecond
    | cons => exact hfirst.elim
  | cons i code ih =>
    intro pc hfirst hsecond
    cases shapes with
    | nil => exact hfirst.elim
    | cons σ shapes =>
      refine ⟨hfirst.1, ih hfirst.2 ?_⟩
      rw [show pc + 1 + code.length = pc + (i :: code).length by rw [List.length_cons]; omega]
      exact hsecond

theorem Flows.follows {code : Source.Code} {shapes : List Shape} {j : Nat} {i : Instruction}
    {σ : Shape} : ∀ {pc : Nat}, Flows p plan pc code shapes → code[j]? = some i →
      shapes[j]? = some σ → Follows p plan (pc + j) σ i := by
  induction j generalizing code shapes with
  | zero =>
    intro pc h hi hσ
    cases code with
    | nil => cases hi
    | cons _ code =>
      cases shapes with
      | nil => cases hσ
      | cons _ shapes =>
        obtain rfl := Option.some.inj hi
        obtain rfl := Option.some.inj hσ
        exact h.1
  | succ j ih =>
    intro pc h hi hσ
    cases code with
    | nil => cases hi
    | cons _ code =>
      cases shapes with
      | nil => cases hσ
      | cons _ shapes =>
        rw [show pc + (j + 1) = pc + 1 + j by omega]
        exact ih h.2 hi hσ

end Flows

/-! ## The search for the end of a loop -/

namespace Program

variable {p : Program} {pc pc' pc'' depth depth' depth'' closed closed' closed'' : Nat}

/-- The search for the end of a loop comes from one state to another, and each step of it takes it
further. -/
def Passes (p : Program) (pc depth closed pc' depth' closed' : Nat) : Prop :=
  ∃ steps, pc + steps ≤ pc' ∧ ∀ fuel,
    p.findLoopEnd (fuel + steps) pc depth closed = p.findLoopEnd fuel pc' depth' closed'

/-- The search passes over the code between two indices, and no scope is left open or closed. -/
def Skips (p : Program) (pc pc' : Nat) : Prop :=
  ∀ depth closed, p.Passes pc depth closed pc' depth closed

theorem Passes.refl : p.Passes pc depth closed pc depth closed := ⟨0, Nat.le_refl _, fun _ => rfl⟩

theorem Passes.trans (first : p.Passes pc depth closed pc' depth' closed')
    (second : p.Passes pc' depth' closed' pc'' depth'' closed'') :
    p.Passes pc depth closed pc'' depth'' closed'' := by
  obtain ⟨m, hm, first⟩ := first
  obtain ⟨n, hn, second⟩ := second
  refine ⟨n + m, by omega, fun fuel => ?_⟩
  rw [← Nat.add_assoc, first, second]

theorem Passes.step (hlt : pc + 1 ≤ pc') (h : ∀ fuel,
    p.findLoopEnd (fuel + 1) pc depth closed = p.findLoopEnd fuel pc' depth' closed') :
    p.Passes pc depth closed pc' depth' closed' := ⟨1, hlt, h⟩

theorem Skips.refl : p.Skips pc pc := fun _ _ => .refl

theorem Skips.trans (first : p.Skips pc pc') (second : p.Skips pc' pc'') : p.Skips pc pc'' :=
  fun depth closed => (first depth closed).trans (second depth closed)

theorem passes_enterScope {slots : Nat} (h : p.at? pc = some (.enterScope slots)) :
    p.Passes pc depth closed (pc + 1) (depth + 1) closed :=
  .step (Nat.le_refl _) fun fuel => by simp [findLoopEnd, h]

/-- A scope that was opened on the way is closed. -/
theorem passes_exitScope (h : p.at? pc = some .exitScope) :
    p.Passes pc (depth + 1) closed (pc + 1) depth closed :=
  .step (Nat.le_refl _) fun fuel => by simp [findLoopEnd, h]

/-- A scope around is closed. -/
theorem passes_out (h : p.at? pc = some .exitScope) :
    p.Passes pc 0 closed (pc + 1) 0 (closed + 1) :=
  .step (Nat.le_refl _) fun fuel => by simp [findLoopEnd, h]

/-- The end of a loop inside a scope that was opened on the way. -/
theorem passes_loopEnd {next : Nat} (h : p.at? pc = some (.loopEnd next)) :
    p.Passes pc (depth + 1) closed (pc + 1) (depth + 1) closed :=
  .step (Nat.le_refl _) fun fuel => by simp [findLoopEnd, h]

/-- The body of a function is jumped over. -/
theorem skips_closure {arity entry target : Nat} (h : p.at? pc = some (.closure arity entry))
    (hjump : p.at? (pc + 1) = some (.jump target)) (hlt : pc + 1 ≤ target) :
    p.Skips pc target := fun _ _ =>
  .step hlt fun fuel => by simp [findLoopEnd, h, hjump]

/-- A search that comes to the end of the loop finds it. -/
theorem Passes.loopEndAfter {next n : Nat} (h : p.Passes (pc + 1) 0 0 pc' 0 n)
    (hmarker : p.at? pc' = some (.loopEnd next)) : p.loopEndAfter pc = .found ⟨pc', next, n⟩ := by
  obtain ⟨steps, hsteps, h⟩ := h
  have hlt : pc' < p.code.size := (Array.getElem?_eq_some_iff.1 hmarker).1
  have hbound : p.code.size + 1 ≤ p.searchBound := Nat.le_mul_of_pos_right _ (Nat.succ_pos _)
  have hfuel : p.searchBound = p.searchBound - steps - 1 + 1 + steps := by omega
  rw [Program.loopEndAfter, hfuel, h]
  simp only [findLoopEnd, hmarker]

end Program

/-- Whether the search for the end of a loop takes no notice of an instruction. -/
def Instruction.isPassed : Instruction → Bool
  | .enterScope _ | .exitScope | .closure .. | .loopEnd _ | .halt => false
  | _ => true

theorem Instruction.isPassed_of_isStraight {i : Instruction} (h : i.isStraight = true) :
    i.isPassed = true := by
  cases i <;> first | rfl | cases h

theorem Program.skips_passed {p : Program} {pc : Nat} {i : Instruction} (h : p.at? pc = some i)
    (hi : i.isPassed = true) : p.Skips pc (pc + 1) := fun _ _ =>
  .step (Nat.le_refl _) fun fuel => by
    cases i with
    | enterScope | exitScope | closure | loopEnd | halt => cases hi
    | _ => simp [findLoopEnd, h]

/-- The end of the loop around is found, as seen from an index with a shape, and the plan knows the
shapes of a thread that leaves the loop or goes on with it. -/
structure LoopAround (p : Program) (plan : Plan) (pc : Nat) (σ : Shape) (i : Source.Inside) :
    Prop where
  /-- The loop is the one around. -/
  inside : σ.loop = some i
  /-- It starts with a scope. -/
  start : ∃ slots, p.at? i.loop.start = some (.enterScope slots)
  /-- The search comes to its end. -/
  passes : ∀ k, p.Passes pc 0 k i.loop.marker 0 (k + i.scopes)
  /-- It ends here. -/
  marker : p.at? i.loop.marker = some (.loopEnd i.loop.next)
  /-- The scope of the loop is open. -/
  opened : σ.opened[i.scopes]? = some i.loop.start
  /-- The loop is left. -/
  leaves : plan (i.loop.marker + 1) = some (σ.leave i.scopes)
  /-- The loop goes on. -/
  goesOn : plan i.loop.next = some (σ.leave i.scopes)

namespace LoopAround

variable {p : Program} {plan : Plan} {pc pc' : Nat} {σ : Shape} {i : Source.Inside}

theorem of_skips (skips : p.Skips pc pc') (around : LoopAround p plan pc' σ i) :
    LoopAround p plan pc σ i :=
  { around with passes := fun k => (skips 0 k).trans (around.passes k) }

/-- The operands do not count. -/
theorem congr {τ : Shape} (h : τ.leave 0 = σ.leave 0) (around : LoopAround p plan pc τ i) :
    LoopAround p plan pc σ i := by
  have hloop : τ.loop = σ.loop := by
    rw [← τ.loop_leave_zero, h, σ.loop_leave_zero]
  cases σ
  cases τ
  simp only [Shape.leave, List.drop_zero, Shape.mk.injEq, true_and] at h hloop
  obtain ⟨rfl, rfl, -, rfl⟩ := h
  subst hloop
  exact ⟨around.inside, around.start, around.passes, around.marker, around.opened, around.leaves, around.goesOn⟩

/-- From inside of a scope. -/
theorem enter {start slots : Nat} (h : p.at? pc = some .exitScope)
    (around : LoopAround p plan (pc + 1) σ i) :
    LoopAround p plan pc (σ.enter start slots) i.enter where
  inside := congrArg (Option.map Source.Inside.enter) around.inside
  start := around.start
  passes := by
    intro k
    have hpasses := (Program.passes_out h).trans (around.passes (k + 1))
    rwa [Nat.add_right_comm] at hpasses
  marker := around.marker
  opened := around.opened
  leaves := around.leaves.trans (congrArg some (σ.leave_enter start slots i.scopes).symm)
  goesOn := around.goesOn.trans (congrArg some (σ.leave_enter start slots i.scopes).symm)

/-- The search for the end of the loop finds it. -/
theorem finds (around : LoopAround p plan (pc + 1) σ i) : p.FindsLoop pc i where
  start := around.start
  marker := around.marker
  search := by
    have h := around.passes 0
    rw [Nat.zero_add] at h
    exact h.loopEndAfter around.marker

end LoopAround

end ChannelMachine

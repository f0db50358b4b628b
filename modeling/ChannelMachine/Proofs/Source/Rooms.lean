import Mathlib.Data.List.Forall2
import ChannelMachine.Proofs.Source.Declarations
import ChannelMachine.Proofs.Source.Plan

/-!
# Rooms

A `Room` is a frame of the environment as the compiler knows it at an index: what made it, which names
its slots have, and how many of its declarations a thread has behind it that is at the index.  A layout
gives each index its rooms.  `Leads` are the rules by which an instruction takes the rooms at one index to
those at the next.

Only a declaration moves on in a room, and only in the innermost one.  Nothing goes back: a loop jumps
back to its test, which has the same rooms as its end, since the declarations in its body are in a room
of their own.  A function sees the rooms around it, but it is not the one that executes their
declarations, and therefore they count as passed (`Room.settle`).
-/

namespace ChannelMachine

/-- Whether a thread goes on in the same rooms behind an instruction. -/
def Instruction.isSimple : Instruction → Bool
  | .constant _ | .load _ | .call _ | .pop | .unary _ | .binary _ | .loopEnd _ | .newChannel _ | .send
  | .receive | .newWaitGroup | .groupAdd | .groupDone | .groupWait => true
  | _ => false

/-- Whether an instruction is the last one of a function, of a thread or of the program. -/
def Instruction.isLast : Instruction → Bool
  | .tailCall _ | .ret | .endThread | .halt => true
  | _ => false

/-- What makes a frame of variables. -/
inductive Origin where
  /-- Nothing does, since it is there from the start. -/
  | builtins
  /-- The call of a function makes it. -/
  | call
  /-- The instruction at an index opens a scope. -/
  | scope (start : Nat)
deriving DecidableEq, Repr

namespace Source

/-- A frame of the environment at an index. -/
structure Room where
  /-- What makes it. -/
  origin : Origin
  /-- The names of its slots. -/
  names : Scope
  /-- How many of its declarations are passed. -/
  passed : Nat

namespace Room

/-- The frame of the builtins. -/
def builtins : Room := ⟨.builtins, Scope.builtins, Scope.builtins.length⟩

/-- A new scope. -/
def opened (start : Nat) (names : Scope) : Room := ⟨.scope start, names, 0⟩

/-- The parameters of a function. -/
def parameters (names : Scope) : Room := ⟨.call, names, names.length⟩

/-- Some declarations further. -/
def advance (r : Room) (n : Nat) : Room := { r with passed := r.passed + n }

/-- Without declarations to come. -/
def settle (r : Room) : Room := { r with passed := r.names.length }

/-- No declarations are to come. -/
def Settled (r : Room) : Prop := r.names.length ≤ r.passed

/-- The same frame, with no fewer declarations passed. -/
structure Ahead (r s : Room) : Prop where
  /-- What makes it. -/
  origin : s.origin = r.origin
  /-- The names. -/
  names : s.names = r.names
  /-- No declaration comes back. -/
  passed : r.passed ≤ s.passed

theorem Ahead.refl (r : Room) : r.Ahead r := ⟨rfl, rfl, Nat.le_refl _⟩

theorem Ahead.trans {r s t : Room} (first : r.Ahead s) (second : s.Ahead t) : r.Ahead t :=
  ⟨second.origin.trans first.origin, second.names.trans first.names,
    Nat.le_trans first.passed second.passed⟩

theorem ahead_advance (r : Room) (n : Nat) : r.Ahead (r.advance n) :=
  ⟨rfl, rfl, Nat.le_add_right _ _⟩

theorem Ahead.settled {r s : Room} (ahead : r.Ahead s) (settled : r.Settled) : s.Settled := by
  unfold Settled
  rw [ahead.names]
  exact Nat.le_trans settled ahead.passed

/-- The same frames, with no fewer declarations passed. -/
abbrev AllAhead : List Room → List Room → Prop := List.Forall₂ Ahead

theorem AllAhead.refl (rooms : List Room) : AllAhead rooms rooms :=
  List.forall₂_same.2 fun r _ => .refl r

theorem AllAhead.trans {first second third : List Room} (h : AllAhead first second)
    (h' : AllAhead second third) : AllAhead first third := by
  induction h generalizing third with
  | nil => exact h'
  | cons head _ ih =>
    obtain ⟨_, _, head', rest', rfl⟩ := List.forall₂_cons_left_iff.1 h'
    exact .cons (head.trans head') (ih rest')

theorem settled_settle (r : Room) : r.settle.Settled := Nat.le_refl _

theorem settled_parameters (names : Scope) : (parameters names).Settled :=
  Nat.le_refl _

end Room

/-- The rooms at an index. -/
structure Site where
  /-- The frames of the environment, innermost first. -/
  rooms : List Room
  /-- The loop around. -/
  loop : Option Inside

/-- The rooms at the indices of a program. -/
abbrev Layout := Nat → Option Site

namespace Site

/-- The same rooms, with no fewer declarations passed. -/
structure Ahead (φ ψ : Site) : Prop where
  /-- The rooms. -/
  rooms : Room.AllAhead φ.rooms ψ.rooms
  /-- The loop. -/
  loop : ψ.loop = φ.loop

theorem Ahead.refl (φ : Site) : φ.Ahead φ := ⟨.refl _, rfl⟩

/-- Some declarations further, in the innermost room. -/
def advance (φ : Site) (n : Nat) : Site :=
  match φ.rooms with
  | [] => φ
  | room :: outer => { φ with rooms := room.advance n :: outer }

theorem advance_zero (φ : Site) : φ.advance 0 = φ := by
  obtain ⟨_ | ⟨room, outer⟩, loop⟩ := φ <;> rfl

theorem advance_advance (φ : Site) (m n : Nat) : (φ.advance m).advance n = φ.advance (m + n) := by
  obtain ⟨_ | ⟨room, outer⟩, loop⟩ := φ
  · rfl
  · simp [advance, Room.advance, Nat.add_assoc]

theorem loop_advance (φ : Site) (n : Nat) : (φ.advance n).loop = φ.loop := by
  obtain ⟨_ | ⟨room, outer⟩, loop⟩ := φ <;> rfl

theorem ahead_advance (φ : Site) (n : Nat) : φ.Ahead (φ.advance n) := by
  obtain ⟨_ | ⟨room, outer⟩, loop⟩ := φ
  · exact .refl _
  · exact ⟨.cons (room.ahead_advance n) (Room.AllAhead.refl _), rfl⟩

/-- Inside of a scope that is opened at an index. -/
def enter (φ : Site) (pc : Nat) (names : Scope) : Site :=
  ⟨.opened pc names :: φ.rooms, φ.loop.map Inside.enter⟩

/-- Inside of the scope of a loop. -/
def enterLoop (φ : Site) (place : LoopPlace) (names : Scope) : Site :=
  ⟨.opened place.start names :: φ.rooms, some ⟨place, 0⟩⟩

/-- At the start of a function that is made here. -/
def entry (φ : Site) (names : Scope) : Site :=
  ⟨.parameters names :: φ.rooms.map .settle, none⟩

/-- In a new thread. -/
def spawned (φ : Site) : Site := ⟨φ.rooms.map .settle, none⟩

/-- A slot of a frame has this name. -/
def Names (φ : Site) (q : Position) (name : String) (binding : Binding) : Prop :=
  ∃ room, φ.rooms.reverse[q.frame]? = some room ∧ room.names[q.slot]? = some (name, binding)

end Site

/-! ## Rules -/

/-- All names of a scope are listed. -/
def Lists (table : List Declaration) (start : Nat) (names : Scope) : Prop :=
  ∀ slot x, names[slot]? = some x → ∃ index, ⟨start, slot, x.1, x.2, index⟩ ∈ table

/-- How instructions lead from the rooms in front of them to those behind them. -/
inductive Leads (layout : Layout) (table : List Declaration) (pc : Nat) :
    Site → Instruction → Prop where
  /-- The thread goes on in the same rooms. -/
  | simple {φ : Site} {i : Instruction} (simple : i.isSimple = true)
      (next : layout (pc + 1) = some φ) : Leads layout table pc φ i
  /-- The thread does not go on, or it goes on elsewhere. -/
  | last {φ : Site} {i : Instruction} (last : i.isLast = true) : Leads layout table pc φ i
  /-- A variable is assigned. -/
  | assign {φ : Site} {q : Position} {name : String} (names : φ.Names q name .variable)
      (next : layout (pc + 1) = some φ) : Leads layout table pc φ (.store q)
  /-- The next name of the innermost room is declared. -/
  | declare {room : Room} {outer : List Room} {loop : Option Inside} {start : Nat} {name : String}
      {binding : Binding} (opened : room.origin = .scope start)
      (names : room.names[room.passed]? = some (name, binding))
      (listed : ⟨start, room.passed, name, binding, pc⟩ ∈ table)
      (next : layout (pc + 1) = some ⟨room.advance 1 :: outer, loop⟩) :
      Leads layout table pc ⟨room :: outer, loop⟩ (.store ⟨outer.length, room.passed⟩)
  /-- A function is made. -/
  | closure {φ : Site} {entry : Nat} {names : Scope}
      (plain : ∀ name ∈ names, name.2 = .variable) (next : layout (pc + 1) = some φ)
      (body : layout entry = some (φ.entry names)) :
      Leads layout table pc φ (.closure names.length entry)
  /-- A scope is opened. -/
  | enterScope {φ : Site} {names : Scope} {loop : Option Inside} (listed : Lists table pc names)
      (next : layout (pc + 1) = some ⟨.opened pc names :: φ.rooms, loop⟩) :
      Leads layout table pc φ (.enterScope names.length)
  /-- A scope is closed. -/
  | exitScope {room : Room} {outer : List Room} {loop loop' : Option Inside}
      (next : layout (pc + 1) = some ⟨outer, loop'⟩) :
      Leads layout table pc ⟨room :: outer, loop⟩ .exitScope
  /-- There are two ways to go on. -/
  | jumpUnless {φ : Site} {target : Nat} (next : layout (pc + 1) = some φ)
      (jumps : layout target = some φ) : Leads layout table pc φ (.jumpUnless target)
  /-- The thread goes on elsewhere in the same rooms. -/
  | jump {φ : Site} {target : Nat} (jumps : layout target = some φ) :
      Leads layout table pc φ (.jump target)
  /-- A loop is left. -/
  | breakLoop {φ ψ : Site} {i : Inside} (inside : φ.loop = some i)
      (jumps : layout (i.loop.marker + 1) = some ψ)
      (ahead : Room.AllAhead (φ.rooms.drop i.scopes) ψ.rooms) :
      Leads layout table pc φ .breakLoop
  /-- A loop goes on. -/
  | continueLoop {φ ψ : Site} {i : Inside} (inside : φ.loop = some i)
      (jumps : layout i.loop.next = some ψ)
      (ahead : Room.AllAhead (φ.rooms.drop i.scopes) ψ.rooms) :
      Leads layout table pc φ .continueLoop
  /-- A thread is started. -/
  | spawn {φ : Site} {n : Nat} (start : layout (pc + 1) = some φ.spawned)
      (next : layout (pc + 3) = some φ) : Leads layout table pc φ (.spawn n)

/-- All instructions of some code lead on from the sites of a list. -/
def Leading (layout : Layout) (table : List Declaration) : Nat → Code → List Site → Prop
  | _, [], [] => True
  | pc, i :: code, φ :: sites =>
      Leads layout table pc φ i ∧ Leading layout table (pc + 1) code sites
  | _, _, _ => False

namespace Leading

variable {layout : Layout} {table : List Declaration}

theorem append {first second : Code} {sites later : List Site} :
    ∀ {pc : Nat}, Leading layout table pc first sites →
      Leading layout table (pc + first.length) second later →
      Leading layout table pc (first ++ second) (sites ++ later) := by
  induction first generalizing sites with
  | nil =>
    intro pc hfirst hsecond
    cases sites with
    | nil => exact hsecond
    | cons => exact hfirst.elim
  | cons i code ih =>
    intro pc hfirst hsecond
    cases sites with
    | nil => exact hfirst.elim
    | cons φ sites =>
      refine ⟨hfirst.1, ih hfirst.2 ?_⟩
      rw [show pc + 1 + code.length = pc + (i :: code).length by rw [List.length_cons]; omega]
      exact hsecond

theorem leads {code : Code} {sites : List Site} {j : Nat} {i : Instruction} {φ : Site} :
    ∀ {pc : Nat}, Leading layout table pc code sites → code[j]? = some i → sites[j]? = some φ →
      Leads layout table (pc + j) φ i := by
  induction j generalizing code sites with
  | zero =>
    intro pc h hi hφ
    cases code with
    | nil => cases hi
    | cons _ code =>
      cases sites with
      | nil => cases hφ
      | cons _ sites =>
        obtain rfl := Option.some.inj hi
        obtain rfl := Option.some.inj hφ
        exact h.1
  | succ j ih =>
    intro pc h hi hφ
    cases code with
    | nil => cases hi
    | cons _ code =>
      cases sites with
      | nil => cases hφ
      | cons _ sites =>
        rw [show pc + (j + 1) = pc + 1 + j by omega]
        exact ih h.2 hi hφ

end Leading

/-- The ways out of the loop around lead to rooms that are known. -/
def Site.Leaves (layout : Layout) (φ : Site) : Prop :=
  ∃ i ψ χ, φ.loop = some i ∧ layout (i.loop.marker + 1) = some ψ ∧ layout i.loop.next = some χ ∧
    Room.AllAhead (φ.rooms.drop i.scopes) ψ.rooms ∧
    Room.AllAhead (φ.rooms.drop i.scopes) χ.rooms

namespace Site.Leaves

variable {layout : Layout} {φ ψ : Site}

/-- What is known further on is known before. -/
theorem of_ahead (leaves : ψ.Leaves layout) (ahead : φ.Ahead ψ) : φ.Leaves layout := by
  obtain ⟨i, χ, χ', hloop, hmarker, hnext, hχ, hχ'⟩ := leaves
  have hdrop : Room.AllAhead (φ.rooms.drop i.scopes) (ψ.rooms.drop i.scopes) :=
    List.forall₂_drop i.scopes ahead.rooms
  exact ⟨i, χ, χ', ahead.loop ▸ hloop, hmarker, hnext, hdrop.trans hχ, hdrop.trans hχ'⟩

/-- From inside of a scope. -/
theorem enter (leaves : φ.Leaves layout) (pc : Nat) (names : Scope) (n : Nat) :
    ((φ.enter pc names).advance n).Leaves layout := by
  obtain ⟨i, χ, χ', hloop, hmarker, hnext, hχ, hχ'⟩ := leaves
  exact ⟨i.enter, χ, χ', by simp [Site.advance, Site.enter, hloop], hmarker, hnext, hχ, hχ'⟩

end Site.Leaves

end Source

end ChannelMachine

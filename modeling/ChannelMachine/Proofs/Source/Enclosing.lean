import ChannelMachine.Proofs.Source.Parts

/-!
# Where code is, and in which loop

The length of the code of a piece of syntax is known before it is compiled, so the place of every
instruction is, too.  `Enclosing` says for each instruction of a piece of code which loop of the same
function it is in, and how many scopes were opened in between.  What comes first in a loop stands
inside of its scope and counts as inside of it; the body of a function is in no loop around it.
-/

namespace ChannelMachine.Source

/-! ## Lengths -/

/-- The length of the code of a block, from that of its body. -/
def blockLength (names : List (String × Binding)) (body : Nat) : Nat :=
  if names.isEmpty then body else body + 2

mutual

/-- The length of the code of an expression. -/
def Expr.codeLength (tail : Bool) : Expr → Nat
  | .number _ | .text _ | .bool _ | .null | .name _ | .newChannel _ => 1 + tail.toNat
  | .unary _ e | .receive e | .assign _ e => e.codeLength false + 1 + tail.toNat
  | .binary _ l r => l.codeLength false + r.codeLength false + 1 + tail.toNat
  | .logical _ l r => l.codeLength false + r.codeLength false + 3 + tail.toNat
  | .cond test thenExpr elseExpr =>
      test.codeLength false + thenExpr.codeLength tail + elseExpr.codeLength tail
        + if tail then 1 else 2
  | .call f arguments => f.codeLength false + lengthAll arguments + 1
  | .method receiver _ arguments =>
      receiver.codeLength false + lengthAll arguments + 1 + tail.toNat
  | .function _ body => blockLength (declared body) (bodyLength body) + 5 + tail.toNat

/-- The length of the code of expressions that are evaluated one after the other. -/
def lengthAll : List Expr → Nat
  | [] => 0
  | e :: rest => e.codeLength false + lengthAll rest

/-- The length of the code of a statement. -/
def Stmt.codeLength : Stmt → Nat
  | .expr e => e.codeLength false
  | .var _ _ none => 2
  | .var _ _ (some e) => e.codeLength false + 1
  | .const _ e => e.codeLength false + 1
  | .function _ _ body => blockLength (declared body) (bodyLength body) + 6
  | .ret none => 2
  | .ret (some e) => e.codeLength true
  | .cond test thenBody none =>
      test.codeLength false + blockLength (declared thenBody) (bodyLength thenBody) + 3
  | .cond test thenBody (some elseBody) =>
      test.codeLength false + blockLength (declared thenBody) (bodyLength thenBody)
        + blockLength (declared elseBody) (bodyLength elseBody) + 2
  | .loop first test after body =>
      firstLength first + partLength test
        + blockLength (declared body) (bodyLength body) + partLength after + 6
  | .breakLoop | .continueLoop => 1
  | .spawn (.call f arguments) => f.codeLength false + lengthAll arguments + 3
  | .spawn _ => 0
  | .send channel value => channel.codeLength false + value.codeLength false + 1
  | .block body => blockLength (declared body) (bodyLength body)

/-- The length of the code of the statements of a block. -/
def bodyLength : List Stmt → Nat
  | [] => 1
  | [s] => s.codeLength
  | s :: rest => s.codeLength + bodyLength rest + 1

/-- The length of what comes first in a loop. -/
def firstLength : Option Stmt → Nat
  | none => 0
  | some s => s.codeLength + 1

/-- The length of the test of a loop, or of what follows each round. -/
def partLength : Option Expr → Nat
  | none => 0
  | some e => e.codeLength false + 1

end

/-! ### The compiler keeps to the lengths -/

theorem length_returning (tail : Bool) (code : Code) :
    (returning tail code).length = code.length + tail.toNat := by
  cases tail with
  | false => rfl
  | true => exact List.length_append

theorem length_branches (base : Nat) (test thenCode elseCode : Code) :
    (branches base test thenCode elseCode).length =
      test.length + thenCode.length + elseCode.length + 2 := by
  simp only [branches, List.length_append, List.length_cons]
  omega

theorem length_tailBranches (base : Nat) (test thenCode elseCode : Code) :
    (tailBranches base test thenCode elseCode).length =
      test.length + thenCode.length + elseCode.length + 1 := by
  simp only [tailBranches, List.length_append, List.length_cons]
  omega

theorem length_loop (base slots : Nat) (first : Code) (test : Option Code) (body after : Code) :
    (loop base slots first test body after).length =
      first.length + testLength test + body.length + after.length + 6 := by
  cases test <;> simp [loop, testLength] <;> omega

theorem length_declare {c : Context} {name : String} {code code' : Code}
    (h : declare c name code = .ok code') : code'.length = code.length + 1 := by
  obtain ⟨_, -, h⟩ := exists_of_bind h
  obtain rfl := Except.ok.inj h
  exact List.length_append

section Blocks

variable {c : Context} {base n : Nat} {code : Code} {body : Context → Nat → Except Error Code}
  (hbody : ∀ {c base code}, body c base = .ok code → code.length = n)

include hbody

theorem length_block {names : List (String × Binding)} (h : block c base names body = .ok code) :
    code.length = blockLength names n := by
  unfold blockLength
  rcases exists_of_block h with ⟨hempty, h⟩ | ⟨hnames, s, _, code', -, -, hcode', rfl⟩
  · rw [hbody h, if_pos hempty]
  · rw [if_neg hnames, List.length_append, List.length_cons, hbody hcode']
    rfl

theorem length_function {parameters : List String}
    (h : function c base parameters body = .ok code) : code.length = n + 5 := by
  obtain ⟨s, -, h⟩ := exists_of_bind h
  obtain ⟨_, -, h⟩ := exists_of_bind h
  obtain ⟨code', hcode', h⟩ := exists_of_bind h
  obtain rfl := Except.ok.inj h
  simp [hbody hcode']

end Blocks

mutual

theorem Expr.length_compile (e : Expr) {c : Context} {tail : Bool} {base : Nat} {code : Code}
    (h : e.compile c tail base = .ok code) : code.length = e.codeLength tail := by
  cases e with
  | number | text | bool | null | newChannel =>
    obtain rfl := Except.ok.inj h
    rw [length_returning]
    rfl
  | name n =>
    obtain ⟨_, -, h⟩ := exists_of_bind h
    obtain rfl := Except.ok.inj h
    rw [length_returning]
    rfl
  | unary op e =>
    obtain ⟨operand, he, h⟩ := exists_of_bind h
    obtain rfl := Except.ok.inj h
    rw [length_returning, List.length_append, e.length_compile he]
    rfl
  | binary op l r =>
    obtain ⟨left, hl, h⟩ := exists_of_bind h
    obtain ⟨right, hr, h⟩ := exists_of_bind h
    obtain rfl := Except.ok.inj h
    rw [length_returning, List.length_append, List.length_append, l.length_compile hl,
      r.length_compile hr]
    rfl
  | logical op l r =>
    obtain ⟨left, hl, h⟩ := exists_of_bind h
    cases op with
    | and =>
      obtain ⟨right, hr, h⟩ := exists_of_bind h
      obtain rfl := Except.ok.inj h
      rw [length_returning, length_branches, l.length_compile hl, r.length_compile hr]
      rfl
    | or =>
      obtain ⟨right, hr, h⟩ := exists_of_bind h
      obtain rfl := Except.ok.inj h
      rw [length_returning, length_branches, l.length_compile hl, r.length_compile hr,
        Expr.codeLength, List.length_singleton]
      omega
  | cond test thenExpr elseExpr =>
    obtain ⟨testCode, ht, h⟩ := exists_of_bind h
    obtain ⟨thenCode, hthen, h⟩ := exists_of_bind h
    cases tail
    all_goals
      obtain ⟨elseCode, helse, h⟩ := exists_of_bind h
      obtain rfl := Except.ok.inj h
      simp only [length_branches, length_tailBranches, test.length_compile ht,
        thenExpr.length_compile hthen, elseExpr.length_compile helse]
      rfl
  | call f arguments =>
    obtain ⟨function, hf, h⟩ := exists_of_bind h
    obtain ⟨values, hvalues, h⟩ := exists_of_bind h
    obtain rfl := Except.ok.inj h
    rw [List.length_append, List.length_append, f.length_compile hf, length_compileAll arguments hvalues]
    rfl
  | method receiver name arguments =>
    obtain ⟨method, first, values, -, -, hfirst, hvalues, rfl⟩ := exists_of_compile_method h
    rw [length_returning, List.length_append, List.length_append, receiver.length_compile hfirst,
      length_compileAll arguments hvalues]
    rfl
  | assign name value =>
    obtain ⟨p, code, -, hcode, rfl⟩ := exists_of_compile_assign h
    rw [length_returning, List.length_append, value.length_compile hcode]
    rfl
  | function parameters body =>
    obtain ⟨code, hcode, h⟩ := exists_of_bind h
    obtain rfl := Except.ok.inj h
    rw [length_returning, length_function (length_block (length_compileBody body)) hcode]
    rfl
  | receive channel =>
    obtain ⟨code, hcode, h⟩ := exists_of_bind h
    obtain rfl := Except.ok.inj h
    rw [length_returning, List.length_append, channel.length_compile hcode]
    rfl

theorem length_compileAll (es : List Expr) {c : Context} {base : Nat} {code : Code}
    (h : compileAll c base es = .ok code) : code.length = lengthAll es := by
  cases es with
  | nil =>
    obtain rfl := Except.ok.inj h
    rfl
  | cons e rest =>
    obtain ⟨first, hfirst, h⟩ := exists_of_bind h
    obtain ⟨others, hothers, h⟩ := exists_of_bind h
    obtain rfl := Except.ok.inj h
    rw [List.length_append, e.length_compile hfirst, length_compileAll rest hothers]
    rfl

theorem Stmt.length_compile (s : Stmt) {c : Context} {base : Nat} {code : Code}
    (h : s.compile c base = .ok code) : code.length = s.codeLength := by
  cases s with
  | expr e => exact e.length_compile h
  | var name type value =>
    cases value with
    | some e =>
      obtain ⟨code', hcode', h⟩ := exists_of_bind h
      rw [length_declare h, e.length_compile hcode']
      rfl
    | none => exact length_declare h
  | const name value =>
    obtain ⟨code', hcode', h⟩ := exists_of_bind h
    rw [length_declare h, value.length_compile hcode']
    rfl
  | function name parameters body =>
    obtain ⟨code', hcode', h⟩ := exists_of_bind h
    rw [length_declare h, length_function (length_block (length_compileBody body)) hcode']
    rfl
  | ret value =>
    obtain ⟨-, h⟩ := of_compile_ret h
    cases value with
    | none => exact congrArg List.length h
    | some e => exact e.length_compile h
  | cond test thenBody elseBody =>
    unfold Stmt.compile at h
    obtain ⟨testCode, ht, h⟩ := exists_of_bind h
    obtain ⟨thenCode, hthen, h⟩ := exists_of_bind h
    cases elseBody with
    | some body =>
      obtain ⟨elseCode, helse, h⟩ := exists_of_bind h
      obtain rfl := Except.ok.inj h
      rw [length_branches, test.length_compile ht,
        length_block (length_compileBody thenBody) hthen, length_block (length_compileBody body) helse]
      rfl
    | none =>
      obtain rfl := Except.ok.inj h
      rw [length_branches, test.length_compile ht,
        length_block (length_compileBody thenBody) hthen]
      rfl
  | loop first test after body =>
    obtain ⟨s, c', -, -, firstCode, testCode, bodyCode, afterCode, parts, rfl⟩ :=
      exists_of_compile_loop h
    rw [length_loop, length_opening first parts.first, length_test test parts.test,
      length_block (length_compileBody body) parts.body, length_closing after parts.after]
    rfl
  | breakLoop => exact congrArg List.length (of_compile_breakLoop h).2
  | continueLoop => exact congrArg List.length (of_compile_continueLoop h).2
  | spawn e =>
    cases e with
    | call f arguments =>
      obtain ⟨function, hf, h⟩ := exists_of_bind h
      obtain ⟨values, hvalues, h⟩ := exists_of_bind h
      obtain rfl := Except.ok.inj h
      rw [List.length_append, List.length_append, f.length_compile hf,
        length_compileAll arguments hvalues]
      rfl
    | _ => cases h
  | send channel value =>
    obtain ⟨first, hfirst, h⟩ := exists_of_bind h
    obtain ⟨second, hsecond, h⟩ := exists_of_bind h
    obtain rfl := Except.ok.inj h
    rw [List.length_append, List.length_append, channel.length_compile hfirst,
      value.length_compile hsecond]
    rfl
  | block body => exact length_block (length_compileBody body) h

theorem length_compileBody (body : List Stmt) {c : Context} {base : Nat} {code : Code}
    (h : compileBody c base body = .ok code) : code.length = bodyLength body := by
  match body with
  | [] =>
    obtain rfl := Except.ok.inj h
    rfl
  | [s] => exact s.length_compile h
  | s :: s' :: rest =>
    obtain ⟨first, hfirst, h⟩ := exists_of_bind h
    obtain ⟨others, hothers, h⟩ := exists_of_bind h
    obtain rfl := Except.ok.inj h
    rw [List.length_append, List.length_cons, s.length_compile hfirst,
      length_compileBody (s' :: rest) hothers]
    rfl

theorem length_opening (first : Option Stmt) {c : Context} {base : Nat} {code : Code}
    (h : OpeningCode c base first code) : code.length = firstLength first := by
  cases first with
  | none => exact congrArg List.length h
  | some s =>
    obtain ⟨code', hcode', rfl⟩ := h
    rw [List.length_append, s.length_compile hcode']
    rfl

theorem length_test (test : Option Expr) {c : Context} {base : Nat} {code : Option Code}
    (h : TestCode c base test code) : testLength code = partLength test := by
  cases test with
  | none => exact congrArg testLength h
  | some e =>
    obtain ⟨code', hcode', rfl⟩ := h
    rw [testLength, e.length_compile hcode']
    rfl

theorem length_closing (after : Option Expr) {c : Context} {base : Nat} {code : Code}
    (h : ClosingCode c base after code) : code.length = partLength after := by
  cases after with
  | none => exact congrArg List.length h
  | some e =>
    obtain ⟨code', hcode', rfl⟩ := h
    rw [List.length_append, e.length_compile hcode']
    rfl

end

/-! ## Loops -/

/-- Where the code of a loop is. -/
structure LoopPlace where
  /-- The index of the instruction that opens its scope. -/
  start : Nat
  /-- Where the next round starts: the index of what follows each round. -/
  next : Nat
  /-- The index of its `loopEnd`. -/
  marker : Nat
deriving DecidableEq, Repr

/-- The place of a loop whose parts have these lengths. -/
def LoopPlace.of (base first test body after : Nat) : LoopPlace :=
  let next := base + 1 + first + test + body + 1
  ⟨base, next, next + after + 1⟩

/-- In which loop an instruction is. -/
structure Inside where
  /-- The loop. -/
  loop : LoopPlace
  /-- How many scopes were opened in the loop around the instruction. -/
  scopes : Nat
deriving DecidableEq, Repr

/-- In the same loop, with one scope more around. -/
def Inside.enter (i : Inside) : Inside := { i with scopes := i.scopes + 1 }

/-- For each instruction of some code the innermost loop of the same function that it is in. -/
abbrev Enclosing := List (Option Inside)

/-- A block around its body. -/
def blockIn (names : List (String × Binding)) (base : Nat) (w : Option Inside)
    (body : Nat → Option Inside → Enclosing) : Enclosing :=
  if names.isEmpty then body base w
  else w :: body (base + 1) (w.map .enter) ++ [w.map .enter]

/-- A function around its body. -/
def functionIn (base : Nat) (w : Option Inside) (body : Nat → Option Inside → Enclosing) :
    Enclosing :=
  w :: w :: body (base + 2) none ++ [none, none, none]

mutual

/-- In which loops the instructions of an expression are. -/
def Expr.enclosing (tail : Bool) (base : Nat) (w : Option Inside) : Expr → Enclosing
  | .number _ | .text _ | .bool _ | .null | .name _ | .newChannel _ => [w] ++ .replicate tail.toNat w
  | .unary _ e | .receive e | .assign _ e =>
      e.enclosing false base w ++ [w] ++ .replicate tail.toNat w
  | .binary _ l r =>
      l.enclosing false base w ++ r.enclosing false (base + l.codeLength false) w
        ++ [w] ++ .replicate tail.toNat w
  | .logical .and l r =>
      l.enclosing false base w ++ w :: r.enclosing false (base + l.codeLength false + 1) w
        ++ w :: [w] ++ .replicate tail.toNat w
  | .logical .or l r =>
      l.enclosing false base w ++ w :: [w] ++ w :: r.enclosing false (base + l.codeLength false + 3) w
        ++ .replicate tail.toNat w
  | .cond test thenExpr elseExpr =>
      let thenStart := base + test.codeLength false + 1
      let thenEnd := thenStart + thenExpr.codeLength tail
      test.enclosing false base w ++ w :: thenExpr.enclosing tail thenStart w
        ++ if tail then elseExpr.enclosing tail thenEnd w
          else w :: elseExpr.enclosing tail (thenEnd + 1) w
  | .call f arguments =>
      f.enclosing false base w ++ enclosingAll (base + f.codeLength false) w arguments ++ [w]
  | .method receiver _ arguments =>
      receiver.enclosing false base w
        ++ enclosingAll (base + receiver.codeLength false) w arguments
        ++ [w] ++ .replicate tail.toNat w
  | .function _ body =>
      functionIn base w (fun base w => blockIn (declared body) base w fun base w =>
        bodyEnclosing base w body) ++ .replicate tail.toNat w

/-- In which loops the instructions of expressions are that are evaluated one after the other. -/
def enclosingAll (base : Nat) (w : Option Inside) : List Expr → Enclosing
  | [] => []
  | e :: rest => e.enclosing false base w ++ enclosingAll (base + e.codeLength false) w rest

/-- In which loops the instructions of a statement are. -/
def Stmt.enclosing (base : Nat) (w : Option Inside) : Stmt → Enclosing
  | .expr e => e.enclosing false base w
  | .var _ _ none | .ret none => [w, w]
  | .var _ _ (some e) | .const _ e => e.enclosing false base w ++ [w]
  | .function _ _ body =>
      functionIn base w (fun base w => blockIn (declared body) base w fun base w =>
        bodyEnclosing base w body) ++ [w]
  | .ret (some e) => e.enclosing true base w
  | .cond test thenBody none =>
      test.enclosing false base w
        ++ w :: blockIn (declared thenBody) (base + test.codeLength false + 1) w
          (fun base w => bodyEnclosing base w thenBody)
        ++ w :: [w]
  | .cond test thenBody (some elseBody) =>
      let thenStart := base + test.codeLength false + 1
      let elseStart := thenStart + blockLength (declared thenBody) (bodyLength thenBody) + 1
      test.enclosing false base w
        ++ w :: blockIn (declared thenBody) thenStart w (fun base w => bodyEnclosing base w thenBody)
        ++ w :: blockIn (declared elseBody) elseStart w (fun base w => bodyEnclosing base w elseBody)
  | .loop first test after body =>
      let place := LoopPlace.of base (firstLength first) (partLength test)
        (blockLength (declared body) (bodyLength body)) (partLength after)
      let inside := some ⟨place, 0⟩
      let testStart := base + 1 + firstLength first
      let bodyStart := testStart + partLength test
      w :: firstEnclosing (base + 1) inside first
        ++ partEnclosing testStart inside test
        ++ blockIn (declared body) bodyStart inside (fun base w => bodyEnclosing base w body)
        ++ inside :: partEnclosing place.next inside after
        ++ [inside, inside, inside, w]
  | .breakLoop | .continueLoop => [w]
  | .spawn (.call f arguments) =>
      f.enclosing false base w ++ enclosingAll (base + f.codeLength false) w arguments
        ++ [w, none, none]
  | .spawn _ => []
  | .send channel value =>
      channel.enclosing false base w ++ value.enclosing false (base + channel.codeLength false) w
        ++ [w]
  | .block body => blockIn (declared body) base w fun base w => bodyEnclosing base w body

/-- In which loops the instructions of the statements of a block are. -/
def bodyEnclosing (base : Nat) (w : Option Inside) : List Stmt → Enclosing
  | [] => [w]
  | [s] => s.enclosing base w
  | s :: rest =>
      s.enclosing base w ++ w :: bodyEnclosing (base + s.codeLength + 1) w rest

/-- In which loops the instructions of what comes first in a loop are. -/
def firstEnclosing (base : Nat) (w : Option Inside) : Option Stmt → Enclosing
  | none => []
  | some s => s.enclosing base w ++ [w]

/-- In which loops the instructions of the test of a loop are, or of what follows each round. -/
def partEnclosing (base : Nat) (w : Option Inside) : Option Expr → Enclosing
  | none => []
  | some e => e.enclosing false base w ++ [w]

end

/-- In which loops the instructions of a compiled loop are, by the lengths of its parts. -/
theorem LoopParts.exists_place {c : Context} {base : Nat} {first : Option Stmt}
    {test after : Option Expr} {body : List Stmt} {firstCode bodyCode afterCode : Code}
    {testCode : Option Code}
    (parts : LoopParts c base first test after body firstCode testCode bodyCode afterCode)
    (w : Option Inside) :
    ∃ place, place = LoopPlace.of base firstCode.length (testLength testCode) bodyCode.length
        afterCode.length ∧
      (Stmt.loop first test after body).enclosing base w =
        w :: firstEnclosing (base + 1) (some ⟨place, 0⟩) first
          ++ partEnclosing (base + 1 + firstCode.length) (some ⟨place, 0⟩) test
          ++ blockIn (declared body) (base + 1 + firstCode.length + testLength testCode)
            (some ⟨place, 0⟩) (fun base w => bodyEnclosing base w body)
          ++ some ⟨place, 0⟩ :: partEnclosing
            (base + 1 + firstCode.length + testLength testCode + bodyCode.length + 1)
            (some ⟨place, 0⟩) after
          ++ [some ⟨place, 0⟩, some ⟨place, 0⟩, some ⟨place, 0⟩, w] := by
  refine ⟨_, rfl, ?_⟩
  rw [Stmt.enclosing, ← length_opening first parts.first, ← length_test test parts.test,
    ← length_block (length_compileBody body) parts.body, ← length_closing after parts.after]
  rfl

/-- In which loops the instructions of a program are. -/
def Module.enclosing (m : Module) : Enclosing :=
  blockIn (declared m.body) 0 none (fun base w => bodyEnclosing base w m.body) ++ [none]

end ChannelMachine.Source

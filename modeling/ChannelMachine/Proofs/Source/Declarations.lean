import ChannelMachine.Proofs.Source.Enclosing

/-!
# Where names are declared

Each declaration ends with an instruction that assigns the name, and since the lengths of the code of
all parts are known, so is its index.  `Module.declarations` lists them: to which scope a name
belongs, in which slot of it, and which instruction declares it.  The scope of a block or a loop is
named by the index of the instruction that opens it.

Parameters are not listed.  They are variables, and the call gives them their values.
-/

namespace ChannelMachine.Source

/-- The declaration of a name. -/
structure Declaration where
  /-- The index of the instruction that opens the scope. -/
  start : Nat
  /-- The slot of the name. -/
  slot : Nat
  /-- The name. -/
  name : String
  /-- What it is declared as. -/
  binding : Binding
  /-- The index of the instruction that assigns it. -/
  index : Nat
deriving DecidableEq, Repr

theorem declared_cons (s : Stmt) (rest : List Stmt) :
    declared (s :: rest) = s.declares?.toList ++ declared rest := by
  unfold declared
  rw [List.filterMap_cons]
  cases s.declares? <;> rfl

/-- The declarations in a block, from those in its body, which are given where the scope is opened and
where the body stands. -/
def blockDeclarations (names : List (String × Binding)) (base : Nat)
    (body : Nat → Nat → List Declaration) : List Declaration :=
  if names.isEmpty then body base base else body base (base + 1)

mutual

/-- The declarations in an expression. -/
def Expr.declarations (tail : Bool) (base : Nat) : Expr → List Declaration
  | .number _ | .text _ | .bool _ | .null | .name _ | .newChannel _ => []
  | .unary _ e | .receive e | .assign _ e => e.declarations false base
  | .binary _ l r => l.declarations false base ++ r.declarations false (base + l.codeLength false)
  | .logical .and l r =>
      l.declarations false base ++ r.declarations false (base + l.codeLength false + 1)
  | .logical .or l r =>
      l.declarations false base ++ r.declarations false (base + l.codeLength false + 3)
  | .cond test thenExpr elseExpr =>
      let thenStart := base + test.codeLength false + 1
      let thenEnd := thenStart + thenExpr.codeLength tail
      test.declarations false base ++ thenExpr.declarations tail thenStart
        ++ elseExpr.declarations tail (if tail then thenEnd else thenEnd + 1)
  | .call f arguments =>
      f.declarations false base ++ declarationsAll (base + f.codeLength false) arguments
  | .method receiver _ arguments =>
      receiver.declarations false base
        ++ declarationsAll (base + receiver.codeLength false) arguments
  | .function _ body =>
      blockDeclarations (declared body) (base + 2) fun start base =>
        bodyDeclarations start 0 base body

/-- The declarations in expressions that are evaluated one after the other. -/
def declarationsAll (base : Nat) : List Expr → List Declaration
  | [] => []
  | e :: rest => e.declarations false base ++ declarationsAll (base + e.codeLength false) rest

/-- The declarations in a statement in a scope, whose next slot is given. -/
def Stmt.declarations (start slot base : Nat) : Stmt → List Declaration
  | .expr e => e.declarations false base
  | .var name _ none => [⟨start, slot, name, .variable, base + 1⟩]
  | .var name _ (some e) =>
      e.declarations false base ++ [⟨start, slot, name, .variable, base + e.codeLength false⟩]
  | .const name e =>
      e.declarations false base ++ [⟨start, slot, name, .constant, base + e.codeLength false⟩]
  | .function name _ body =>
      blockDeclarations (declared body) (base + 2) (fun start base =>
        bodyDeclarations start 0 base body)
        ++ [⟨start, slot, name, .function,
          base + blockLength (declared body) (bodyLength body) + 5⟩]
  | .ret none => []
  | .ret (some e) => e.declarations true base
  | .cond test thenBody none =>
      test.declarations false base
        ++ blockDeclarations (declared thenBody) (base + test.codeLength false + 1) fun start base =>
          bodyDeclarations start 0 base thenBody
  | .cond test thenBody (some elseBody) =>
      let thenStart := base + test.codeLength false + 1
      let elseStart := thenStart + blockLength (declared thenBody) (bodyLength thenBody) + 1
      test.declarations false base
        ++ blockDeclarations (declared thenBody) thenStart (fun start base =>
          bodyDeclarations start 0 base thenBody)
        ++ blockDeclarations (declared elseBody) elseStart fun start base =>
          bodyDeclarations start 0 base elseBody
  | .loop first test after body =>
      let testStart := base + 1 + firstLength first
      let bodyStart := testStart + partLength test
      let next := bodyStart + blockLength (declared body) (bodyLength body) + 1
      firstDeclarations base (base + 1) first
        ++ partDeclarations testStart test
        ++ blockDeclarations (declared body) bodyStart (fun start base =>
          bodyDeclarations start 0 base body)
        ++ partDeclarations next after
  | .breakLoop | .continueLoop => []
  | .spawn (.call f arguments) =>
      f.declarations false base ++ declarationsAll (base + f.codeLength false) arguments
  | .spawn _ => []
  | .send channel value =>
      channel.declarations false base
        ++ value.declarations false (base + channel.codeLength false)
  | .block body =>
      blockDeclarations (declared body) base fun start base => bodyDeclarations start 0 base body

/-- The declarations in the statements of a block.  Each statement that declares a name takes the next
slot. -/
def bodyDeclarations (start slot base : Nat) : List Stmt → List Declaration
  | [] => []
  | s :: rest =>
      s.declarations start slot base
        ++ bodyDeclarations start (slot + s.declares?.toList.length) (base + s.codeLength + 1) rest

/-- The declarations in what comes first in a loop. -/
def firstDeclarations (start base : Nat) : Option Stmt → List Declaration
  | none => []
  | some s => s.declarations start 0 base

/-- The declarations in the test of a loop, or in what follows each round. -/
def partDeclarations (base : Nat) : Option Expr → List Declaration
  | none => []
  | some e => e.declarations false base

end

/-- The declarations of a program. -/
def Module.declarations (m : Module) : List Declaration :=
  blockDeclarations (declared m.body) 0 fun start base => bodyDeclarations start 0 base m.body

/-- A constant, and a function that uses it. -/
example : (Module.mk [.const "c" (.bool true), .function "f" [] [.expr (.name "c")]]).declarations =
    [⟨0, 0, "c", .constant, 2⟩, ⟨0, 1, "f", .function, 10⟩] := by
  rfl

end ChannelMachine.Source

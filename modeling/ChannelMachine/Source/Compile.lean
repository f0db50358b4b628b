import ChannelMachine.Source.Scope

/-!
# Compiling

The code of a piece of syntax is a list of instructions.  Jumps go to fixed indices, so the
compiler is told where the code will stand; the lengths of the parts before give the place of
the next one.

Every statement leaves one value on the stack.  The statements of a block are separated by
`pop`, so the value of a block is that of its last statement.  A block that declares names opens
a scope; a loop always opens one, and that is how its end is found.

In tail position an expression returns its value.  A call there becomes a tail call, and a
conditional passes the position on to both its branches.
-/

namespace ChannelMachine.Source

/-- The instructions of a piece of syntax. -/
abbrev Code := List Instruction

/-- A method of a wait-group. -/
inductive Method where
  /-- Adds a number. -/
  | add
  /-- Subtracts one. -/
  | done
  /-- Waits for zero. -/
  | wait
deriving DecidableEq, Repr

namespace Method

/-- The method of a name. -/
def ofName? : String → Option Method
  | "Add" => some add
  | "Done" => some done
  | "Wait" => some wait
  | _ => none

/-- How many arguments a method takes. -/
def arity : Method → Nat
  | add => 1
  | done | wait => 0

/-- What executes a method. -/
def instruction : Method → Instruction
  | add => .groupAdd
  | done => .groupDone
  | wait => .groupWait

end Method

/-! ## Assembling code -/

/-- Code in tail position returns its value. -/
def returning (tail : Bool) (code : Code) : Code := if tail then code ++ [.ret] else code

/-- A test and its two branches.  The test jumps over the first branch if it fails, and the
first branch jumps over the second. -/
def branches (base : Nat) (test thenCode elseCode : Code) : Code :=
  let thenStart := base + test.length + 1
  let elseStart := thenStart + thenCode.length + 1
  test ++ .jumpUnless elseStart :: thenCode ++ .jump (elseStart + elseCode.length) :: elseCode

/-- A test and two branches that both return, so the first one need not jump. -/
def tailBranches (base : Nat) (test thenCode elseCode : Code) : Code :=
  let thenStart := base + test.length + 1
  test ++ .jumpUnless (thenStart + thenCode.length) :: thenCode ++ elseCode

/-- A block: its code inside a scope, if it declares names. -/
def block (c : Context) (base : Nat) (names : List (String × Binding))
    (body : Context → Nat → Except Error Code) : Except Error Code :=
  if names.isEmpty then body c base
  else do
    let scope ← Scope.ofNames names
    let inner ← c.enter scope
    let code ← body inner (base + 1)
    return .enterScope scope.length :: code ++ [.exitScope]

/-- A function: a jump over its body, which returns `undefined` at its end. -/
def function (c : Context) (base : Nat) (parameters : List String)
    (body : Context → Nat → Except Error Code) : Except Error Code := do
  let scope ← Scope.ofNames (parameters.map (·, .variable))
  let inner ← c.enter scope
  let code ← body inner.asFunction (base + 2)
  return .closure parameters.length (base + 2) :: .jump (base + 2 + code.length + 3) :: code
    ++ [.pop, .constant .undefined, .ret]

/-- The length of the test of a loop with its jump. -/
def testLength : Option Code → Nat
  | some test => test.length + 1
  | none => 0

/-- A loop around its parts.  The test jumps to the end of the loop, and each round ends with a
jump to the test. -/
def loop (base slots : Nat) (first : Code) (test : Option Code) (body after : Code) : Code :=
  let testStart := base + 1 + first.length
  let nextStart := testStart + testLength test + body.length + 1
  let marker := nextStart + after.length + 1
  let testCode :=
    match test with
    | some test => test ++ [.jumpUnless marker]
    | none => []
  .enterScope slots :: first ++ testCode ++ body ++ .pop :: after
    ++ [.jump testStart, .loopEnd nextStart, .exitScope, .constant .undefined]

/-- What a variable of a type starts with. -/
def startValue : Option TypeName → Instruction
  | some .number => .constant (.number .zero)
  | some .string => .constant (.text "")
  | some .bool => .constant (.bool false)
  | some .channel => .constant .null
  | some .waitGroup => .newWaitGroup
  | none => .constant .undefined

/-- Assigns the value on the stack to a name that was just declared. -/
def declare (c : Context) (name : String) (code : Code) : Except Error Code := do
  let (p, _) ← c.resolve name
  return code ++ [.store p]

/-! ## Expressions and statements -/

mutual

/-- The code of an expression. -/
def Expr.compile (c : Context) (tail : Bool) (base : Nat) : Expr → Except Error Code
  | .number x => return returning tail [.constant (.number x)]
  | .text s => return returning tail [.constant (.text s)]
  | .bool b => return returning tail [.constant (.bool b)]
  | .null => return returning tail [.constant .null]
  | .name n => do
      let (p, _) ← c.resolve n
      return returning tail [.load p]
  | .unary op e => do
      let code ← e.compile c false base
      return returning tail (code ++ [.unary op])
  | .binary op l r => do
      let left ← l.compile c false base
      let right ← r.compile c false (base + left.length)
      return returning tail (left ++ right ++ [.binary op])
  | .logical op l r => do
      let left ← l.compile c false base
      match op with
      | .and =>
          let right ← r.compile c false (base + left.length + 1)
          return returning tail (branches base left right [.constant (.bool false)])
      | .or =>
          let right ← r.compile c false (base + left.length + 3)
          return returning tail (branches base left [.constant (.bool true)] right)
  | .cond test thenExpr elseExpr => do
      let test ← test.compile c false base
      let thenStart := base + test.length + 1
      let thenCode ← thenExpr.compile c tail thenStart
      if tail then
        let elseCode ← elseExpr.compile c tail (thenStart + thenCode.length)
        return tailBranches base test thenCode elseCode
      else
        let elseCode ← elseExpr.compile c tail (thenStart + thenCode.length + 1)
        return branches base test thenCode elseCode
  | .call f arguments => do
      let function ← f.compile c false base
      let code ← compileAll c (base + function.length) arguments
      let n := arguments.length
      return function ++ code ++ [if tail then .tailCall n else .call n]
  | .method receiver name arguments =>
      match Method.ofName? name with
      | none => .error (.unknownMethod name)
      | some method =>
          if arguments.length ≠ method.arity then
            .error (.methodArity name method.arity arguments.length)
          else do
            let receiver ← receiver.compile c false base
            let code ← compileAll c (base + receiver.length) arguments
            return returning tail (receiver ++ code ++ [method.instruction])
  | .assign name value => do
      let (p, binding) ← c.resolve name
      if binding ≠ .variable then throw (.assignToConstant name)
      let code ← value.compile c false base
      return returning tail (code ++ [.store p])
  | .function parameters body => do
      let code ← function c base parameters fun c base =>
        block c base (declared body) fun c base => compileBody c base body
      return returning tail code
  | .newChannel capacity => return returning tail [.newChannel capacity]
  | .receive channel => do
      let code ← channel.compile c false base
      return returning tail (code ++ [.receive])

/-- The code of expressions that are evaluated one after the other. -/
def compileAll (c : Context) (base : Nat) : List Expr → Except Error Code
  | [] => return []
  | e :: rest => do
      let first ← e.compile c false base
      let others ← compileAll c (base + first.length) rest
      return first ++ others

/-- The code of a statement. -/
def Stmt.compile (c : Context) (base : Nat) : Stmt → Except Error Code
  | .expr e => e.compile c false base
  | .var name type value =>
      match value with
      | some e => do declare c name (← e.compile c false base)
      | none => declare c name [startValue type]
  | .const name value => do declare c name (← value.compile c false base)
  | .function name parameters body => do
      let code ← function c base parameters fun c base =>
        block c base (declared body) fun c base => compileBody c base body
      declare c name code
  | .ret value =>
      if !c.inFunction then .error .returnOutsideFunction
      else
        match value with
        | none => return [.constant .undefined, .ret]
        | some e => e.compile c true base
  | .cond test thenBody elseBody => do
      let test ← test.compile c false base
      let thenStart := base + test.length + 1
      let thenCode ← block c thenStart (declared thenBody) fun c base =>
        compileBody c base thenBody
      let elseStart := thenStart + thenCode.length + 1
      match elseBody with
      | some body =>
          let elseCode ← block c elseStart (declared body) fun c base => compileBody c base body
          return branches base test thenCode elseCode
      | none => return branches base test thenCode [.constant .undefined]
  | .loop first test after body => do
      let scope ← Scope.ofNames (declared first.toList)
      let c ← c.enter scope
      let first ←
        match first with
        | some s => do pure ((← s.compile c (base + 1)) ++ [.pop])
        | none => pure []
      let testStart := base + 1 + first.length
      let test ←
        match test with
        | some e => do pure (some (← e.compile c false testStart))
        | none => pure none
      let bodyStart := testStart + testLength test
      let bodyCode ← block c.asLoop bodyStart (declared body) fun c base =>
        compileBody c base body
      let after ←
        match after with
        | some e => do pure ((← e.compile c false (bodyStart + bodyCode.length + 1)) ++ [.pop])
        | none => pure []
      return loop base scope.length first test bodyCode after
  | .breakLoop => if c.inLoop then return [.breakLoop] else .error .breakOutsideLoop
  | .continueLoop => if c.inLoop then return [.continueLoop] else .error .continueOutsideLoop
  | .spawn e =>
      match e with
      | .call f arguments => do
          let function ← f.compile c false base
          let code ← compileAll c (base + function.length) arguments
          let n := arguments.length
          return function ++ code ++ [.spawn n, .call n, .endThread]
      | _ => .error .spawnWithoutCall
  | .send channel value => do
      let channel ← channel.compile c false base
      let value ← value.compile c false (base + channel.length)
      return channel ++ value ++ [.send]
  | .block body => block c base (declared body) fun c base => compileBody c base body

/-- The code of the statements of a block.  An empty block has the value `undefined`. -/
def compileBody (c : Context) (base : Nat) : List Stmt → Except Error Code
  | [] => return [.constant .undefined]
  | [s] => s.compile c base
  | s :: rest => do
      let first ← s.compile c base
      let others ← compileBody c (base + first.length + 1) rest
      return first ++ .pop :: others

end

/-- The program of a module. -/
def Module.compile (m : Module) : Except Error Program := do
  let code ← block .top 0 (declared m.body) fun c base => compileBody c base m.body
  return ⟨(code ++ [Instruction.halt]).toArray⟩

/-! ## Tests -/

/-- A block that declares a name. -/
example : (Module.mk [.var "x" none (some .null), .expr (.name "x")]).compile = .ok ⟨#[
    .enterScope 1, .constant .null, .store ⟨1, 0⟩, .pop, .load ⟨1, 0⟩, .exitScope, .halt]⟩ := by
  rfl
/-- A loop that is left at once. -/
example : (Module.mk [.loop none (some (.bool true)) none [.breakLoop]]).compile = .ok ⟨#[
    .enterScope 0, .constant (.bool true), .jumpUnless 6, .breakLoop, .pop, .jump 1, .loopEnd 5,
    .exitScope, .constant .undefined, .halt]⟩ := by
  rfl
/-- A name may be used before the statement that declares it. -/
example : (Module.mk [.function "f" [] [.ret (some (.call (.name "f") []))]]).compile = .ok ⟨#[
    .enterScope 1, .closure 0 3, .jump 8, .load ⟨1, 0⟩, .tailCall 0, .pop, .constant .undefined,
    .ret, .store ⟨1, 0⟩, .exitScope, .halt]⟩ := by
  rfl
example : (Module.mk [.breakLoop]).compile = .error .breakOutsideLoop := by rfl

end ChannelMachine.Source

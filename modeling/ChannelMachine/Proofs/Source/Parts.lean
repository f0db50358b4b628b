import ChannelMachine.Source.Compile

/-!
# What compiled syntax is made of

If a piece of syntax was compiled, its parts were, and its code is put together from theirs.  The
forms here are those that the compiler refuses in some places, blocks, which need a scope only if
they declare names, and loops, where each part but the body may be missing.  The other forms are
taken apart with `exists_of_bind` alone.
-/

namespace ChannelMachine.Source

/-- What an action gives, its parts gave before. -/
theorem exists_of_bind {ε α β : Type} {x : Except ε α} {f : α → Except ε β} {b : β}
    (h : (x >>= f) = .ok b) : ∃ a, x = .ok a ∧ f a = .ok b := by
  cases x with
  | error => cases h
  | ok a => exact ⟨a, rfl, h⟩

/-! ## Blocks and guarded syntax -/

/-- A block stands in a scope if it declares names. -/
theorem exists_of_block {c : Context} {base : Nat} {names : List (String × Binding)}
    {body : Context → Nat → Except Error Code} {code : Code}
    (h : block c base names body = .ok code) :
    names.isEmpty = true ∧ body c base = .ok code ∨
      ¬ names.isEmpty = true ∧ ∃ s c' code', Scope.ofNames names = .ok s ∧ c.enter s = .ok c' ∧
        body c' (base + 1) = .ok code' ∧ code = .enterScope s.length :: code' ++ [.exitScope] := by
  unfold block at h
  split at h
  next hempty => exact .inl ⟨hempty, h⟩
  next hnames =>
    obtain ⟨s, hs, h⟩ := exists_of_bind h
    obtain ⟨c', hc', h⟩ := exists_of_bind h
    obtain ⟨code', hcode', h⟩ := exists_of_bind h
    exact .inr ⟨hnames, s, c', code', hs, hc', hcode', (Except.ok.inj h).symm⟩

section Guarded

variable {c : Context} {tail : Bool} {base : Nat} {code : Code}

/-- A compiled call of a method has the arguments that the method takes. -/
theorem exists_of_compile_method {receiver : Expr} {name : String} {arguments : List Expr}
    (h : (Expr.method receiver name arguments).compile c tail base = .ok code) :
    ∃ method first values, Method.ofName? name = some method ∧ arguments.length = method.arity ∧
      receiver.compile c false base = .ok first ∧
      compileAll c (base + first.length) arguments = .ok values ∧
      code = returning tail (first ++ values ++ [method.instruction]) := by
  unfold Expr.compile at h
  split at h
  next => cases h
  next method hmethod =>
    split at h
    next => cases h
    next harity =>
      obtain ⟨first, hfirst, h⟩ := exists_of_bind h
      obtain ⟨values, hvalues, h⟩ := exists_of_bind h
      exact ⟨method, first, values, hmethod, Classical.not_not.1 harity, hfirst, hvalues,
        (Except.ok.inj h).symm⟩

/-- A compiled assignment is one to a variable. -/
theorem exists_of_compile_assign {name : String} {value : Expr}
    (h : (Expr.assign name value).compile c tail base = .ok code) :
    ∃ p code', c.resolve name = .ok (p, .variable) ∧ value.compile c false base = .ok code' ∧
      code = returning tail (code' ++ [.store p]) := by
  obtain ⟨⟨p, binding⟩, hp, h⟩ := exists_of_bind h
  dsimp only at h
  split at h
  next => cases h
  next hvariable =>
    obtain rfl := Classical.not_not.1 hvariable
    obtain ⟨code', hcode', h⟩ := exists_of_bind h
    exact ⟨p, code', hp, hcode', (Except.ok.inj h).symm⟩

/-- The code of a return: `undefined`, or the value in tail position. -/
def ReturnCode (c : Context) (base : Nat) : Option Expr → Code → Prop
  | none, code => code = [.constant .undefined, .ret]
  | some e, code => e.compile c true base = .ok code

/-- A compiled return stands in a function. -/
theorem of_compile_ret {value : Option Expr} (h : (Stmt.ret value).compile c base = .ok code) :
    c.inFunction = true ∧ ReturnCode c base value code := by
  unfold Stmt.compile at h
  split at h
  next => cases h
  next hin =>
    have hfunction : c.inFunction = true := by simpa using hin
    cases value with
    | none => exact ⟨hfunction, (Except.ok.inj h).symm⟩
    | some e => exact ⟨hfunction, h⟩

/-- A compiled `break` stands in a loop. -/
theorem of_compile_breakLoop (h : Stmt.breakLoop.compile c base = .ok code) :
    c.inLoop = true ∧ code = [.breakLoop] := by
  unfold Stmt.compile at h
  split at h
  next hin => exact ⟨hin, (Except.ok.inj h).symm⟩
  next => cases h

/-- A compiled `continue` stands in a loop. -/
theorem of_compile_continueLoop (h : Stmt.continueLoop.compile c base = .ok code) :
    c.inLoop = true ∧ code = [.continueLoop] := by
  unfold Stmt.compile at h
  split at h
  next hin => exact ⟨hin, (Except.ok.inj h).symm⟩
  next => cases h

end Guarded

/-! ## Loops -/

/-- The code of what comes first in a loop drops the value of the statement. -/
def OpeningCode (c : Context) (base : Nat) : Option Stmt → Code → Prop
  | none, code => code = []
  | some s, code => ∃ code', s.compile c base = .ok code' ∧ code = code' ++ [.pop]

/-- The code of the test of a loop leaves its value to the jump. -/
def TestCode (c : Context) (base : Nat) : Option Expr → Option Code → Prop
  | none, code => code = none
  | some e, code => ∃ code', e.compile c false base = .ok code' ∧ code = some code'

/-- The code of what follows each round of a loop drops its value. -/
def ClosingCode (c : Context) (base : Nat) : Option Expr → Code → Prop
  | none, code => code = []
  | some e, code => ∃ code', e.compile c false base = .ok code' ∧ code = code' ++ [.pop]

/-- The parts of a loop are compiled in its scope, each for the place behind the part before it. -/
structure LoopParts (c : Context) (base : Nat) (first : Option Stmt) (test after : Option Expr)
    (body : List Stmt) (firstCode : Code) (testCode : Option Code) (bodyCode afterCode : Code) :
    Prop where
  /-- What comes first. -/
  first : OpeningCode c (base + 1) first firstCode
  /-- The test. -/
  test : TestCode c (base + 1 + firstCode.length) test testCode
  /-- The body. -/
  body : block c.asLoop (base + 1 + firstCode.length + testLength testCode) (declared body)
    (fun c base => compileBody c base body) = .ok bodyCode
  /-- What follows each round. -/
  after : ClosingCode c
    (base + 1 + firstCode.length + testLength testCode + bodyCode.length + 1) after afterCode

/-- A compiled loop opens its scope and stands around its parts. -/
theorem exists_of_compile_loop {c : Context} {base : Nat} {first : Option Stmt}
    {test after : Option Expr} {body : List Stmt} {code : Code}
    (h : (Stmt.loop first test after body).compile c base = .ok code) :
    ∃ s c', Scope.ofNames (declared first.toList) = .ok s ∧ c.enter s = .ok c' ∧
      ∃ firstCode testCode bodyCode afterCode,
        LoopParts c' base first test after body firstCode testCode bodyCode afterCode ∧
        code = loop base s.length firstCode testCode bodyCode afterCode := by
  unfold Stmt.compile at h
  obtain ⟨s, hs, h⟩ := exists_of_bind h
  obtain ⟨c', hc', h⟩ := exists_of_bind h
  -- Each optional part goes on with the rest of the compilation.
  extract_lets compileTest at h
  obtain ⟨firstCode, hfirst, h⟩ : ∃ firstCode, OpeningCode c' (base + 1) first firstCode ∧
      compileTest firstCode = .ok code := by
    cases first with
    | none => exact ⟨[], rfl, h⟩
    | some first =>
      obtain ⟨code', hcode', h⟩ := exists_of_bind h
      exact ⟨_, ⟨code', hcode', rfl⟩, h⟩
  unfold compileTest at h
  extract_lets testStart compileBody' at h
  obtain ⟨testCode, htest, h⟩ : ∃ testCode, TestCode c' testStart test testCode ∧
      compileBody' testCode = .ok code := by
    cases test with
    | none => exact ⟨none, rfl, h⟩
    | some test =>
      obtain ⟨code', hcode', h⟩ := exists_of_bind h
      exact ⟨_, ⟨code', hcode', rfl⟩, h⟩
  unfold compileBody' at h
  extract_lets bodyStart at h
  obtain ⟨bodyCode, hbody, h⟩ := exists_of_bind h
  extract_lets finish at h
  obtain ⟨afterCode, hafter, h⟩ : ∃ afterCode,
      ClosingCode c' (bodyStart + bodyCode.length + 1) after afterCode ∧
      finish afterCode = .ok code := by
    cases after with
    | none => exact ⟨[], rfl, h⟩
    | some after =>
      obtain ⟨code', hcode', h⟩ := exists_of_bind h
      exact ⟨_, ⟨code', hcode', rfl⟩, h⟩
  exact ⟨s, c', hs, hc', firstCode, testCode, bodyCode, afterCode, ⟨hfirst, htest, hbody, hafter⟩,
    (Except.ok.inj h).symm⟩

end ChannelMachine.Source

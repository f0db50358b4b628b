import ChannelMachine.Code.Instruction

/-!
# Syntax trees

The trees that the compiler takes.  A module is a block of statements.  Names are resolved by
the compiler, so a tree may hold names that are declared nowhere.
-/

namespace ChannelMachine.Source

/-- An operation that need not look at its second operand. -/
inductive LogicalOp where
  /-- Both hold. -/
  | and
  /-- One of them holds. -/
  | or
deriving DecidableEq, Repr, Inhabited

/-- The type of a variable that is declared without a value. -/
inductive TypeName where
  /-- Starts at zero. -/
  | number
  /-- Starts as the empty text. -/
  | string
  /-- Starts as `false`. -/
  | bool
  /-- Starts as `null`. -/
  | channel
  /-- Starts as a new wait-group. -/
  | waitGroup
deriving DecidableEq, Repr, Inhabited

mutual

/-- An expression. -/
inductive Expr where
  /-- A number. -/
  | number (value : Number)
  /-- A text. -/
  | text (value : String)
  /-- A boolean. -/
  | bool (value : Bool)
  /-- The value `null`. -/
  | null
  /-- A variable or a builtin. -/
  | name (name : String)
  /-- An operation on one value. -/
  | unary (op : UnaryOp) (operand : Expr)
  /-- An operation on two values. -/
  | binary (op : BinaryOp) (left right : Expr)
  /-- A conjunction or a disjunction. -/
  | logical (op : LogicalOp) (left right : Expr)
  /-- One of two expressions. -/
  | cond (test thenExpr elseExpr : Expr)
  /-- A call. -/
  | call (function : Expr) (arguments : List Expr)
  /-- A call of a method of a wait-group. -/
  | method (receiver : Expr) (method : String) (arguments : List Expr)
  /-- An assignment; its value is the assigned one. -/
  | assign (name : String) (value : Expr)
  /-- A function. -/
  | function (parameters : List String) (body : List Stmt)
  /-- A new channel. -/
  | newChannel (capacity : Nat)
  /-- A value received from a channel. -/
  | receive (channel : Expr)

/-- A statement. -/
inductive Stmt where
  /-- An expression. -/
  | expr (e : Expr)
  /-- Declares a variable, with a value or the one that its type starts with. -/
  | var (name : String) (type : Option TypeName) (value : Option Expr)
  /-- Declares a constant. -/
  | const (name : String) (value : Expr)
  /-- Declares a function. -/
  | function (name : String) (parameters : List String) (body : List Stmt)
  /-- Returns from a function. -/
  | ret (value : Option Expr)
  /-- Executes one of two blocks. -/
  | cond (test : Expr) (thenBody : List Stmt) (elseBody : Option (List Stmt))
  /-- A loop: what comes first, what is tested before each round, what follows each round, and
  the round itself. -/
  | loop (first : Option Stmt) (test : Option Expr) (after : Option Expr) (body : List Stmt)
  /-- Leaves a loop. -/
  | breakLoop
  /-- Goes on with the next round of a loop. -/
  | continueLoop
  /-- Calls a function in a new thread. -/
  | spawn (call : Expr)
  /-- Sends a value to a channel. -/
  | send (channel value : Expr)
  /-- A block. -/
  | block (body : List Stmt)

end

instance : Inhabited Expr := ⟨.null⟩

instance : Inhabited Stmt := ⟨.block []⟩

/-- A module. -/
structure Module where
  /-- Its statements. -/
  body : List Stmt
deriving Inhabited

/-! ## Declarations -/

/-- What a name was declared as. -/
inductive Binding where
  /-- A variable or a parameter; only these can be assigned. -/
  | variable
  /-- A constant. -/
  | constant
  /-- A function. -/
  | function
  /-- A builtin. -/
  | builtin
deriving DecidableEq, Repr, Inhabited

/-- The name that a statement declares. -/
def Stmt.declares? : Stmt → Option (String × Binding)
  | .var name _ _ => some (name, .variable)
  | .const name _ => some (name, .constant)
  | .function name _ _ => some (name, .function)
  | _ => none

/-- The names that a block declares, without those of the blocks in it. -/
def declared (body : List Stmt) : List (String × Binding) := body.filterMap Stmt.declares?

end ChannelMachine.Source

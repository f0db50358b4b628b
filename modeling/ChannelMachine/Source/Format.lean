import ChannelMachine.Code.Format
import ChannelMachine.Source.Syntax

/-!
# Syntax tree files

A syntax tree file is a JSON text with one field `stmts`, the array of statements.  A statement
or an expression is a variant named by its kind; its parts are a record, an array or a single
value.

The readers take the number of arrays and objects that may still be opened, as those of program
files do.  An object with a variant in it is one level, and the record or array in the variant
is one more.
-/

namespace ChannelMachine.Source

/-- The texts of an array. -/
def texts? (limit : Nat) (j : Json) : Option (List String) :=
  if limit = 0 then none else j.itemsOf? Json.text?

/-- The operation of a tree. -/
def LogicalOp.ofJson? (limit : Nat) (j : Json) : Option LogicalOp :=
  match j.plain? limit with
  | some "And" => some .and
  | some "Or" => some .or
  | _ => none

/-- The type of a tree. -/
def TypeName.ofJson? (limit : Nat) (j : Json) : Option TypeName :=
  match j.plain? limit with
  | some "Number" => some .number
  | some "String" => some .string
  | some "Bool" => some .bool
  | some "Chan" => some .channel
  | some "WaitGroup" => some .waitGroup
  | _ => none

/-- The statement without parts of a tree. -/
def Stmt.plain? (limit : Nat) (j : Json) : Option Stmt :=
  match j.plain? limit with
  | some "Break" => some .breakLoop
  | some "Continue" => some .continueLoop
  | _ => none

mutual

/-- The expression of a tree. -/
def Expr.ofJson? : Nat → Json → Option Expr
  | 0, j => if j.plain? 0 = some "Null" then some .null else none
  | n + 1, j =>
      match j.variant? with
      | some ("Null", none) | some ("Null", some .null) => some .null
      | some ("Number", some content) => content.double?.map .number
      | some ("Str", some content) => content.text?.map .text
      | some ("Bool", some content) => content.bool?.map .bool
      | some ("Ident", some content) => content.text?.map .name
      | some ("MakeChan", some content) => content.natural?.map .newChannel
      | some ("Recv", some content) => (Expr.ofJson? n content).map .receive
      | some ("Unary", some (.array [op, e])) =>
          match n with
          | 0 => none
          | m + 1 => do return .unary (← UnaryOp.ofJson? m op) (← Expr.ofJson? m e)
      | some ("Binary", some (.array [op, l, r])) =>
          match n with
          | 0 => none
          | m + 1 => do
              return .binary (← BinaryOp.ofJson? m op) (← Expr.ofJson? m l) (← Expr.ofJson? m r)
      | some ("Logical", some (.array [op, l, r])) =>
          match n with
          | 0 => none
          | m + 1 => do
              return .logical (← LogicalOp.ofJson? m op) (← Expr.ofJson? m l)
                (← Expr.ofJson? m r)
      | some ("Assign", some (.array [name, e])) =>
          match n with
          | 0 => none
          | m + 1 => do return .assign (← name.text?) (← Expr.ofJson? m e)
      | some ("Cond", some content) =>
          match n, content.record? ["cond", "then_expr", "else_expr"] with
          | m + 1, some [test, thenExpr, elseExpr] => do
              return .cond (← Json.required? (Expr.ofJson? m) test)
                (← Json.required? (Expr.ofJson? m) thenExpr)
                (← Json.required? (Expr.ofJson? m) elseExpr)
          | _, _ => none
      | some ("Call", some content) =>
          match n, content.record? ["callee", "args"] with
          | m + 1, some [function, arguments] => do
              return .call (← Json.required? (Expr.ofJson? m) function)
                (← Json.required? (argumentsOf? m) arguments)
          | _, _ => none
      | some ("MethodCall", some content) =>
          match n, content.record? ["receiver", "method", "args"] with
          | m + 1, some [receiver, method, arguments] => do
              return .method (← Json.required? (Expr.ofJson? m) receiver)
                (← Json.required? Json.text? method)
                (← Json.required? (argumentsOf? m) arguments)
          | _, _ => none
      | some ("Func", some content) =>
          match n, content.record? ["params", "body"] with
          | m + 1, some [parameters, body] => do
              return .function (← Json.required? (texts? m) parameters)
                (← Json.required? (bodyOf? m) body)
          | _, _ => none
      | _ => none

/-- The expressions of an array. -/
def argumentsOf? : Nat → Json → Option (List Expr)
  | 0, _ => none
  | n + 1, j => j.itemsOf? (Expr.ofJson? n)

/-- The statement of a tree. -/
def Stmt.ofJson? : Nat → Json → Option Stmt
  | 0, j => Stmt.plain? 0 j
  | n + 1, j =>
      match j.variant? with
      | some ("Expr", some content) => (Expr.ofJson? n content).map .expr
      | some ("Return", some content) =>
          (Json.optional? (Expr.ofJson? n) (some content)).map .ret
      | some ("Go", some content) => (Expr.ofJson? n content).map .spawn
      | some ("Block", some content) => (bodyOf? n content).map .block
      | some ("Var", some content) =>
          match n, content.record? ["name", "ty", "init"] with
          | m + 1, some [name, type, value] => do
              return .var (← Json.required? Json.text? name)
                (← Json.optional? (TypeName.ofJson? m) type)
                (← Json.optional? (Expr.ofJson? m) value)
          | _, _ => none
      | some ("Const", some content) =>
          match n, content.record? ["name", "init"] with
          | m + 1, some [name, value] => do
              return .const (← Json.required? Json.text? name)
                (← Json.required? (Expr.ofJson? m) value)
          | _, _ => none
      | some ("FuncDef", some content) =>
          match n, content.record? ["name", "params", "body"] with
          | m + 1, some [name, parameters, body] => do
              return .function (← Json.required? Json.text? name)
                (← Json.required? (texts? m) parameters) (← Json.required? (bodyOf? m) body)
          | _, _ => none
      | some ("If", some content) =>
          match n, content.record? ["cond", "then_body", "else_body"] with
          | m + 1, some [test, thenBody, elseBody] => do
              return .cond (← Json.required? (Expr.ofJson? m) test)
                (← Json.required? (bodyOf? m) thenBody) (← Json.optional? (bodyOf? m) elseBody)
          | _, _ => none
      | some ("For", some content) =>
          match n, content.record? ["init", "cond", "post", "body"] with
          | m + 1, some [first, test, after, body] => do
              return .loop (← Json.optional? (Stmt.ofJson? m) first)
                (← Json.optional? (Expr.ofJson? m) test) (← Json.optional? (Expr.ofJson? m) after)
                (← Json.required? (bodyOf? m) body)
          | _, _ => none
      | some ("Send", some content) =>
          match n, content.record? ["chan", "value"] with
          | m + 1, some [channel, value] => do
              return .send (← Json.required? (Expr.ofJson? m) channel)
                (← Json.required? (Expr.ofJson? m) value)
          | _, _ => none
      | _ => Stmt.plain? (n + 1) j

/-- The statements of an array. -/
def bodyOf? : Nat → Json → Option (List Stmt)
  | 0, _ => none
  | n + 1, j => j.itemsOf? (Stmt.ofJson? n)

end

/-- The module of a tree. -/
def Module.ofJson? (limit : Nat) (j : Json) : Option Module :=
  match limit, j.record? ["stmts"] with
  | limit + 1, some [some body] => (bodyOf? limit body).map .mk
  | _, _ => none

/-- The module of a file. -/
def Module.ofText? (text : String) : Option Module :=
  (Json.parse? text).bind (Module.ofJson? Json.fileNesting)

end ChannelMachine.Source

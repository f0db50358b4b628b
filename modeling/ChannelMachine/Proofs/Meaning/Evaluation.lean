import ChannelMachine.Machine.Builtins
import ChannelMachine.Machine.Operator
import ChannelMachine.Session
import ChannelMachine.Source.Syntax

/-!
# What a module means

An evaluator of syntax trees that knows neither instructions nor addresses.  Variables live in frames,
which are never freed.  A block that declares names has a fresh frame each time it is entered, in which
no name is assigned yet; a function keeps the frames around it, not their values.

The evaluator covers one thread.  It leaves the meaning open (`Stop.unknown`) where a construct of
several threads is met, where `==` or `!=` compares two NaNs, which the machine tells apart by their
nodes, and where what comes first in a loop ends by leaving a loop.  The depth of the evaluation is
bounded, and the meaning is left open, too, where the bound is too low.
-/

namespace ChannelMachine.Source

/-! ## Values -/

/-- A value.  A function is known by its number. -/
inductive Datum where
  /-- A number. -/
  | number (value : Number)
  /-- A boolean. -/
  | bool (value : Bool)
  /-- A text. -/
  | text (value : String)
  /-- The value `null`. -/
  | null
  /-- The value `undefined`. -/
  | undefined
  /-- A builtin. -/
  | builtin (action : Builtin)
  /-- A function of the program. -/
  | function (number : Nat)
deriving DecidableEq, Repr, Inhabited

namespace Datum

/-- The kind of a value. -/
def tag : Datum → Tag
  | number _ => .number
  | bool true => .true
  | bool false => .false
  | text _ => .string
  | null => .null
  | undefined => .undefined
  | builtin _ => .builtin
  | function _ => .closure

/-- What the host sees of a value. -/
def shown : Datum → Value
  | number x => .number x
  | bool b => .bool b
  | text s => .text s
  | null => .null
  | undefined => .undefined
  | builtin b => .builtin b.name
  | function _ => .closure

/-- The text that `print` shows. -/
def display (v : Datum) : String := v.shown.display

end Datum

/-! ## Environments -/

/-- The names of a frame, in slot order, and its number. -/
structure Layer where
  /-- The names. -/
  names : List String
  /-- The number of the frame. -/
  frame : Nat
deriving DecidableEq, Repr, Inhabited

/-- The frames around a piece of syntax, the innermost first. -/
abbrev Environment := List Layer

/-- The frame and the slot of a name: those of its innermost declaration. -/
def Environment.find? (name : String) : Environment → Option (Nat × Nat)
  | [] => none
  | layer :: outer =>
      match layer.names.findIdx? (· = name) with
      | some slot => some (layer.frame, slot)
      | none => find? name outer

/-- A function of the program. -/
structure Function where
  /-- The names of its arguments. -/
  parameters : List String
  /-- Its body. -/
  body : List Stmt
  /-- The frames around it. -/
  environment : Environment

/-- What there is besides the syntax. -/
structure Store where
  /-- The variables of the frames.  One that is not assigned has no value. -/
  frames : List (List (Option Datum))
  /-- The functions. -/
  functions : List Function
  /-- What has been printed. -/
  output : String

namespace Store

/-- The variable in a slot of a frame. -/
def slot? (s : Store) (frame slot : Nat) : Option (Option Datum) :=
  s.frames[frame]?.bind fun slots => slots[slot]?

/-- Assigns the variable in a slot of a frame. -/
def assign (s : Store) (frame slot : Nat) (v : Datum) : Store :=
  { s with frames := s.frames.modify frame (·.set slot (some v)) }

end Store

/-! ## Evaluations -/

/-- Why an evaluation gives no value. -/
inductive Stop where
  /-- There was a fault. -/
  | fault (cause : Fault)
  /-- The meaning is left open. -/
  | unknown
deriving DecidableEq, Repr

/-- A computation on a store that may stop. -/
abbrev Evaluation (α : Type) := EStateM Stop Store α

namespace Evaluation

/-- A result that does not depend on the store. -/
def of {α : Type} : Except Stop α → Evaluation α
  | .ok a => return a
  | .error stop => throw stop

/-- Makes a frame. -/
def newFrame (slots : List (Option Datum)) : Evaluation Nat :=
  modifyGet fun s => (s.frames.length, { s with frames := s.frames ++ [slots] })

/-- Makes a function. -/
def newFunction (f : Function) : Evaluation Datum :=
  modifyGet fun s => (.function s.functions.length, { s with functions := s.functions ++ [f] })

/-- Prints a text. -/
def print (text : String) : Evaluation Unit :=
  modifyGet fun s => ((), { s with output := s.output ++ text })

/-- The value of a variable. -/
def lookup (environment : Environment) (name : String) : Evaluation Datum := do
  match environment.find? name with
  | none => throw .unknown
  | some (frame, slot) =>
      match (← get).slot? frame slot with
      | some (some v) => return v
      | some none => throw (.fault .unassignedAccess)
      | none => throw .unknown

/-- Assigns a variable; the value is the assigned one. -/
def assign (environment : Environment) (name : String) (v : Datum) : Evaluation Datum := do
  match environment.find? name with
  | none => throw .unknown
  | some (frame, slot) => modifyGet fun s => (v, s.assign frame slot v)

/-- Evaluates a block in its own frame, if it declares names. -/
def inBlock {α : Type} (environment : Environment) (names : List (String × Binding))
    (body : Environment → Evaluation α) : Evaluation α :=
  if names.isEmpty then body environment
  else do
    let frame ← newFrame (names.map fun _ => none)
    body (⟨names.map Prod.fst, frame⟩ :: environment)

end Evaluation

/-! ## Operations -/

/-- The boolean of a value. -/
def Datum.truth : Datum → Except Stop Bool
  | .bool b => .ok b
  | v => .error (.fault (.type (.notBool v.tag)))

/-- The number of a value. -/
def Datum.needNumber : Datum → Except Stop Number
  | .number x => .ok x
  | v => .error (.fault (.type (.notNumber v.tag)))

/-- Whether two values are the same.  Two NaNs may be either. -/
def Datum.same : Datum → Datum → Except Stop Bool
  | .number x, .number y => if x.isNaN && y.isNaN then .error .unknown else .ok (x.same y)
  | v, w => .ok (v = w)

/-- What an operation makes of a value. -/
def unaryMeaning : UnaryOp → Datum → Except Stop Datum
  | .neg, v => do return .number (← v.needNumber).neg
  | .not, v => do return .bool (!(← v.truth))

/-- The fault of an operation that does not apply to two values. -/
def badOperands (op : BinaryOp) (v w : Datum) : Stop :=
  .fault (.type (.badOperands op v.tag w.tag))

/-- What an operation makes of two values. -/
def binaryMeaning (op : BinaryOp) (v w : Datum) : Except Stop Datum :=
  match op with
  | .eq => do return .bool (← v.same w)
  | .ne => do return .bool (!(← v.same w))
  | .lt | .le | .gt | .ge =>
      match v, w with
      | .number x, .number y => .ok (.bool (op.comparesNumbers x y))
      | .text s, .text t => .ok (.bool (op.comparesTexts s t))
      | v, w => .error (badOperands op v w)
  | .add =>
      match v, w with
      | .number x, .number y => .ok (.number (x.add y))
      | .text s, .text t => .ok (.text (s ++ t))
      | v, w => .error (badOperands op v w)
  | .sub | .mul | .div | .mod =>
      match v, w with
      | .number x, .number y => .ok (.number (op.onNumbers x y))
      | v, w => .error (badOperands op v w)

/-- What a builtin gives, and what it prints. -/
def builtinMeaning (b : Builtin) (arguments : List Datum) : Except Stop (Datum × String) :=
  match b, arguments with
  | .print, [v] => .ok (.undefined, v.display)
  | .println, [v] => .ok (.undefined, v.display ++ "\n")
  | .len, [.text s] => .ok (.number (.ofNat s.utf8ByteSize), "")
  | .len, [v] => .error (.fault (.type (.notString v.tag)))
  | .abs, [v] => do return (.number (← v.needNumber).abs, "")
  | .min, [v, w] => do return (.number ((← v.needNumber).least (← w.needNumber)), "")
  | .max, [v, w] => do return (.number ((← v.needNumber).greatest (← w.needNumber)), "")
  | .string, [v] => .ok (.text v.display, "")
  | b, vs => .error (.fault (.arity b.arity vs.length))

/-- Calls a builtin. -/
def callBuiltin (b : Builtin) (arguments : List Datum) : Evaluation Datum := do
  let (v, text) ← .of (builtinMeaning b arguments)
  Evaluation.print text
  return v

/-- What a variable of a type starts with. -/
def startMeaning : Option TypeName → Except Stop Datum
  | some .number => .ok (.number .zero)
  | some .string => .ok (.text "")
  | some .bool => .ok (.bool false)
  | some .channel => .ok .null
  | some .waitGroup => .error .unknown
  | none => .ok .undefined

/-! ## Expressions and statements -/

/-- How a statement ends. -/
inductive Completion where
  /-- It comes to its end with a value. -/
  | normal (value : Datum)
  /-- It leaves the loop around. -/
  | breaks
  /-- It goes on with the next round of the loop around. -/
  | continues
  /-- It returns from the function around. -/
  | returns (value : Datum)
deriving DecidableEq, Repr

open Evaluation

mutual

/-- The value of an expression. -/
def evaluate : Nat → Environment → Expr → Evaluation Datum
  | 0, _, _ => throw .unknown
  | n + 1, environment, e =>
      match e with
      | .number x => return .number x
      | .text s => return .text s
      | .bool b => return .bool b
      | .null => return .null
      | .name name => lookup environment name
      | .unary op e => do
          let v ← evaluate n environment e
          .of (unaryMeaning op v)
      | .binary op l r => do
          let v ← evaluate n environment l
          let w ← evaluate n environment r
          .of (binaryMeaning op v w)
      | .logical .and l r => do
          let v ← evaluate n environment l
          if ← .of v.truth then evaluate n environment r else return .bool false
      | .logical .or l r => do
          let v ← evaluate n environment l
          if ← .of v.truth then return .bool true else evaluate n environment r
      | .cond test thenExpr elseExpr => do
          let v ← evaluate n environment test
          if ← .of v.truth then evaluate n environment thenExpr
          else evaluate n environment elseExpr
      | .call f arguments => do
          let v ← evaluate n environment f
          let vs ← evaluateAll n environment arguments
          call n v vs
      | .assign name value => do
          let v ← evaluate n environment value
          assign environment name v
      | .function parameters body => newFunction ⟨parameters, body, environment⟩
      | .method .. | .newChannel _ | .receive _ => throw .unknown

/-- The values of expressions, the first one first. -/
def evaluateAll : Nat → Environment → List Expr → Evaluation (List Datum)
  | 0, _, _ => throw .unknown
  | _ + 1, _, [] => return []
  | n + 1, environment, e :: rest => do
      let v ← evaluate n environment e
      let vs ← evaluateAll n environment rest
      return v :: vs

/-- Calls a value.  A function that comes to its end gives `undefined`. -/
def call : Nat → Datum → List Datum → Evaluation Datum
  | 0, _, _ => throw .unknown
  | n + 1, v, arguments =>
      match v with
      | .builtin b => callBuiltin b arguments
      | .function i => do
          match (← get).functions[i]? with
          | none => throw .unknown
          | some f =>
              if f.parameters.length ≠ arguments.length then
                throw (.fault (.arity f.parameters.length arguments.length))
              else do
                let frame ← newFrame (arguments.map some)
                let environment := ⟨f.parameters, frame⟩ :: f.environment
                match ← inBlock environment (declared f.body)
                    fun environment => executeBody n environment f.body with
                | .normal _ => return .undefined
                | .returns v => return v
                | .breaks | .continues => throw .unknown
      | v => throw (.fault (.notCallable v.tag))

/-- Executes a statement. -/
def execute : Nat → Environment → Stmt → Evaluation Completion
  | 0, _, _ => throw .unknown
  | n + 1, environment, s =>
      match s with
      | .expr e => do
          let v ← evaluate n environment e
          return .normal v
      | .var name _ (some e) => do
          let v ← evaluate n environment e
          return .normal (← assign environment name v)
      | .var name type none => do
          let v ← .of (startMeaning type)
          return .normal (← assign environment name v)
      | .const name e => do
          let v ← evaluate n environment e
          return .normal (← assign environment name v)
      | .function name parameters body => do
          let v ← newFunction ⟨parameters, body, environment⟩
          return .normal (← assign environment name v)
      | .ret none => return .returns .undefined
      | .ret (some e) => do
          let v ← evaluate n environment e
          return .returns v
      | .cond test thenBody elseBody => do
          let v ← evaluate n environment test
          if ← .of v.truth then
            inBlock environment (declared thenBody) fun environment =>
              executeBody n environment thenBody
          else
            match elseBody with
            | none => return .normal .undefined
            | some elseBody =>
                inBlock environment (declared elseBody) fun environment =>
                  executeBody n environment elseBody
      | .loop first test after body => do
          let names := declared first.toList
          let frame ← newFrame (names.map fun _ => none)
          let environment := ⟨names.map Prod.fst, frame⟩ :: environment
          match ← executeFirst n environment first with
          | .normal _ => rounds n environment test after body
          | .returns v => return .returns v
          | .breaks | .continues => throw .unknown
      | .breakLoop => return .breaks
      | .continueLoop => return .continues
      | .block body =>
          inBlock environment (declared body) fun environment => executeBody n environment body
      | .spawn _ | .send .. => throw .unknown

/-- Executes the statements of a block.  Its value is that of the last one. -/
def executeBody : Nat → Environment → List Stmt → Evaluation Completion
  | 0, _, _ => throw .unknown
  | _ + 1, _, [] => return .normal .undefined
  | n + 1, environment, [s] => execute n environment s
  | n + 1, environment, s :: rest => do
      match ← execute n environment s with
      | .normal _ => executeBody n environment rest
      | left => return left

/-- Executes what comes first in a loop. -/
def executeFirst : Nat → Environment → Option Stmt → Evaluation Completion
  | 0, _, _ => throw .unknown
  | _ + 1, _, none => return .normal .undefined
  | n + 1, environment, some s => execute n environment s

/-- Executes the rounds of a loop.  The value of a loop is `undefined`. -/
def rounds : Nat → Environment → Option Expr → Option Expr → List Stmt → Evaluation Completion
  | 0, _, _, _, _ => throw .unknown
  | n + 1, environment, test, after, body => do
      if ← evaluateTest n environment test then
        match ← inBlock environment (declared body) fun environment =>
            executeBody n environment body with
        | .breaks => return .normal .undefined
        | .returns v => return .returns v
        | .normal _ | .continues =>
            evaluateAfter n environment after
            rounds n environment test after body
      else return .normal .undefined

/-- Whether there is another round of a loop. -/
def evaluateTest : Nat → Environment → Option Expr → Evaluation Bool
  | 0, _, _ => throw .unknown
  | _ + 1, _, none => return true
  | n + 1, environment, some e => do
      let v ← evaluate n environment e
      .of v.truth

/-- Evaluates what follows a round of a loop. -/
def evaluateAfter : Nat → Environment → Option Expr → Evaluation Unit
  | 0, _, _ => throw .unknown
  | _ + 1, _, none => return ()
  | n + 1, environment, some e => do
      let _ ← evaluate n environment e

end

/-! ## Modules -/

/-- The store before the first statement: one frame with the builtins. -/
def Store.initial : Store := ⟨[Builtin.all.map fun b => some (.builtin b)], [], ""⟩

/-- The environment of a module. -/
def Environment.initial : Environment := [⟨Builtin.all.map Builtin.name, 0⟩]

/-- What a module comes to, and what it prints, if the evaluation takes at most a given depth and
leaves nothing open. -/
def Module.evaluate (m : Module) (n : Nat) : Option (Outcome × String) :=
  match inBlock .initial (declared m.body) (fun environment => executeBody n environment m.body)
      .initial with
  | .ok (.normal v) s => some (.finished v.shown, s.output)
  | .ok _ _ => none
  | .error (.fault cause) s => some (.failed cause, s.output)
  | .error .unknown _ => none

/-! ## Tests -/

/-- A name is read before the statement that declares it. -/
example : (Module.mk [.expr (.name "x"), .var "x" none none]).evaluate 3 =
    some (.failed .unassignedAccess, "") := by
  rfl
/-- A function counts with a variable around it. -/
example : (Module.mk [.var "n" none (some .null), .function "f" [] [.expr (.assign "n" (.bool true))],
    .expr (.call (.name "f") []), .expr (.call (.name "print") [.name "n"])]).evaluate 12 =
    some (.finished .undefined, "true") := by
  rfl

end ChannelMachine.Source

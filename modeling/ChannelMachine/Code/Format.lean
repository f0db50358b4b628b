import ChannelMachine.Code.Instruction
import ChannelMachine.Json.Printer
import ChannelMachine.Json.Reader

/-!
# Program files

A program file is a JSON text with one field `ops`, the array of instructions.  An instruction
is a variant named by its kind; operands are its content.

Readers take the number of arrays and objects that may still be opened.  Where a level is used
up the content is read with what is left, so a limit bounds the nesting of the parts that are
read, and parts that are passed over have none.
-/

namespace ChannelMachine

/-- The arrays and objects that may be nested in a file. -/
def Json.fileNesting : Nat := 127

/-! ## Writing -/

/-- The tree of a literal, with the number written by `number`. -/
def Literal.toJson (number : Number → Json) : Literal → Json
  | .number x => .ofVariant "Number" (number x)
  | .bool b => .ofVariant "Bool" (.bool b)
  | .text s => .ofVariant "Str" (.ofText s)
  | .null => .ofText "Null"
  | .undefined => .ofText "Undefined"

/-- The tree of a position. -/
def Position.toJson (p : Position) : Json :=
  .ofFields [("frame", .ofNat p.frame), ("slot", .ofNat p.slot)]

/-- The name of an operation in a file. -/
def UnaryOp.fileName : UnaryOp → String
  | .neg => "Neg"
  | .not => "Not"

/-- The name of an operation in a file. -/
def BinaryOp.fileName : BinaryOp → String
  | .add => "Add"
  | .sub => "Sub"
  | .mul => "Mul"
  | .div => "Div"
  | .mod => "Mod"
  | .lt => "Lt"
  | .le => "Le"
  | .gt => "Gt"
  | .ge => "Ge"
  | .eq => "Eq"
  | .ne => "Ne"

namespace Instruction

/-- The tree of an instruction, with the number of a literal written by `number`. -/
def toJson (number : Number → Json) : Instruction → Json
  | constant l => .ofVariant "Ldc" (l.toJson number)
  | load p => .ofVariant "Ld" p.toJson
  | store p => .ofVariant "Assign" p.toJson
  | closure arity entry =>
      .ofVariant "Ldf" (.ofFields [("arity", .ofNat arity), ("addr", .ofNat entry)])
  | call n => .ofVariant "Call" (.ofNat n)
  | tailCall n => .ofVariant "TailCall" (.ofNat n)
  | ret => .ofText "Reset"
  | enterScope n => .ofVariant "EnterScope" (.ofNat n)
  | exitScope => .ofText "ExitScope"
  | pop => .ofText "Pop"
  | unary op => .ofVariant "Unop" (.ofText op.fileName)
  | binary op => .ofVariant "Binop" (.ofText op.fileName)
  | jumpUnless target => .ofVariant "Jof" (.ofNat target)
  | jump target => .ofVariant "Goto" (.ofNat target)
  | loopEnd next => .ofVariant "LoopMarker" (.ofFields [("cont", .ofNat next)])
  | breakLoop => .ofText "Break"
  | continueLoop => .ofText "Continue"
  | spawn n => .ofVariant "Go" (.ofNat n)
  | endThread => .ofText "GoEnd"
  | newChannel capacity => .ofVariant "NewChan" (.ofFields [("capacity", .ofNat capacity)])
  | send => .ofText "Send"
  | receive => .ofText "Recv"
  | newWaitGroup => .ofText "NewWaitGroup"
  | groupAdd => .ofText "WgAdd"
  | groupDone => .ofText "WgDone"
  | groupWait => .ofText "WgWait"
  | halt => .ofText "Done"

end Instruction

/-- The tree of a program. -/
def Program.toJson (number : Number → Json) (p : Program) : Json :=
  .ofFields [("ops", .array (p.code.toList.map (·.toJson number)))]

/-- The text of a program file. -/
def Program.fileText (p : Program) : String := (p.toJson .ofNumber).pretty

/-! ## Reading -/

/-- The literal of a tree. -/
def Literal.ofJson? (limit : Nat) (j : Json) : Option Literal :=
  match j.plain? limit with
  | some "Null" => some .null
  | some "Undefined" => some .undefined
  | some _ => none
  | none =>
      match limit, j.variant? with
      | _ + 1, some (name, some content) =>
          match name with
          | "Number" => content.double?.map .number
          | "Bool" => content.bool?.map .bool
          | "Str" => content.text?.map .text
          | _ => none
      | _, _ => none

/-- A record of one natural number. -/
def Json.naturalRecord? (name : String) (limit : Nat) (j : Json) : Option Nat :=
  if limit = 0 then none
  else
    match j.record? [name] with
    | some [a] => required? natural? a
    | _ => none

/-- A record of two natural numbers. -/
def Json.naturalRecord₂? (first second : String) (limit : Nat) (j : Json) : Option (Nat × Nat) :=
  if limit = 0 then none
  else
    match j.record? [first, second] with
    | some [a, b] =>
        match required? natural? a, required? natural? b with
        | some a, some b => some (a, b)
        | _, _ => none
    | _ => none

/-- The position of a tree. -/
def Position.ofJson? (limit : Nat) (j : Json) : Option Position :=
  (j.naturalRecord₂? "frame" "slot" limit).map fun (frame, slot) => ⟨frame, slot⟩

/-- The operation of a tree. -/
def UnaryOp.ofJson? (limit : Nat) (j : Json) : Option UnaryOp :=
  match j.plain? limit with
  | some "Neg" => some .neg
  | some "Not" => some .not
  | _ => none

/-- The operation of a tree. -/
def BinaryOp.ofJson? (limit : Nat) (j : Json) : Option BinaryOp :=
  match j.plain? limit with
  | some "Add" => some .add
  | some "Sub" => some .sub
  | some "Mul" => some .mul
  | some "Div" => some .div
  | some "Mod" => some .mod
  | some "Lt" => some .lt
  | some "Le" => some .le
  | some "Gt" => some .gt
  | some "Ge" => some .ge
  | some "Eq" => some .eq
  | some "Ne" => some .ne
  | _ => none

namespace Instruction

/-- The instruction without operands of a name. -/
def ofName? : String → Option Instruction
  | "Reset" => some ret
  | "ExitScope" => some exitScope
  | "Pop" => some pop
  | "Break" => some breakLoop
  | "Continue" => some continueLoop
  | "GoEnd" => some endThread
  | "Send" => some send
  | "Recv" => some receive
  | "NewWaitGroup" => some newWaitGroup
  | "WgAdd" => some groupAdd
  | "WgDone" => some groupDone
  | "WgWait" => some groupWait
  | "Done" => some halt
  | _ => none

/-- The instruction of a name and its operands. -/
def ofContent? (limit : Nat) (content : Json) : String → Option Instruction
  | "Ldc" => (Literal.ofJson? limit content).map constant
  | "Ld" => (Position.ofJson? limit content).map load
  | "Assign" => (Position.ofJson? limit content).map store
  | "Ldf" => (content.naturalRecord₂? "arity" "addr" limit).map fun (a, e) => closure a e
  | "Call" => content.natural?.map call
  | "TailCall" => content.natural?.map tailCall
  | "EnterScope" => content.natural?.map enterScope
  | "Unop" => (UnaryOp.ofJson? limit content).map unary
  | "Binop" => (BinaryOp.ofJson? limit content).map binary
  | "Jof" => content.natural?.map jumpUnless
  | "Goto" => content.natural?.map jump
  | "LoopMarker" => (content.naturalRecord? "cont" limit).map loopEnd
  | "Go" => content.natural?.map spawn
  | "NewChan" => (content.naturalRecord? "capacity" limit).map newChannel
  | _ => none

/-- The instruction of a tree. -/
def ofJson? (limit : Nat) (j : Json) : Option Instruction :=
  match (j.plain? limit).bind ofName? with
  | some i => some i
  | none =>
      match limit, j.variant? with
      | limit + 1, some (name, some content) => ofContent? limit content name
      | _, _ => none

end Instruction

/-- The program of a tree. -/
def Program.ofJson? (limit : Nat) (j : Json) : Option Program :=
  match limit, j.record? ["ops"] with
  | limit + 2, some [some ops] =>
      (ops.itemsOf? (Instruction.ofJson? limit)).map fun code => ⟨code.toArray⟩
  | _, _ => none

/-- The program of a file. -/
def Program.ofText? (text : String) : Option Program :=
  (Json.parse? text).bind (Program.ofJson? Json.fileNesting)

end ChannelMachine

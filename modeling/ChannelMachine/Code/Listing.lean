import ChannelMachine.Code.Instruction
import ChannelMachine.Decimal.Layout
import ChannelMachine.Text.Quoted

/-!
# Listings

A listing shows a program with one instruction a line: its index, its mnemonic and its
operands.
-/

namespace ChannelMachine

open Decimal Text

/-- Listed numbers: a point down to `0.0001` and up to sixteen places, no sign on a positive
exponent, and the larger of two equally near numerals. -/
def listed : Layout := ⟨-3, 16, false, .up⟩

/-- A number in a listing.  Its sign and its bits can be read back unless it is NaN. -/
def listNumber (x : Number) : String :=
  match x.binary? with
  | some b => listed.write b
  | none => if x.isNaN then "NaN" else if x.isNegative then "-inf" else "inf"

/-- A literal in a listing. -/
def Literal.list : Literal → String
  | .number x => "Number(" ++ listNumber x ++ ")"
  | .bool true => "Bool(true)"
  | .bool false => "Bool(false)"
  | .text s => "Str(" ++ quote s ++ ")"
  | .null => "Null"
  | .undefined => "Undefined"

/-- A natural number in a listing. -/
def listNat (n : Nat) : String := .ofList (Nat.toDigits 10 n)

/-- A position in a listing. -/
def Position.list (p : Position) : String :=
  "(" ++ listNat p.frame ++ ", " ++ listNat p.slot ++ ")"

/-- An operation in a listing. -/
def UnaryOp.list : UnaryOp → String
  | .neg => "Neg"
  | .not => "Not"

namespace Instruction

/-- The name of an instruction in a listing. -/
def mnemonic : Instruction → String
  | constant _ => "LDC"
  | load _ => "LD"
  | store _ => "ASSIGN"
  | closure .. => "LDF"
  | call _ => "CALL"
  | tailCall _ => "TAIL_CALL"
  | ret => "RESET"
  | enterScope _ => "ENTER_SCOPE"
  | exitScope => "EXIT_SCOPE"
  | pop => "POP"
  | unary _ => "UNOP"
  | binary _ => "BINOP"
  | jumpUnless _ => "JOF"
  | jump _ => "GOTO"
  | loopEnd _ => "LOOP_MARKER"
  | breakLoop => "BREAK"
  | continueLoop => "CONTINUE"
  | spawn _ => "GO"
  | endThread => "GO_END"
  | newChannel _ => "NEW_CHAN"
  | send => "SEND"
  | receive => "RECV"
  | newWaitGroup => "NEW_WAITGROUP"
  | groupAdd => "WG_ADD"
  | groupDone => "WG_DONE"
  | groupWait => "WG_WAIT"
  | halt => "DONE"

/-- The operands of an instruction in a listing, if it has any. -/
def operands? : Instruction → Option String
  | constant l => some l.list
  | load p | store p => some p.list
  | closure arity entry => some ("arity=" ++ listNat arity ++ " addr=" ++ listNat entry)
  | call n | tailCall n | spawn n | enterScope n => some (listNat n)
  | unary op => some op.list
  | binary op => some op.symbol
  | jumpUnless target | jump target => some (listNat target)
  | loopEnd next => some ("cont=" ++ listNat next)
  | newChannel capacity => some ("capacity=" ++ listNat capacity)
  | _ => none

/-- An instruction in a listing. -/
def list (i : Instruction) : String :=
  match i.operands? with
  | some operands => i.mnemonic ++ " " ++ operands
  | none => i.mnemonic

end Instruction

/-- An index, right-aligned to a width of four. -/
def listIndex (n : Nat) : String :=
  let digits := Nat.toDigits 10 n
  .ofList (List.replicate (4 - digits.length) ' ' ++ digits)

namespace Program

/-- The line of the instruction at an index. -/
def line (index : Nat) (i : Instruction) : String := listIndex index ++ "  " ++ i.list ++ "\n"

/-- The listing of a program, one line for each instruction. -/
def listing (p : Program) : String := String.join (p.code.toList.mapIdx line)

end Program

example : Program.line 7 (.load ⟨0, 2⟩) = "   7  LD (0, 2)\n" := by decide +kernel
example : Program.line 12345 (.constant (.text "a\"b\n")) =
    "12345  LDC Str(\"a\\\"b\\n\")\n" := by decide +kernel
example : Program.line 0 (.constant (.number (.ofFloat 1e-5))) = "   0  LDC Number(1e-5)\n" := by
  decide +kernel

end ChannelMachine

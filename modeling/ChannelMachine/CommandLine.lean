import ChannelMachine.Code.Listing
import ChannelMachine.Session
import ChannelMachine.Source.Compile
import ChannelMachine.Source.Format

/-!
# The command line

The arguments are a command, options and the path of one file, in any order after the command.
`plan` finds out what they ask for, and `Job.perform` says what is written once the file is
read.  Neither reads or writes anything, so the whole program is a function of its arguments,
the file and the environment.

Arguments are looked at from left to right, and the first bad one counts.  Only then are the
command and the number of paths checked.
-/

namespace ChannelMachine.CommandLine

/-- What can be done with a file. -/
inductive Command where
  /-- Runs a program. -/
  | run
  /-- Compiles a syntax tree and runs the program. -/
  | exec
  /-- Compiles a syntax tree and writes the program. -/
  | compile
  /-- Lists the instructions of a program. -/
  | dump
deriving DecidableEq, Repr

/-- The command of a name. -/
def Command.ofName? : String → Option Command
  | "run" => some .run
  | "exec" => some .exec
  | "compile" => some .compile
  | "dump" => some .dump
  | _ => none

/-- Why a file was not read. -/
inductive ReadFailure where
  /-- There is no such file. -/
  | missing
  /-- The file holds no text. -/
  | noText
  /-- Another cause, in the words of the system. -/
  | other (cause : String)
deriving DecidableEq, Repr

/-- The wording of a cause. -/
def ReadFailure.message : ReadFailure → String
  | missing => "No such file or directory (os error 2)"
  | noText => "stream did not contain valid UTF-8"
  | other cause => cause

/-- The text in the bytes of a file. -/
def textOf (bytes : ByteArray) : Except ReadFailure String :=
  match String.fromUTF8? bytes with
  | some text => .ok text
  | none => .error .noText

/-- Why nothing was done, or not all of it. -/
inductive Failure where
  /-- There is no argument. -/
  | noArguments
  /-- An option in a form that no option has. -/
  | unknownOption (argument : String)
  /-- An option whose value is no number. -/
  | badValue (key value : String)
  /-- There is no such command. -/
  | unknownCommand (name : String)
  /-- There is no path, or more than one. -/
  | noFile
  /-- The file was not read. -/
  | unreadable (cause : ReadFailure)
  /-- The file holds no program. -/
  | noProgram (path : String)
  /-- The file holds no syntax tree. -/
  | noTree (path : String)
  /-- The syntax tree was refused. -/
  | refused (cause : Source.Error)
  /-- The run ended in a fault. -/
  | stopped (fault : Fault)

/-- How the program is called. -/
def usage : String :=
  "Usage: gvm <run|exec|compile|dump> [seed=<n>] [heap=<words>] [quantum=<n>] [typed-chans] <file>"

namespace Failure

/-- The wording of a failure. -/
def message : Failure → String
  | noArguments => usage
  | unknownOption argument => "Unknown option: " ++ argument
  | badValue key value => "Invalid value for " ++ key ++ ": " ++ value
  | unknownCommand name => "Unknown command: " ++ name ++ "\n" ++ usage
  | noFile => "Missing <file>"
  | unreadable cause => "Read failed: " ++ cause.message
  | noProgram path => "Invalid program " ++ path ++ ": malformed"
  | noTree path => "Invalid syntax tree " ++ path ++ ": malformed"
  | refused cause => "CompileError: " ++ cause.message
  | stopped fault => "RuntimeError: " ++ fault.message

/-- The exit code of a failure: one if the program in the file is at fault. -/
def exitCode : Failure → UInt32
  | refused _ | stopped _ => 1
  | _ => 2

end Failure

/-- What is written, and the exit code. -/
structure Response where
  /-- The exit code. -/
  code : UInt32
  /-- What is written to the standard output. -/
  output : String
  /-- What is written to the standard error. -/
  errors : String
deriving DecidableEq, Repr

/-- The response to a failure without any output. -/
def Failure.response (f : Failure) : Response := ⟨f.exitCode, "", f.message ++ "\n"⟩

/-! ## Arguments -/

/-- The options.  One that is missing has its default. -/
structure Options where
  /-- What the lengths of the quanta are drawn from. -/
  seed : Option Nat := none
  /-- The words of the heap. -/
  heapWords : Option Nat := none
  /-- The longest quantum. -/
  maxQuantum : Option Nat := none
  /-- Whether a channel takes values of one type only. -/
  typedChannels : Bool := false
deriving DecidableEq, Repr

/-- The value of an option. -/
def valueOf? (key argument : String) : Option String :=
  ((key ++ "=").toList.isPrefixOf? argument.toList).map String.ofList

/-- The number of decimal digits, if it fits 64 bits.  One plus sign may stand in front. -/
def natural? (text : String) : Option Nat :=
  let digits :=
    match text.toList with
    | '+' :: digits => digits
    | digits => digits
  if digits.isEmpty then none else Json.naturalOf? digits

/-- The number of an option. -/
def number (key value : String) : Except Failure Nat :=
  match natural? value with
  | some n => .ok n
  | none => .error (.badValue key value)

/-- The options and the paths after one more argument. -/
def take (options : Options) (paths : List String) (argument : String) :
    Except Failure (Options × List String) :=
  if ['-', '-'].isPrefixOf argument.toList then .error (.unknownOption argument)
  else
    match valueOf? "seed" argument, valueOf? "heap" argument, valueOf? "quantum" argument with
    | some value, _, _ => do return ({ options with seed := ← number "seed" value }, paths)
    | _, some value, _ => do return ({ options with heapWords := ← number "heap" value }, paths)
    | _, _, some value => do
        return ({ options with maxQuantum := ← number "quantum" value }, paths)
    | none, none, none =>
        if argument = "typed-chans" then .ok ({ options with typedChannels := true }, paths)
        else .ok (options, paths ++ [argument])

/-- The options and the paths among some arguments. -/
def takeAll (options : Options) (paths : List String) :
    List String → Except Failure (Options × List String)
  | [] => .ok (options, paths)
  | argument :: rest => do
      let (options, paths) ← take options paths argument
      takeAll options paths rest

/-- What is to be done. -/
structure Job where
  /-- The command. -/
  command : Command
  /-- The path of the file. -/
  path : String
  /-- The options. -/
  options : Options
deriving DecidableEq, Repr

/-- What the arguments ask for. -/
def plan : List String → Except Failure Job
  | [] => .error .noArguments
  | name :: arguments => do
      let (options, paths) ← takeAll {} [] arguments
      match Command.ofName? name, paths with
      | none, _ => throw (.unknownCommand name)
      | some command, [path] => return ⟨command, path, options⟩
      | some _, _ => throw .noFile

/-- Whether the value of the trace variable asks for a trace. -/
def asksForTrace (value : String) : Bool :=
  value = "1" || value.toList.map Char.toLower = "true".toList

/-- How a program is run.  The lengths of the quanta are drawn from `entropy` if no option says
otherwise. -/
def Options.config (o : Options) (tracing : Bool) (entropy : UInt64) : Config where
  heapWords := o.heapWords.getD 1000000
  maxQuantum := o.maxQuantum.getD 15
  seed := (o.seed.map UInt64.ofNat).getD entropy
  typedChannels := o.typedChannels
  tracing := tracing

/-! ## Responses -/

/-- The most steps of a run, more than any machine takes. -/
def stepLimit : Nat := 0x4000000000000000

/-- Lines of text. -/
def lines (texts : List String) : String := String.join (texts.map (· ++ "\n"))

/-- Runs a program: its output and its value, unless that is `undefined`. -/
def execute (config : Config) (program : Program) : Response :=
  let ran := Session.run ⟨config, "", none⟩ program stepLimit
  let output := ran.2.output
  let trace := lines (ran.1.events.map Event.line)
  match ran.1.outcome with
  | .finished .undefined | .unfinished => ⟨0, output, trace⟩
  | .finished value => ⟨0, output ++ value.display ++ "\n", trace⟩
  | .failed fault =>
      let failure := (Failure.stopped fault).response
      ⟨failure.code, output, trace ++ failure.errors⟩

/-- The program in a file. -/
def readProgram (path text : String) : Except Failure Program :=
  match Program.ofText? text with
  | some program => .ok program
  | none => .error (.noProgram path)

/-- The program of the syntax tree in a file. -/
def compileFile (path text : String) : Except Failure Program :=
  match Source.Module.ofText? text with
  | none => .error (.noTree path)
  | some tree =>
      match tree.compile with
      | .ok program => .ok program
      | .error cause => .error (.refused cause)

/-- What is written about a program. -/
def Command.respond (config : Config) (program : Program) : Command → Response
  | run | exec => execute config program
  | compile => ⟨0, program.fileText ++ "\n", ""⟩
  | dump => ⟨0, program.listing, ""⟩

/-- The program that a command finds in a file. -/
def Command.read (path text : String) : Command → Except Failure Program
  | run | dump => readProgram path text
  | exec | compile => compileFile path text

/-- What is written once the file is read, or could not be. -/
def Job.perform (job : Job) (tracing : Bool) (entropy : UInt64)
    (file : Except ReadFailure String) : Response :=
  match file with
  | .error cause => (Failure.unreadable cause).response
  | .ok text =>
      match job.command.read job.path text with
      | .error failure => failure.response
      | .ok program => job.command.respond (job.options.config tracing entropy) program

/-! ## Tests -/

example : natural? "+5" = some 5 := by decide +kernel
example : natural? "+" = none := by decide +kernel
example : natural? "18446744073709551616" = none := by decide +kernel
/-- A bad option counts before an unknown command. -/
example : plan ["frob", "seed=x"] = .error (.badValue "seed" "x") := by rfl
/-- The last of two options counts. -/
example : plan ["run", "seed=1", "p", "seed=2"] = .ok ⟨.run, "p", ⟨some 2, none, none, false⟩⟩ := by
  rfl

end ChannelMachine.CommandLine

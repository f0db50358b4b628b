import ChannelMachine.CommandLine
import ChannelMachine.Proofs.Source.Storing

/-!
# Programs in files

What is written for a compiled module is a program file.  Nothing is lost on the way through it: the
file is read as the program that was written, and running the file responds as compiling and running the
module at once does, if the seed is given.
-/

namespace ChannelMachine.CommandLine

/-- What is written as a file is read as the text. -/
theorem textOf_toUTF8 (text : String) : textOf text.toUTF8 = .ok text := by
  have hread : String.fromUTF8? text.toUTF8 = some text := by
    unfold String.fromUTF8?
    exact dif_pos text.isValidUTF8
  rw [textOf, hread]

theorem isBlank_newLine : ∀ c ∈ ['\n'], Json.isBlank c = true := by
  intro c hc
  obtain rfl := List.mem_singleton.1 hc
  rfl

/-- A failure has an exit code of its own. -/
theorem Failure.exitCode_ne_zero (f : Failure) : f.exitCode ≠ 0 := by
  cases f with
  | refused cause => exact (by decide : (1 : UInt32) ≠ 0)
  | stopped fault => exact (by decide : (1 : UInt32) ≠ 0)
  | _ => exact (by decide : (2 : UInt32) ≠ 0)

section

variable (job : Job) {text : String} {tracing : Bool} {entropy : UInt64}

/-- A job responds with the program that it finds. -/
theorem Job.perform_of_read {program : Program} (h : job.command.read job.path text = .ok program) :
    job.perform tracing entropy (.ok text) =
      job.command.respond (job.options.config tracing entropy) program := by
  unfold Job.perform
  dsimp only
  rw [h]

/-- A job without a failure has found a program. -/
theorem Job.exists_of_code (h : (job.perform tracing entropy (.ok text)).code = 0) :
    ∃ program, job.command.read job.path text = .ok program := by
  unfold Job.perform at h
  dsimp only at h
  cases hread : job.command.read job.path text with
  | error failure =>
    rw [hread] at h
    exact absurd h failure.exitCode_ne_zero
  | ok program => exact ⟨program, rfl⟩

end

/-- A program that was compiled from a file can be stored. -/
theorem storable_of_compileFile {path text : String} {program : Program}
    (h : compileFile path text = .ok program) (hsize : program.code.size < Json.naturalLimit) :
    program.Storable := by
  unfold compileFile at h
  split at h
  next => cases h
  next tree htree =>
    split at h
    next hcompile =>
      obtain rfl := Except.ok.inj h
      exact Source.Module.storable_of_compile htree hcompile hsize
    next => cases h

/-- Only an option for the seed makes the response independent of the entropy. -/
theorem Options.config_of_seed {o : Options} {seed : Nat} (h : o.seed = some seed) (tracing : Bool)
    (entropy entropy' : UInt64) : o.config tracing entropy = o.config tracing entropy' := by
  unfold Options.config
  rw [h]
  rfl

/-- A program comes back from its file.  So whenever a module compiles, running the file that was
written does what compiling and running the module at once does, with the same options and a seed among
them. -/
theorem compiled_files_keep_programs :
    (∀ program : Program, program.Storable →
      Program.ofText? (program.fileText ++ "\n") = some program) ∧
    ∀ (path text : String) (o : Options) (tracing : Bool) (entropy : UInt64),
      ((Job.mk .compile path o).perform tracing entropy (.ok text)).code = 0 →
      (∀ program, compileFile path text = .ok program → program.code.size < Json.naturalLimit) →
      ∀ (file : String) (o' : Options) (seed : Nat) (tracing' : Bool) (entropy₁ entropy₂ : UInt64),
        o'.seed = some seed →
        (Job.mk .run file o').perform tracing' entropy₁
            (textOf ((Job.mk .compile path o).perform tracing entropy (.ok text)).output.toUTF8) =
          (Job.mk .exec path o').perform tracing' entropy₂ (.ok text) := by
  refine ⟨fun program h => Program.ofText?_append h isBlank_newLine, ?_⟩
  intro path text o tracing entropy hcode hsize file o' seed tracing' entropy₁ entropy₂ hseed
  obtain ⟨program, hread⟩ := Job.exists_of_code _ hcode
  have hfile : Command.run.read file (program.fileText ++ "\n") = .ok program := by
    rw [Command.read, readProgram, Program.ofText?_append
      (storable_of_compileFile hread (hsize _ hread)) isBlank_newLine]
  have hexec : Command.exec.read path text = .ok program := hread
  rw [Job.perform_of_read ⟨.compile, path, o⟩ hread, Command.respond, textOf_toUTF8,
    Job.perform_of_read ⟨.run, file, o'⟩ hfile, Job.perform_of_read ⟨.exec, path, o'⟩ hexec,
    Command.respond, Command.respond, Options.config_of_seed hseed tracing' entropy₁ entropy₂]

/-- A program with the sign of a zero, an escaped character and the greatest operand. -/
def storedProgram : Program := ⟨#[.constant (.number ⟨0x8000000000000000⟩),
  .constant (.text "\x01é😀"), .newChannel 0xffffffffffffffff, .halt]⟩

/-- A module that prints a minus zero. -/
def moduleText : String :=
  "\x7b\"stmts\": [\x7b\"Expr\": \x7b\"Call\": \x7b\"callee\": \x7b\"Ident\": \"print\"\x7d, " ++
    "\"args\": [\x7b\"Number\": -0.0\x7d]\x7d\x7d\x7d]\x7d"

/-- A module is printed as a program file, and the file runs as the module does. -/
theorem compiled_files_keep_programs_example :
    Program.ofText? (storedProgram.fileText ++ "\n") = some storedProgram ∧
      (Job.mk .run "p" ⟨some 7, none, none, false⟩).perform false 1
        (textOf ((Job.mk .compile "m" ⟨none, none, none, false⟩).perform false 0
          (.ok moduleText)).output.toUTF8) =
      (Job.mk .exec "m" ⟨some 7, none, none, false⟩).perform false 2 (.ok moduleText) := by
  refine ⟨compiled_files_keep_programs.1 _ fun i hi => ?_,
    compiled_files_keep_programs.2 "m" moduleText _ false 0 ?_ ?_ "p" _ 7 false 1 2 rfl⟩
  · rcases List.mem_toArray.1 hi with _ | ⟨_, _ | ⟨_, _ | ⟨_, _ | ⟨_, hi⟩⟩⟩⟩
    · have hfinite : (Number.mk 0x8000000000000000).binary? ≠ none := by decide
      exact .constant hfinite
    · exact .constant trivial
    · exact Instruction.storable_of_operand rfl (by decide)
    · exact ⟨nofun, nofun⟩
    · cases hi
  · decide +kernel
  · intro program h
    have hsize : (match compileFile "m" moduleText with
        | .ok program => decide (program.code.size < Json.naturalLimit)
        | .error _ => true) = true := by decide +kernel
    rw [h] at hsize
    exact of_decide_eq_true hsize

end ChannelMachine.CommandLine

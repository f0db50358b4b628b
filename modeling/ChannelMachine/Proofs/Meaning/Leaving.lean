import ChannelMachine.Proofs.Meaning.Tracing

/-!
# Ways out of a piece of code

The value of an expression lies on the stack behind its code, or goes to the caller if the expression is
in tail position (`Arrives`).  A statement comes to its end, leaves the loop around or goes on with its
next round, or returns; `Exits` names the spot for each of these, and `Exits.Valid` says that the code
around the statement leads there.
-/

namespace ChannelMachine.Source

/-! ## Values -/

/-- The spot behind a return. -/
def Return.spot (r : Return) (operands : List Datum) : Spot :=
  ⟨operands, r.environment, r.returns, r.pc⟩

/-- A value that is computed in front of an index comes to a place: to the caller in tail position, and to
the index otherwise. -/
def Arrives (tail : Bool) (environment : Environment) (returns : List Kont) (after : Nat)
    (r : Return) : Prop :=
  if tail then ReturnsTo returns r else r = ⟨after, environment, returns⟩

section Values

variable {program : Program} {w : World} {operands : List Datum} {environment : Environment}
  {returns : List Kont} {base pc : Nat} {r : Return} {α : Type}

/-- A value in tail position is returned. -/
theorem Traces.returning {x : Evaluation Datum} {tail : Bool} {code : Code}
    (hcode : Lies program.at? base (returning tail code))
    (harrives : Arrives tail environment returns (base + (returning tail code).length) r)
    (hx : Lies program.at? base code → Traces program w ⟨operands, environment, returns, base⟩ x
      fun v => ⟨v :: operands, environment, returns, base + code.length⟩) :
    Traces program w ⟨operands, environment, returns, base⟩ x fun v => r.spot (v :: operands) := by
  cases tail with
  | false =>
    obtain rfl : r = _ := harrives
    exact hx hcode
  | true =>
    obtain ⟨hcode, hret, -⟩ := (lies_append _ _ _).1 hcode
    exact (hx hcode).before fun _ _ => .single (steps_ret hret harrives)

/-- A test decides between two ways to go on. -/
theorem Traces.test {x y : Evaluation α} {goal : α → Spot} {target : Nat}
    (hi : program.at? pc = some (.jumpUnless target)) (v : Datum)
    (hx : Traces program w ⟨operands, environment, returns, pc + 1⟩ x goal)
    (hy : Traces program w ⟨operands, environment, returns, target⟩ y goal) :
    Traces program w ⟨v :: operands, environment, returns, pc⟩
      (do if ← Evaluation.of v.truth then x else y) goal := by
  cases hv : v.truth with
  | ok test =>
    cases v with
    | bool b =>
      obtain rfl := Except.ok.inj hv
      cases b with
      | true => exact .step (steps_jumpUnless hi true) hx
      | false => exact .step (steps_jumpUnless hi false) hy
    | _ => cases hv
  | error stop =>
    match stop with
    | .fault cause => exact .fault (faults_jumpUnless hi hv)
    | .unknown => exact .unknown

/-- A frame is made as the machine makes it. -/
theorem Traces.newFrame {slots : List (Option Datum)} {f : Nat → Evaluation α} {spot mid : Spot}
    {goal : α → Spot} (h : Steps program ⟨w, spot⟩ ⟨w.withFrame slots, mid⟩)
    (hf : Traces program (w.withFrame slots) mid (f w.store.frames.length) goal) :
    Traces program w spot (Evaluation.newFrame slots >>= f) goal :=
  Ends.after (.single h) hf

end Values

/-! ## Loops -/

/-- Where a loop is, and what there is in its scope. -/
structure LoopTarget where
  /-- The frames around. -/
  environment : Environment
  /-- What there is to return to. -/
  returns : List Kont
  /-- The index of its end. -/
  marker : Nat
  /-- Where the next round starts. -/
  next : Nat

/-- The search for the end of the loop around an index comes to a loop, and closes the scopes in
between. -/
structure LeavesTo (program : Program) (pc : Nat) (environment : Environment) (returns : List Kont)
    (t : LoopTarget) : Prop where
  /-- The loop ends here. -/
  marker : program.at? t.marker = some (.loopEnd t.next)
  /-- The scopes in between. -/
  way : ∃ n, (∀ k, program.Passes pc 0 k t.marker 0 (k + n)) ∧
    Unwinds n environment returns t.environment t.returns

namespace LeavesTo

variable {program : Program} {pc pc' : Nat} {environment outside : Environment}
  {returns : List Kont} {t : LoopTarget}

theorem of_skips (skips : program.Skips pc pc')
    (leaves : LeavesTo program pc' environment returns t) :
    LeavesTo program pc environment returns t := by
  obtain ⟨hmarker, n, passes, unwinds⟩ := leaves
  exact ⟨hmarker, n, fun k => (skips 0 k).trans (passes k), unwinds⟩

/-- From inside of a scope. -/
theorem enter (hi : program.at? pc = some .exitScope)
    (leaves : LeavesTo program (pc + 1) outside returns t) :
    LeavesTo program pc environment (.block outside :: returns) t := by
  obtain ⟨hmarker, n, passes, unwinds⟩ := leaves
  refine ⟨hmarker, n + 1, fun k => ?_, .step unwinds⟩
  have h := (Program.passes_out hi).trans (passes (k + 1))
  rwa [Nat.add_right_comm] at h

/-- At the end of the loop. -/
theorem here (environment : Environment) (returns : List Kont) {next : Nat}
    (hi : program.at? pc = some (.loopEnd next)) :
    LeavesTo program pc environment returns ⟨environment, returns, pc, next⟩ :=
  ⟨hi, 0, fun _ => .refl, .refl environment returns⟩

/-- The loop is left, or goes on with its next round. -/
theorem steps (isBreak : Bool) {w : World} {operands : List Datum}
    (leaves : LeavesTo program (pc + 1) environment returns t)
    (hi : program.at? pc = some (if isBreak then .breakLoop else .continueLoop)) :
    Steps program ⟨w, operands, environment, returns, pc⟩
      ⟨w, operands, t.environment, t.returns, if isBreak then t.marker + 1 else t.next⟩ := by
  obtain ⟨hmarker, n, passes, unwinds⟩ := leaves
  have h := passes 0
  rw [Nat.zero_add] at h
  exact steps_leave hi (h.loopEndAfter hmarker) unwinds

end LeavesTo

/-! ## Statements -/

/-- Where a statement leads. -/
structure Exits where
  /-- The frames around it. -/
  environment : Environment
  /-- What there is to return to. -/
  returns : List Kont
  /-- The index behind it. -/
  after : Nat
  /-- The loop around. -/
  loop : LoopTarget
  /-- Where the function around returns to. -/
  back : Return

namespace Exits

/-- The spot to which a statement leads that ends in a way. -/
def spot (x : Exits) (operands : List Datum) : Completion → Spot
  | .normal v => ⟨v :: operands, x.environment, x.returns, x.after⟩
  | .breaks => ⟨operands, x.loop.environment, x.loop.returns, x.loop.marker + 1⟩
  | .continues => ⟨operands, x.loop.environment, x.loop.returns, x.loop.next⟩
  | .returns v => x.back.spot (v :: operands)

/-- The same for a statement whose value is dropped. -/
def dropped (x : Exits) (operands : List Datum) : Completion → Spot
  | .normal _ => ⟨operands, x.environment, x.returns, x.after⟩
  | .breaks => x.spot operands .breaks
  | .continues => x.spot operands .continues
  | .returns v => x.spot operands (.returns v)

/-- The code behind a statement leads there. -/
structure Valid (program : Program) (c : Context) (x : Exits) : Prop where
  /-- The loop around can be left. -/
  loop : c.inLoop = true → LeavesTo program x.after x.environment x.returns x.loop
  /-- The function around can return. -/
  back : c.inFunction = true → ReturnsTo x.returns x.back

variable {program : Program} {c : Context} {x : Exits}

/-- Behind a statement more code is passed over. -/
theorem Valid.of_skips (valid : x.Valid program c) {pc : Nat} (skips : program.Skips pc x.after) :
    { x with after := pc }.Valid program c :=
  ⟨fun h => (valid.loop h).of_skips skips, valid.back⟩

/-- Inside of a scope. -/
theorem Valid.enter (valid : x.Valid program c) {pc : Nat} (hafter : x.after = pc + 1)
    (hi : program.at? pc = some .exitScope) (inside : Environment) (s : Scope) :
    { x with environment := inside, returns := .block x.environment :: x.returns, after := pc }.Valid
      program { c with scopes := s :: c.scopes } :=
  ⟨fun h => .enter hi (hafter ▸ valid.loop h), fun h => (valid.back h).block x.environment⟩

end Exits

/-- The rule for the end of a statement: only where it comes to its end, there is more to do. -/
theorem Traces.leaving {program : Program} {w : World} {spot : Spot} {operands : List Datum}
    {e : Evaluation Completion} {x : Exits} {inside : Environment} {returns : List Kont} {after : Nat}
    (he : Traces program w spot e
      ({ x with environment := inside, returns := returns, after := after }.spot operands))
    (h : ∀ v w', Reaches program ⟨w', v :: operands, inside, returns, after⟩
      ⟨w', v :: operands, x.environment, x.returns, x.after⟩) :
    Traces program w spot e (x.spot operands) := by
  refine he.before fun a w' => ?_
  cases a with
  | normal v => exact h v w'
  | breaks | continues | returns => exact .refl

/-! ## What the search passes over -/

section Skips

variable {program : Program} {c : Context} {base : Nat} {code : Code}

/-- A shape with the scopes of the compiler. -/
def Context.shape (c : Context) : Shape := ⟨0, c.scopes.map List.length, [], none, .function⟩

theorem Context.suits (c : Context) : Suits c c.shape := ⟨rfl, fun _ => rfl⟩

theorem Expr.skips {e : Expr} {tail : Bool} (h : e.compile c tail base = .ok code)
    (hcode : Lies program.at? base code) : program.Skips base (base + code.length) :=
  (e.fits h c.suits fun _ => ⟨rfl, rfl⟩).skips program hcode

theorem Stmt.skips {s : Stmt} (h : s.compile c base = .ok code)
    (hcode : Lies program.at? base code) : program.Skips base (base + code.length) :=
  (s.fits h c.suits rfl).skips program hcode

end Skips

/-! ## The code of loops -/

/-- The code of an optional part of a loop, with an instruction behind it. -/
def PartCode (program : Program) (c : Context) (base : Nat) (part : Option Expr) (last : Instruction)
    (after : Nat) : Prop :=
  match part with
  | none => after = base
  | some e => ∃ code, e.compile c false base = .ok code ∧ Lies program.at? base code ∧
      program.at? (base + code.length) = some last ∧ after = base + code.length + 1

/-- The code of what comes first in a loop. -/
def FirstCode (program : Program) (c : Context) (base : Nat) (first : Option Stmt) (after : Nat) :
    Prop :=
  match first with
  | none => after = base
  | some s => ∃ code, s.compile c base = .ok code ∧ Lies program.at? base code ∧
      program.at? (base + code.length) = some .pop ∧ after = base + code.length + 1

/-- The code of the rounds of a loop.  The loop ends behind `finish`, where each round ends. -/
structure RoundCode (program : Program) (c : Context) (test after : Option Expr) (body : List Stmt)
    (testStart next finish : Nat) : Prop where
  /-- The test and the body. -/
  round : ∃ bodyStart code, PartCode program c testStart test (.jumpUnless (finish + 1)) bodyStart ∧
    block c.asLoop bodyStart (declared body) (fun c base => compileBody c base body) = .ok code ∧
    Lies program.at? bodyStart code ∧ program.at? (bodyStart + code.length) = some .pop ∧
    next = bodyStart + code.length + 1
  /-- What follows each round. -/
  after : PartCode program c next after .pop finish
  /-- The next round starts with the test. -/
  jump : program.at? finish = some (.jump testStart)
  /-- The loop ends. -/
  marker : program.at? (finish + 1) = some (.loopEnd next)
  /-- Its scope is closed. -/
  exit : program.at? (finish + 2) = some .exitScope
  /-- Its value is `undefined`. -/
  value : program.at? (finish + 3) = some (.constant .undefined)

section Loops

variable {program : Program} {c : Context} {base after : Nat}

theorem PartCode.skips {part : Option Expr} {last : Instruction}
    (code : PartCode program c base part last after) (hlast : last.isPassed = true) :
    program.Skips base after := by
  cases part with
  | none =>
    obtain rfl : after = base := code
    exact .refl
  | some e =>
    obtain ⟨code, hcompile, hcode, hi, rfl⟩ := code
    exact (Expr.skips hcompile hcode).trans (Program.skips_passed hi hlast)

end Loops

end ChannelMachine.Source

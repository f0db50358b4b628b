import ChannelMachine.Proofs.Source.Plan

/-!
# Pieces of code that fit

`Fits` says that a piece of code can be planned wherever it stands, from a shape in front of it to
one behind it, in which loops its instructions are then, and that it is a segment of the program
there.  There is one lemma for each way in which
the compiler puts code together.
-/

namespace ChannelMachine.Source

/-- Code that can be planned where it stands, from a shape in front of it to one behind it, with
these loops around its instructions.  There is no shape behind code that is never left at its end.  If
it may leave a loop, there has to be one around. -/
structure Fits (inLoop : Bool) (base : Nat) (code : Code) (around : Enclosing) (σ : Shape)
    (after : Option Shape) : Prop where
  /-- The search for the end of a loop passes over it. -/
  skips : ∀ p : Program, Lies p.at? base code → p.Skips base (base + code.length)
  /-- It is a segment. -/
  segment : ∀ (p : Program) (loops : Nat → Option (Option Inside)), Lies p.at? base code →
    Lies loops base around → Segment p loops (σ.loop.map Inside.loop) base (base + code.length)
  /-- There are shapes for all its instructions. -/
  shapes : ∃ shapes : List Shape, shapes.length = code.length ∧ shapes.map Shape.loop = around ∧
    (shapes ++ after.toList).head? = some σ ∧
    ∀ (p : Program) (plan : Plan), Lies p.at? base code → Lies plan base (shapes ++ after.toList) →
      (inLoop = true → ∀ τ, after = some τ → ∃ i, LoopAround p plan (base + code.length) τ i) →
      Flows p plan base code shapes

/-- What stands at the front of a list in front of another one. -/
theorem head?_append_of_head? {α : Type} {first second : List α} {x y : α}
    (hfirst : (first ++ [y]).head? = some x) (hsecond : second.head? = some y) :
    (first ++ second).head? = some x := by
  cases first with
  | nil =>
    obtain rfl := Option.some.inj hfirst
    exact hsecond
  | cons => exact hfirst

namespace Fits

variable {inLoop : Bool} {base : Nat} {code first second : Code}
  {around around₁ around₂ : Enclosing} {σ ρ τ : Shape} {after : Option Shape} {i : Instruction}

/-- Code that leaves no loop may stand in one. -/
theorem mono {inLoop' : Bool} (fits : Fits inLoop base code around σ after)
    (h : inLoop = true → inLoop' = true) : Fits inLoop' base code around σ after := by
  obtain ⟨skips, segment, shapes, hlen, haround, hhead, flows⟩ := fits
  exact ⟨skips, segment, shapes, hlen, haround, hhead, fun p plan hcode hplan hloop =>
    flows p plan hcode hplan fun hin => hloop (h hin)⟩

/-- The end of code that is never reached may have any shape. -/
theorem orElse (fits : Fits false base code around σ none) (τ : Shape) :
    Fits false base code around σ (some τ) := by
  obtain ⟨skips, segment, shapes, hlen, haround, hhead, flows⟩ := fits
  simp only [Option.toList_none, List.append_nil] at hhead flows
  refine ⟨skips, segment, shapes, hlen, haround, ?_, fun p plan hcode hplan _ => ?_⟩
  · rw [List.head?_append, hhead]
    rfl
  · exact flows p plan hcode ((lies_append _ _ _).1 hplan).1 nofun

/-- No code. -/
theorem nil (base : Nat) (σ : Shape) : Fits inLoop base [] [] σ (some σ) :=
  ⟨fun _ _ => .refl, fun _ _ _ _ => .nil _ _, [], rfl, rfl, rfl, fun _ _ _ _ _ => trivial⟩

/-- One instruction that goes on. -/
theorem one (straight : i.isStraight = true)
    (follows : ∀ (p : Program) (plan : Plan) pc, plan (pc + 1) = some τ → Follows p plan pc σ i) :
    Fits inLoop base [i] [σ.loop] σ (some τ) := by
  have passed := Instruction.isPassed_of_isStraight straight
  refine ⟨fun p hcode => Program.skips_passed hcode.1 passed,
    fun p loops hcode _ => .straight hcode.1 straight, [σ], rfl, rfl, rfl, ?_⟩
  exact fun p plan _ hplan _ => ⟨follows p plan base hplan.2.1, trivial⟩

/-- One instruction that does not go on. -/
theorem last (straight : i.isStraight = true)
    (follows : ∀ (p : Program) (plan : Plan) pc, Follows p plan pc σ i) :
    Fits inLoop base [i] [σ.loop] σ none := by
  have passed := Instruction.isPassed_of_isStraight straight
  refine ⟨fun p hcode => Program.skips_passed hcode.1 passed,
    fun p loops hcode _ => .straight hcode.1 straight, [σ], rfl, rfl, rfl, ?_⟩
  exact fun p plan _ _ _ => ⟨follows p plan base, trivial⟩

/-- One instruction that replaces some operands by one. -/
theorem plain {n : Nat} (straight : i.isStraight = true) (takes : i.takes? = some n) (σ : Shape) :
    Fits inLoop base [i] [σ.loop] (σ.lift n) (some (σ.lift 1)) :=
  one straight fun _ _ _ next => .plain takes next

/-- One instruction that adds an operand. -/
theorem push (straight : i.isStraight = true) (takes : i.takes? = some 0) (σ : Shape) :
    Fits inLoop base [i] [σ.loop] σ (some (σ.lift 1)) :=
  one straight fun _ _ _ next => .push takes next

/-- Two pieces, one after the other, in the same loop.  Both ends have to be in the same scopes. -/
theorem append (hfirst : Fits inLoop base first around₁ σ (some ρ))
    (hsecond : Fits inLoop (base + first.length) second around₂ ρ after)
    (hsame : inLoop = true → ∃ τ, after = some τ ∧ τ.leave 0 = ρ.leave 0)
    (hinside : ρ.loop = σ.loop) :
    Fits inLoop base (first ++ second) (around₁ ++ around₂) σ after := by
  obtain ⟨skips, segment, shapes, hlen, rfl, hhead, flows⟩ := hfirst
  obtain ⟨skips', segment', later, hlen', rfl, hhead', flows'⟩ := hsecond
  refine ⟨fun p hcode => ?_, fun p loops hcode haround => ?_, shapes ++ later, ?_, List.map_append,
    ?_, fun p plan hcode hplan hloop => ?_⟩
  · obtain ⟨hcode, hcode'⟩ := (lies_append _ _ _).1 hcode
    rw [List.length_append, ← Nat.add_assoc]
    exact (skips p hcode).trans (skips' p hcode')
  · obtain ⟨hcode, hcode'⟩ := (lies_append _ _ _).1 hcode
    obtain ⟨haround, haround'⟩ := (lies_append _ _ _).1 haround
    rw [List.length_map, hlen] at haround'
    rw [List.length_append, ← Nat.add_assoc]
    exact (segment p loops hcode haround).append (hinside ▸ segment' p loops hcode' haround')
  · rw [List.length_append, List.length_append, hlen, hlen']
  · rw [List.append_assoc]
    exact head?_append_of_head? hhead hhead'
  · obtain ⟨hcode, hcode'⟩ := (lies_append _ _ _).1 hcode
    rw [List.append_assoc, lies_append, hlen] at hplan
    rw [List.length_append, ← Nat.add_assoc] at hloop
    refine (flows p plan hcode ?_ ?_).append (flows' p plan hcode' hplan.2 hloop)
    · exact (lies_append _ _ _).2 ⟨hplan.1, hlen ▸ hplan.2.head hhead', trivial⟩
    · rintro hin _ ⟨⟩
      obtain ⟨τ, hτ, heq⟩ := hsame hin
      obtain ⟨i, hi⟩ := hloop hin τ hτ
      exact ⟨i, (hi.congr heq).of_skips (skips' p hcode')⟩

/-- Code in front of an instruction. -/
theorem snoc (fits : Fits false base code around σ (some ρ))
    (hlast : Fits false (base + code.length) [i] around₂ ρ after) (hinside : ρ.loop = σ.loop) :
    Fits false base (code ++ [i]) (around ++ around₂) σ after :=
  fits.append hlast nofun hinside

/-- Code in tail position returns its value, which is the only operand. -/
theorem returning {tail : Bool} (fits : Fits false base code around σ (some (σ.lift 1)))
    (htail : tail = true → σ.height = 0 ∧ σ.level = .function) :
    Fits false base (returning tail code) (around ++ .replicate tail.toNat σ.loop) σ
      (if tail then none else some (σ.lift 1)) := by
  cases tail with
  | false => exact around.append_nil.symm ▸ fits
  | true =>
    obtain ⟨hheight, hlevel⟩ := htail rfl
    have hret : Fits false (base + code.length) [.ret] [σ.loop] (σ.lift 1) none :=
      last (σ := σ.lift 1) rfl fun _ _ _ => .ret (congrArg (· + 1) hheight) hlevel
    exact fits.snoc hret rfl

/-- A test and two branches that come to the same end. -/
theorem branches {test thenCode elseCode : Code}
    (htest : Fits false base test around σ (some (σ.lift 1)))
    (hthen : Fits inLoop (base + test.length + 1) thenCode around₁ σ (some (σ.lift 1)))
    (helse : Fits inLoop (base + test.length + 1 + thenCode.length + 1) elseCode around₂ σ
      (some (σ.lift 1))) :
    Fits inLoop base (branches base test thenCode elseCode)
      (around ++ σ.loop :: around₁ ++ σ.loop :: around₂) σ (some (σ.lift 1)) := by
  obtain ⟨skips, segment, shapes, hlen, rfl, hhead, flows⟩ := htest
  obtain ⟨skips₁, segment₁, shapes₁, hlen₁, rfl, hhead₁, flows₁⟩ := hthen
  obtain ⟨skips₂, segment₂, shapes₂, hlen₂, rfl, hhead₂, flows₂⟩ := helse
  have hend : base + (Source.branches base test thenCode elseCode).length =
      base + test.length + 1 + thenCode.length + 1 + elseCode.length := by
    rw [length_branches]
    omega
  simp only [Option.toList_some] at hhead hhead₁ hhead₂ flows flows₁ flows₂
  refine ⟨fun p hcode => ?_, fun p loops hcode haround => ?_,
    shapes ++ σ.lift 1 :: (shapes₁ ++ σ.lift 1 :: shapes₂), ?_, ?_, ?_,
    fun p plan hcode hplan hloop => ?_⟩
  · rw [hend]
    simp only [Source.branches, List.append_assoc, List.cons_append, lies_append,
      lies_cons] at hcode
    obtain ⟨htest, hjumpUnless, hthen, hjump, helse⟩ := hcode
    exact (((((skips p htest).trans (Program.skips_passed hjumpUnless rfl))).trans
      (skips₁ p hthen)).trans (Program.skips_passed hjump rfl)).trans (skips₂ p helse)
  · rw [hend]
    simp only [Source.branches, List.append_assoc, List.cons_append, lies_append, lies_cons,
      List.length_map, hlen, hlen₁] at hcode haround
    obtain ⟨htest, hjumpUnless, hthen, hjump, helse⟩ := hcode
    obtain ⟨atest, -, athen, -, aelse⟩ := haround
    exact (segment p loops htest atest).append
      (.branches hjumpUnless (segment₁ p loops hthen athen) hjump (segment₂ p loops helse aelse))
  · simp [Source.branches, hlen, hlen₁, hlen₂]
  · simp [Shape.loop_lift]
  · rw [List.append_assoc, List.cons_append]
    exact head?_append_of_head? hhead rfl
  · rw [hend] at hloop
    simp only [Source.branches, List.append_assoc, List.cons_append, Option.toList_some,
      lies_append, lies_cons, lies_nil, and_true, hlen, hlen₁,
      hlen₂] at hcode hplan flows flows₁ flows₂ ⊢
    obtain ⟨htest, hjumpUnless, hthen, hjump, helse⟩ := hcode
    obtain ⟨ptest, pjumpUnless, pthen, pjump, pelse, pend⟩ := hplan
    have hthen₀ := pthen.entry hlen₁ pjump hhead₁
    have helse₀ := pelse.entry hlen₂ pend hhead₂
    refine (flows p plan htest ⟨ptest, pjumpUnless⟩ fun h => absurd h Bool.false_ne_true).append
      ⟨.jumpUnless hthen₀ helse₀, ?_⟩
    refine (flows₁ p plan hthen ⟨pthen, pjump⟩ fun hin τ hτ => ?_).append ⟨.jump pend, ?_⟩
    · obtain ⟨i, hi⟩ := hloop hin τ hτ
      exact ⟨i, hi.of_skips ((Program.skips_passed hjump rfl).trans (skips₂ p helse))⟩
    · exact flows₂ p plan helse ⟨pelse, pend⟩ hloop

/-- A test and two branches that do not come to their end. -/
theorem tailBranches {test thenCode elseCode : Code}
    (htest : Fits false base test around σ (some (σ.lift 1)))
    (hthen : Fits false (base + test.length + 1) thenCode around₁ σ none)
    (helse : Fits false (base + test.length + 1 + thenCode.length) elseCode around₂ σ none) :
    Fits false base (tailBranches base test thenCode elseCode)
      (around ++ σ.loop :: around₁ ++ around₂) σ none := by
  obtain ⟨skips, segment, shapes, hlen, rfl, hhead, flows⟩ := htest
  obtain ⟨skips₁, segment₁, shapes₁, hlen₁, rfl, hhead₁, flows₁⟩ := hthen
  obtain ⟨skips₂, segment₂, shapes₂, hlen₂, rfl, hhead₂, flows₂⟩ := helse
  have hend : base + (Source.tailBranches base test thenCode elseCode).length =
      base + test.length + 1 + thenCode.length + elseCode.length := by
    rw [length_tailBranches]
    omega
  simp only [Option.toList_some, Option.toList_none, List.append_nil] at hhead hhead₁ hhead₂
  refine ⟨fun p hcode => ?_, fun p loops hcode haround => ?_,
    shapes ++ σ.lift 1 :: (shapes₁ ++ shapes₂), ?_, ?_, ?_, fun p plan hcode hplan hloop => ?_⟩
  · rw [hend]
    simp only [Source.tailBranches, List.append_assoc, List.cons_append, lies_append,
      lies_cons] at hcode
    obtain ⟨htest, hjumpUnless, hthen, helse⟩ := hcode
    exact (((skips p htest).trans (Program.skips_passed hjumpUnless rfl)).trans
      (skips₁ p hthen)).trans (skips₂ p helse)
  · rw [hend]
    simp only [Source.tailBranches, List.append_assoc, List.cons_append, lies_append, lies_cons,
      List.length_map, hlen, hlen₁] at hcode haround
    obtain ⟨htest, hjumpUnless, hthen, helse⟩ := hcode
    obtain ⟨atest, -, athen, aelse⟩ := haround
    exact (segment p loops htest atest).append
      ((Segment.skipped hjumpUnless (segment₁ p loops hthen athen)).append
        (segment₂ p loops helse aelse))
  · simp [Source.tailBranches, hlen, hlen₁, hlen₂]
  · simp [Shape.loop_lift]
  · rw [List.append_assoc, List.cons_append]
    exact head?_append_of_head? hhead rfl
  · simp only [Source.tailBranches, List.append_assoc, List.cons_append, Option.toList_some,
      Option.toList_none, List.append_nil, lies_append, lies_cons, lies_nil, and_true, hlen,
      hlen₁] at hcode hplan flows flows₁ flows₂ ⊢
    obtain ⟨htest, hjumpUnless, hthen, helse⟩ := hcode
    obtain ⟨ptest, pjumpUnless, pthen, pelse⟩ := hplan
    refine (flows p plan htest ⟨ptest, pjumpUnless⟩ fun h => absurd h Bool.false_ne_true).append
      ⟨.jumpUnless (pthen.head hhead₁) (pelse.head hhead₂), ?_⟩
    exact (flows₁ p plan hthen pthen fun h => absurd h Bool.false_ne_true).append
      (flows₂ p plan helse pelse fun h => absurd h Bool.false_ne_true)

/-- A scope around code. -/
theorem scope {slots : Nat} (hfits : σ.Fits slots)
    (hcode : Fits inLoop (base + 1) code around (σ.enter base slots)
      (some ((σ.enter base slots).lift 1))) :
    Fits inLoop base (.enterScope slots :: code ++ [.exitScope])
      (σ.loop :: around ++ [σ.loop.map .enter]) σ (some (σ.lift 1)) := by
  obtain ⟨skips, segment, shapes, hlen, rfl, hhead, flows⟩ := hcode
  have hend : base + (.enterScope slots :: code ++ [.exitScope] : Code).length =
      base + 1 + code.length + 1 := by
    simp only [List.length_append, List.length_cons, List.length_nil]
    omega
  simp only [Option.toList_some] at hhead
  have hinside : (σ.enter base slots).loop.map Inside.loop = σ.loop.map Inside.loop := by
    cases h : σ.loop <;> simp [Shape.enter, h, Inside.enter]
  refine ⟨fun p hcode => ?_, fun p loops hcode haround => ?_,
    σ :: (shapes ++ [(σ.enter base slots).lift 1]), ?_, ?_, rfl,
    fun p plan hcode hplan hloop => ?_⟩
  · rw [hend]
    simp only [List.cons_append, lies_append, lies_cons] at hcode
    obtain ⟨henter, hcode, hexit, -⟩ := hcode
    exact fun depth closed => ((Program.passes_enterScope henter).trans
      (skips p hcode _ _)).trans (Program.passes_exitScope hexit)
  · rw [hend]
    simp only [List.cons_append, lies_append, lies_cons] at hcode haround
    obtain ⟨henter, hcode, hexit, -⟩ := hcode
    exact .scope henter (hinside ▸ segment p loops hcode haround.2.1) hexit
  · simp [hlen]
  · simp [Shape.loop_lift, Shape.enter]
  · rw [hend] at hloop
    simp only [List.cons_append, List.append_assoc, Option.toList_some, lies_append, lies_cons,
      lies_nil, and_true, List.nil_append, hlen] at hcode hplan flows ⊢
    obtain ⟨henter, hcode, hexit⟩ := hcode
    obtain ⟨penter, pcode, pexit, pend⟩ := hplan
    refine ⟨.enterScope hfits (σ.opens_enter ..) (pcode.entry hlen pexit hhead), ?_⟩
    refine (flows p plan hcode ⟨pcode, pexit⟩ fun hin τ hτ => ?_).append
      ⟨.exitScope ((σ.lift 1).opens_enter ..) pend, trivial⟩
    obtain rfl := Option.some.inj hτ
    obtain ⟨i, hi⟩ := hloop hin _ rfl
    exact ⟨i.enter, hi.enter hexit⟩

/-- A function, whose code stands behind a jump over it. -/
theorem function {arity : Nat} (hfits : σ.Fits arity)
    (hcode : Fits false (base + 2) code around (σ.entry arity) (some ((σ.entry arity).lift 1))) :
    Fits inLoop base (.closure arity (base + 2) :: .jump (base + 2 + code.length + 3) :: code
      ++ [.pop, .constant .undefined, .ret]) (σ.loop :: σ.loop :: around ++ [none, none, none]) σ
      (some (σ.lift 1)) := by
  obtain ⟨skips, segment, shapes, hlen, rfl, hhead, flows⟩ := hcode
  have hend : base + (.closure arity (base + 2) :: .jump (base + 2 + code.length + 3) :: code
      ++ [.pop, .constant .undefined, .ret] : Code).length = base + 2 + code.length + 3 := by
    simp only [List.length_append, List.length_cons, List.length_nil]
    omega
  simp only [Option.toList_some] at hhead
  refine ⟨fun p hcode => ?_, fun p loops hcode haround => ?_,
    σ :: σ.lift 1 :: (shapes ++ [(σ.entry arity).lift 1, σ.entry arity, (σ.entry arity).lift 1]),
    ?_, ?_, rfl, fun p plan hcode hplan hloop => ?_⟩
  · rw [hend]
    exact Program.skips_closure hcode.1 hcode.2.1 (by omega)
  · rw [hend]
    simp only [List.cons_append, lies_append, lies_cons] at hcode haround
    obtain ⟨hclosure, hjump, hcode, hpop, hundefined, hret, -⟩ := hcode
    have body := segment p loops hcode haround.2.2.1
    exact .function hclosure hjump ((body.append (.straight hpop rfl)).append
      (.straight hundefined rfl)) hret
  · simp [hlen]
  · simp [Shape.loop_lift, Shape.entry]
  · simp only [List.cons_append, List.append_assoc, Option.toList_some, lies_append, lies_cons,
      lies_nil, and_true, List.nil_append, hlen] at hcode hplan flows ⊢
    obtain ⟨hclosure, hjump, hcode, -⟩ := hcode
    obtain ⟨pclosure, pjump, pcode, ppop, pundefined, pret, pend⟩ := hplan
    refine ⟨.closure hfits pjump (pcode.entry hlen ppop hhead), .jump pend, ?_⟩
    refine (flows p plan hcode ⟨pcode, ppop⟩ fun h => absurd h Bool.false_ne_true).append
      ⟨.pop pundefined, .push rfl pret, ?_⟩
    exact ⟨.ret rfl rfl, trivial⟩

/-- A function and its arguments move to a new thread. -/
theorem spawn (n : Nat) (σ : Shape) :
    Fits inLoop base [.spawn n, .call n, .endThread] [σ.loop, none, none] (σ.lift (n + 1))
      (some (σ.lift 1)) := by
  refine ⟨fun p hcode => ?_, fun p loops hcode _ => .spawn hcode.1 hcode.2.1 hcode.2.2.1,
    [σ.lift (n + 1), (σ.spawned base).lift (n + 1), (σ.ending base).lift 1], rfl, rfl, rfl,
    fun p plan hcode hplan _ => ?_⟩
  · obtain ⟨hspawn, hcall, hend, -⟩ := hcode
    exact ((Program.skips_passed hspawn rfl).trans (Program.skips_passed hcall rfl)).trans
      (Program.skips_passed hend rfl)
  · obtain ⟨-, pcall, pend, pafter, -⟩ := hplan
    exact ⟨.spawn hcode.2.1 hcode.2.2.1 pcall pend pafter, .firstCall rfl pend, .endThread rfl rfl,
      trivial⟩

/-! ## Loops -/

/-- A loop is left. -/
theorem breakLoop (hheight : σ.height = 0) :
    Fits true base [.breakLoop] [σ.loop] σ (some (σ.lift 1)) := by
  refine ⟨fun p hcode => Program.skips_passed hcode.1 rfl,
    fun p loops hcode haround => .breakLoop hcode.1 (by rw [haround.1]; rfl), [σ], rfl, rfl, rfl,
    fun p plan _ _ hloop => ?_⟩
  obtain ⟨i, hi⟩ := hloop rfl _ rfl
  exact ⟨.breakLoop hheight hi.inside hi.finds hi.opened hi.leaves, trivial⟩

/-- A loop goes on with its next round. -/
theorem continueLoop (hheight : σ.height = 0) :
    Fits true base [.continueLoop] [σ.loop] σ (some (σ.lift 1)) := by
  refine ⟨fun p hcode => Program.skips_passed hcode.1 rfl,
    fun p loops hcode haround => .continueLoop hcode.1 (by rw [haround.1]; rfl), [σ], rfl, rfl, rfl,
    fun p plan _ _ hloop => ?_⟩
  obtain ⟨i, hi⟩ := hloop rfl _ rfl
  exact ⟨.continueLoop hheight hi.inside hi.finds hi.opened hi.goesOn, trivial⟩

/-- The test of a loop with its jump to the end of the loop. -/
def testCode (test : Option Code) (marker : Nat) : Code :=
  match test with
  | some test => test ++ [.jumpUnless marker]
  | none => []

theorem length_testCode (test : Option Code) (marker : Nat) :
    (testCode test marker).length = testLength test := by
  cases test with
  | some test => simp [testCode, testLength]
  | none => rfl

theorem loop_eq (base slots : Nat) (first : Code) (test : Option Code) (body after : Code) :
    Source.loop base slots first test body after =
      let place := LoopPlace.of base first.length (testLength test) body.length after.length
      .enterScope slots :: (first ++ (testCode test place.marker ++ (body ++ .pop :: (after ++
        [.jump (base + 1 + first.length), .loopEnd place.next, .exitScope,
          .constant .undefined])))) := by
  cases test <;> simp [Source.loop, testCode, LoopPlace.of]

/-- The test of a loop fits, if there is one. -/
def TestFits (base : Nat) (test : Option Code) (around : Enclosing) (σ : Shape) : Prop :=
  match test with
  | some test => ∃ inner, Fits false base test inner σ (some (σ.lift 1)) ∧
      around = inner ++ [σ.loop]
  | none => around = []

/-- A test can be planned if the end of the loop is. -/
theorem test {test : Option Code} (htest : TestFits base test around σ) (marker : Nat) :
    (∀ p : Program, Lies p.at? base (testCode test marker) →
      p.Skips base (base + testLength test)) ∧
    (∀ (p : Program) (loops : Nat → Option (Option Inside)) (place : LoopPlace),
      σ.loop.map Inside.loop = some place → place.marker = marker →
      Lies p.at? base (testCode test marker) → Lies loops base around →
      Segment p loops (some place) base (base + testLength test)) ∧
    ∃ shapes : List Shape, shapes.length = testLength test ∧ shapes.map Shape.loop = around ∧
      (shapes ++ [σ]).head? = some σ ∧
      ∀ (p : Program) (plan : Plan), Lies p.at? base (testCode test marker) →
        Lies plan base (shapes ++ [σ]) → plan marker = some σ →
        Flows p plan base (testCode test marker) shapes := by
  cases test with
  | none =>
    exact ⟨fun _ _ => .refl, fun _ _ _ _ _ _ _ => .nil _ _, [], rfl, htest.symm, rfl,
      fun _ _ _ _ _ => trivial⟩
  | some t =>
    obtain ⟨inner, ⟨skips, segment, shapes, hlen, rfl, hhead, flows⟩, rfl⟩ := htest
    simp only [Option.toList_some] at hhead
    simp only [testCode, testLength, lies_append, lies_cons, lies_nil, and_true]
    refine ⟨fun p hcode => (skips p hcode.1).trans (Program.skips_passed hcode.2 rfl),
      fun p loops place hplace hmarker hcode haround => ?_, shapes ++ [σ.lift 1], ?_, ?_, ?_,
      fun p plan hcode hplan hmarker => ?_⟩
    · exact (hplace ▸ segment p loops hcode.1 haround.1).append (.test (hmarker.symm ▸ hcode.2))
    · simp [hlen]
    · simp [Shape.loop_lift]
    · rw [List.append_assoc]
      exact head?_append_of_head? hhead rfl
    · simp only [List.length_append, List.length_cons, List.length_nil, hlen] at hplan
      exact (flows p plan hcode.1 hplan.1 fun h => absurd h Bool.false_ne_true).append
        ⟨.jumpUnless hplan.2 hmarker, trivial⟩

/-- A loop around its parts.  What comes first and the body may leave it. -/
theorem loop {slots : Nat} {first body after : Code} {test : Option Code} {place : LoopPlace}
    {around₃ : Enclosing}
    (hplace : place = .of base first.length (testLength test) body.length after.length)
    (hfits : σ.Fits slots)
    (hfirst : Fits true (base + 1) first around (σ.enterLoop place slots)
      (some (σ.enterLoop place slots)))
    (htest : TestFits (base + 1 + first.length) test around₁ (σ.enterLoop place slots))
    (hbody : Fits true (base + 1 + first.length + testLength test) body around₂
      (σ.enterLoop place slots) (some ((σ.enterLoop place slots).lift 1)))
    (hafter : Fits false (base + 1 + first.length + testLength test + body.length + 1) after around₃
      (σ.enterLoop place slots) (some (σ.enterLoop place slots)))
    (hheight : σ.height = 0) :
    Fits inLoop base (Source.loop base slots first test body after)
      (σ.loop :: around ++ around₁ ++ around₂ ++ some ⟨place, 0⟩ :: around₃
        ++ [some ⟨place, 0⟩, some ⟨place, 0⟩, some ⟨place, 0⟩, σ.loop]) σ (some (σ.lift 1)) := by
  obtain ⟨skips, segment, shapes, hlen, rfl, hhead, flows⟩ := hfirst
  obtain ⟨skips₁, segment₁, shapes₁, hlen₁, rfl, hhead₁, flows₁⟩ := Fits.test htest place.marker
  obtain ⟨skips₂, segment₂, shapes₂, hlen₂, rfl, hhead₂, flows₂⟩ := hbody
  obtain ⟨skips₃, segment₃, shapes₃, hlen₃, rfl, hhead₃, flows₃⟩ := hafter
  simp only [Option.toList_some] at hhead hhead₂ hhead₃
  have hend : base + (Source.loop base slots first test body after).length =
      base + 1 + first.length + testLength test + body.length + 1 + after.length + 1 + 1 + 1 + 1 := by
    rw [length_loop]
    omega
  have hstart : place.start = base := congrArg LoopPlace.start hplace
  have hnext : place.next = base + 1 + first.length + testLength test + body.length + 1 :=
    congrArg LoopPlace.next hplace
  have hmarkerAt : place.marker =
      base + 1 + first.length + testLength test + body.length + 1 + after.length + 1 :=
    congrArg LoopPlace.marker hplace
  have hopens : σ.Opens base slots (σ.enterLoop place slots) := hstart ▸ σ.opens_enterLoop place slots
  have hzero : (σ.enterLoop place slots).leave 0 = σ.enterLoop place slots := Shape.leave_zero hheight
  have hloop : (σ.enterLoop place slots).loop = some ⟨place, 0⟩ := rfl
  have hopened : (σ.enterLoop place slots).opened[0]? = some place.start := rfl
  generalize σ.enterLoop place slots = ι at *
  refine ⟨fun p hcode => ?_, fun p loops hcode haround => ?_,
    σ :: (shapes ++ (shapes₁ ++ (shapes₂ ++ ι.lift 1 :: (shapes₃ ++ [ι, ι, ι, σ])))), ?_, ?_, rfl,
    fun p plan hcode hplan _ => ?_⟩
  · rw [hend]
    simp only [loop_eq, ← hplace, lies_append, lies_cons, lies_nil, and_true,
      length_testCode] at hcode
    obtain ⟨henter, hfirst, htest, hbody, hpop, hafter, hjump, hloopEnd, hexit, hconstant⟩ := hcode
    have hround := ((((skips p hfirst).trans (skips₁ p htest)).trans (skips₂ p hbody)).trans
      (Program.skips_passed hpop rfl)).trans ((skips₃ p hafter).trans
      (Program.skips_passed hjump rfl))
    exact fun depth closed => ((((Program.passes_enterScope henter).trans (hround _ _)).trans
      (Program.passes_loopEnd hloopEnd)).trans (Program.passes_exitScope hexit)).trans
      (Program.skips_passed hconstant rfl _ _)
  · rw [hend]
    simp only [loop_eq, ← hplace, lies_append, lies_cons, lies_nil, and_true,
      length_testCode] at hcode
    simp only [List.append_assoc, List.cons_append, lies_append, lies_cons, List.length_map,
      hlen, hlen₁, hlen₂, hlen₃] at haround
    obtain ⟨henter, hfirst, htest, hbody, hpop, hafter, hjump, hloopEnd, hexit, hconstant⟩ := hcode
    obtain ⟨-, afirst, atest, abody, -, aafter, -, amarker, -⟩ := haround
    have hι : ι.loop.map Inside.loop = some place := by rw [hloop]; rfl
    have first' := hι ▸ segment p loops hfirst afirst
    have test' := segment₁ p loops place hι rfl htest atest
    have body' := hι ▸ segment₂ p loops hbody abody
    have after' := hι ▸ segment₃ p loops hafter aafter
    have hplace' : place = ⟨base, base + 1 + first.length + testLength test + body.length + 1,
        base + 1 + first.length + testLength test + body.length + 1 + after.length + 1⟩ := hplace
    subst hplace'
    have round' := (test'.append body').append (.straight hpop rfl)
    exact (Segment.loop henter first' round' after' hjump hloopEnd amarker hexit).append
      (.straight hconstant rfl)
  · simp [loop_eq, length_testCode, hlen, hlen₁, hlen₂, hlen₃]
  · simp [Shape.loop_lift, hloop]
  · simp only [loop_eq, ← hplace, List.append_assoc, List.cons_append, Option.toList_some,
      lies_append, lies_cons, lies_nil, and_true, List.nil_append, length_testCode, hlen, hlen₁,
      hlen₂, hlen₃] at hcode hplan flows flows₁ flows₂ flows₃ ⊢
    obtain ⟨henter, hfirst, htest, hbody, hpop, hafter, hjump, hloopEnd, hexit, -⟩ := hcode
    obtain ⟨penter, pfirst, ptest, pbody, ppop, pafter, pjump, ploopEnd, pexit, pconstant, pend⟩ :=
      hplan
    have hafter₀ := pafter.entry hlen₃ pjump hhead₃
    have hbody₀ := pbody.entry hlen₂ ppop hhead₂
    have htest₀ := ptest.entry hlen₁ hbody₀ hhead₁
    -- The end of the loop, as it is found from the end of the body and of what comes first.
    have hmarker : LoopAround p plan place.marker ι ⟨place, 0⟩ :=
      ⟨hloop, ⟨slots, hstart ▸ henter⟩, fun _ => .refl, hmarkerAt ▸ hloopEnd, hopened, by rw [hmarkerAt, hzero]; exact pexit,
        by rw [hnext, hzero]; exact hafter₀⟩
    rw [hmarkerAt] at hmarker flows₁
    have haround := hmarker.of_skips (((Program.skips_passed hpop rfl).trans (skips₃ p hafter)).trans
      (Program.skips_passed hjump rfl))
    have hfirst' := haround.of_skips ((skips₁ p htest).trans (skips₂ p hbody))
    refine ⟨.enterScope hfits hopens (pfirst.entry hlen htest₀ hhead), ?_⟩
    refine (flows p plan hfirst ⟨pfirst, htest₀⟩ ?_).append ?_
    · rintro - _ ⟨⟩
      exact ⟨_, hfirst'⟩
    rw [hmarkerAt] at htest ⊢
    refine (flows₁ p plan htest ⟨ptest, hbody₀⟩ ploopEnd).append ?_
    rw [length_testCode]
    refine (flows₂ p plan hbody ⟨pbody, ppop⟩ ?_).append ⟨.pop hafter₀, ?_⟩
    · rintro - _ ⟨⟩
      exact ⟨_, LoopAround.congr (σ := ι.lift 1) (τ := ι) rfl haround⟩
    refine (flows₃ p plan hafter ⟨pafter, pjump⟩ fun h => absurd h Bool.false_ne_true).append ?_
    exact ⟨.jump htest₀, .loopEnd pexit, .exitScope hopens pconstant, .push rfl pend, trivial⟩

end Fits

end ChannelMachine.Source

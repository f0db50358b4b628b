import ChannelMachine.Proofs.Source.Fitting
import ChannelMachine.Proofs.Source.Rooms

/-!
# Pieces of code that can be laid out

`Lays` says that a piece of code leads from one site to another wherever it stands.  There is one lemma
for each way in which the compiler puts code together.
-/

namespace ChannelMachine.Source

/-- Code that leads from a site in front of it to one behind it, with these loops around its
instructions.  If it may leave a loop, there has to be one around. -/
def Lays (table : List Declaration) (inLoop : Bool) (base : Nat) (code : Code) (around : Enclosing)
    (φ ψ : Site) : Prop :=
  ∃ sites : List Site, sites.length = code.length ∧ sites.map Site.loop = around ∧
    (sites ++ [ψ]).head? = some φ ∧
    ∀ layout : Layout, Lies layout base (sites ++ [ψ]) → (inLoop = true → ψ.Leaves layout) →
      Leading layout table base code sites

namespace Lays

variable {table : List Declaration} {inLoop : Bool} {base : Nat} {code first second : Code}
  {around around₁ around₂ around₃ : Enclosing} {φ χ ψ : Site} {i : Instruction}

/-- Code that leaves no loop may stand in one. -/
theorem mono {inLoop' : Bool} (lays : Lays table inLoop base code around φ ψ)
    (h : inLoop = true → inLoop' = true) : Lays table inLoop' base code around φ ψ := by
  obtain ⟨sites, hlen, haround, hhead, leading⟩ := lays
  exact ⟨sites, hlen, haround, hhead, fun layout hlayout hleaves =>
    leading layout hlayout fun hin => hleaves (h hin)⟩

/-- No code. -/
theorem nil (base : Nat) (φ : Site) : Lays table inLoop base [] [] φ φ :=
  ⟨[], rfl, rfl, rfl, fun _ _ _ => trivial⟩

/-- One instruction. -/
theorem one (leads : ∀ layout : Layout, layout (base + 1) = some ψ → Leads layout table base φ i) :
    Lays table inLoop base [i] [φ.loop] φ ψ :=
  ⟨[φ], rfl, rfl, rfl, fun layout hlayout _ => ⟨leads layout hlayout.2.1, trivial⟩⟩

/-- One instruction that goes on in the same rooms. -/
theorem simple (hi : i.isSimple = true) (φ : Site) : Lays table inLoop base [i] [φ.loop] φ φ :=
  one fun _ next => .simple hi next

/-- One instruction that does not go on. -/
theorem last (hi : i.isLast = true) (φ ψ : Site) : Lays table inLoop base [i] [φ.loop] φ ψ :=
  one fun _ _ => .last hi

/-- Two pieces, one after the other. -/
theorem append (hfirst : Lays table inLoop base first around₁ φ χ)
    (hsecond : Lays table inLoop (base + first.length) second around₂ χ ψ)
    (ahead : inLoop = true → χ.Ahead ψ) :
    Lays table inLoop base (first ++ second) (around₁ ++ around₂) φ ψ := by
  obtain ⟨sites, hlen, rfl, hhead, leading⟩ := hfirst
  obtain ⟨later, hlen', rfl, hhead', leading'⟩ := hsecond
  refine ⟨sites ++ later, ?_, List.map_append, ?_, fun layout hlayout hleaves => ?_⟩
  · rw [List.length_append, List.length_append, hlen, hlen']
  · rw [List.append_assoc]
    exact head?_append_of_head? hhead hhead'
  · rw [List.append_assoc, lies_append, hlen] at hlayout
    refine (leading layout ?_ fun hin => (hleaves hin).of_ahead (ahead hin)).append
      (leading' layout hlayout.2 hleaves)
    exact (lies_append _ _ _).2 ⟨hlayout.1, hlen ▸ hlayout.2.head hhead', trivial⟩

/-- Code in front of an instruction. -/
theorem snoc (lays : Lays table false base code around φ χ)
    (hlast : Lays table false (base + code.length) [i] around₂ χ ψ) :
    Lays table false base (code ++ [i]) (around ++ around₂) φ ψ :=
  lays.append hlast (absurd · Bool.false_ne_true)

/-- Code in tail position returns its value. -/
theorem returning (lays : Lays table false base code around φ φ) (tail : Bool) :
    Lays table false base (returning tail code) (around ++ .replicate tail.toNat φ.loop) φ φ := by
  cases tail with
  | false => exact around.append_nil.symm ▸ lays
  | true => exact lays.snoc (.last rfl φ φ)

/-- A test and two branches that come to the same end. -/
theorem branches {test thenCode elseCode : Code} (htest : Lays table false base test around φ φ)
    (hthen : Lays table inLoop (base + test.length + 1) thenCode around₁ φ φ)
    (helse : Lays table inLoop (base + test.length + 1 + thenCode.length + 1) elseCode around₂ φ φ) :
    Lays table inLoop base (branches base test thenCode elseCode)
      (around ++ φ.loop :: around₁ ++ φ.loop :: around₂) φ φ := by
  obtain ⟨sites, hlen, rfl, hhead, leading⟩ := htest
  obtain ⟨sites₁, hlen₁, rfl, hhead₁, leading₁⟩ := hthen
  obtain ⟨sites₂, hlen₂, rfl, hhead₂, leading₂⟩ := helse
  refine ⟨sites ++ φ :: (sites₁ ++ φ :: sites₂), ?_, ?_, ?_, fun layout hlayout hleaves => ?_⟩
  · simp [Source.branches, hlen, hlen₁, hlen₂]
  · simp
  · rw [List.append_assoc, List.cons_append]
    exact head?_append_of_head? hhead rfl
  · simp only [Source.branches, List.append_assoc, List.cons_append, lies_append, lies_cons,
      lies_nil, and_true, hlen, hlen₁, hlen₂] at hlayout leading leading₁ leading₂ ⊢
    obtain ⟨ltest, ljumpUnless, lthen, ljump, lelse, lend⟩ := hlayout
    have hthen₀ := lthen.entry hlen₁ ljump hhead₁
    have helse₀ := lelse.entry hlen₂ lend hhead₂
    refine (leading layout ⟨ltest, ljumpUnless⟩ (absurd · Bool.false_ne_true)).append ⟨.jumpUnless hthen₀ helse₀, ?_⟩
    exact (leading₁ layout ⟨lthen, ljump⟩ hleaves).append
      ⟨.jump lend, leading₂ layout ⟨lelse, lend⟩ hleaves⟩

/-- A test and two branches that do not come to their end. -/
theorem tailBranches {test thenCode elseCode : Code}
    (htest : Lays table false base test around φ φ)
    (hthen : Lays table false (base + test.length + 1) thenCode around₁ φ φ)
    (helse : Lays table false (base + test.length + 1 + thenCode.length) elseCode around₂ φ φ) :
    Lays table false base (tailBranches base test thenCode elseCode)
      (around ++ φ.loop :: around₁ ++ around₂) φ φ := by
  obtain ⟨sites, hlen, rfl, hhead, leading⟩ := htest
  obtain ⟨sites₁, hlen₁, rfl, hhead₁, leading₁⟩ := hthen
  obtain ⟨sites₂, hlen₂, rfl, hhead₂, leading₂⟩ := helse
  refine ⟨sites ++ φ :: (sites₁ ++ sites₂), ?_, ?_, ?_, fun layout hlayout hleaves => ?_⟩
  · simp [Source.tailBranches, hlen, hlen₁, hlen₂]
  · simp
  · rw [List.append_assoc, List.cons_append]
    exact head?_append_of_head? hhead rfl
  · simp only [Source.tailBranches, List.append_assoc, List.cons_append, lies_append, lies_cons,
      lies_nil, and_true, hlen, hlen₁, hlen₂] at hlayout leading leading₁ leading₂ ⊢
    obtain ⟨ltest, ljumpUnless, lthen, lelse, lend⟩ := hlayout
    have helse₀ := lelse.entry hlen₂ lend hhead₂
    have hthen₀ := lthen.entry hlen₁ helse₀ hhead₁
    refine (leading layout ⟨ltest, ljumpUnless⟩ (absurd · Bool.false_ne_true)).append
      ⟨.jumpUnless hthen₀ helse₀, ?_⟩
    exact (leading₁ layout ⟨lthen, helse₀⟩ (absurd · Bool.false_ne_true)).append
      (leading₂ layout ⟨lelse, lend⟩ (absurd · Bool.false_ne_true))

/-- A scope around code that declares its names. -/
theorem scope {names : Scope} {n : Nat} (listed : Lists table base names)
    (hcode : Lays table inLoop (base + 1) code around (φ.enter base names)
      ((φ.enter base names).advance n)) :
    Lays table inLoop base (.enterScope names.length :: code ++ [.exitScope])
      (φ.loop :: around ++ [φ.loop.map .enter]) φ φ := by
  obtain ⟨sites, hlen, rfl, hhead, leading⟩ := hcode
  refine ⟨φ :: (sites ++ [(φ.enter base names).advance n]), ?_, ?_, rfl,
    fun layout hlayout hleaves => ?_⟩
  · simp [hlen]
  · simp [Site.loop_advance, Site.enter]
  · simp only [List.cons_append, List.append_assoc, lies_append, lies_cons, lies_nil, and_true,
      List.nil_append, hlen] at hlayout leading ⊢
    obtain ⟨lenter, lcode, lexit, lend⟩ := hlayout
    refine ⟨.enterScope listed (lcode.entry hlen lexit hhead), ?_⟩
    exact (leading layout ⟨lcode, lexit⟩ fun hin => (hleaves hin).enter base names n).append
      ⟨.exitScope lend, trivial⟩

/-- A function, whose code stands behind a jump over it. -/
theorem function {names : Scope} (hplain : ∀ name ∈ names, name.2 = .variable)
    (hcode : Lays table false (base + 2) code around (φ.entry names)
      (φ.entry names)) :
    Lays table inLoop base (.closure names.length (base + 2) ::
      .jump (base + 2 + code.length + 3) :: code ++ [.pop, .constant .undefined, .ret])
      (φ.loop :: φ.loop :: around ++ [none, none, none]) φ φ := by
  obtain ⟨sites, hlen, rfl, hhead, leading⟩ := hcode
  refine ⟨φ :: φ :: (sites ++ [φ.entry names, φ.entry names, φ.entry names]), ?_, ?_, rfl,
    fun layout hlayout _ => ?_⟩
  · simp [hlen]
  · simp [Site.entry]
  · simp only [List.cons_append, List.append_assoc, lies_append, lies_cons, lies_nil, and_true,
      List.nil_append, hlen] at hlayout leading ⊢
    obtain ⟨lclosure, ljump, lcode, lpop, lundefined, lret, lend⟩ := hlayout
    refine ⟨.closure hplain ljump (lcode.entry hlen lpop hhead), .jump lend, ?_⟩
    exact (leading layout ⟨lcode, lpop⟩ (absurd · Bool.false_ne_true)).append
      ⟨.simple rfl lundefined, .simple rfl lret, .last rfl, trivial⟩

/-- A function and its arguments move to a new thread. -/
theorem spawn (n : Nat) (φ : Site) :
    Lays table inLoop base [.spawn n, .call n, .endThread] [φ.loop, none, none] φ φ := by
  refine ⟨[φ, φ.spawned, φ.spawned], rfl, rfl, rfl, fun layout hlayout _ => ?_⟩
  obtain ⟨-, lcall, lend, lafter, -⟩ := hlayout
  exact ⟨.spawn lcall lafter, .simple rfl lend, .last rfl, trivial⟩

/-! ## Loops -/

/-- A loop is left. -/
theorem breakLoop (φ : Site) : Lays table true base [.breakLoop] [φ.loop] φ φ := by
  refine ⟨[φ], rfl, rfl, rfl, fun layout _ hleaves => ?_⟩
  obtain ⟨i, ψ, -, hloop, hmarker, -, hψ, -⟩ := hleaves rfl
  exact ⟨.breakLoop hloop hmarker hψ, trivial⟩

/-- A loop goes on with its next round. -/
theorem continueLoop (φ : Site) : Lays table true base [.continueLoop] [φ.loop] φ φ := by
  refine ⟨[φ], rfl, rfl, rfl, fun layout _ hleaves => ?_⟩
  obtain ⟨i, -, χ, hloop, -, hnext, -, hχ⟩ := hleaves rfl
  exact ⟨.continueLoop hloop hnext hχ, trivial⟩

/-- The test of a loop leads to the body, if there is one. -/
def TestLays (table : List Declaration) (base : Nat) (test : Option Code) (around : Enclosing)
    (φ : Site) : Prop :=
  match test with
  | some test => ∃ inner, Lays table false base test inner φ φ ∧ around = inner ++ [φ.loop]
  | none => around = []

/-- A test can be laid out if the end of the loop is. -/
theorem test {test : Option Code} (htest : TestLays table base test around φ) (marker : Nat) :
    ∃ sites : List Site, sites.length = testLength test ∧ sites.map Site.loop = around ∧
      (sites ++ [φ]).head? = some φ ∧
      ∀ layout : Layout, Lies layout base (sites ++ [φ]) → layout marker = some φ →
        Leading layout table base (Fits.testCode test marker) sites := by
  cases test with
  | none => exact ⟨[], rfl, htest.symm, rfl, fun _ _ _ => trivial⟩
  | some t =>
    obtain ⟨inner, ⟨sites, hlen, rfl, hhead, leading⟩, rfl⟩ := htest
    refine ⟨sites ++ [φ], ?_, ?_, ?_, fun layout hlayout hmarker => ?_⟩
    · simp [hlen, testLength]
    · simp
    · rw [List.append_assoc]
      exact head?_append_of_head? hhead rfl
    · simp only [List.append_assoc, List.cons_append, List.nil_append, lies_append, lies_cons,
        lies_nil, and_true, hlen] at hlayout leading
      obtain ⟨lcode, ljumpUnless, lend⟩ := hlayout
      exact (leading layout ⟨lcode, ljumpUnless⟩ (absurd · Bool.false_ne_true)).append ⟨.jumpUnless lend hmarker, trivial⟩

/-- A loop around its parts.  What comes first may declare a name, and it may leave the loop, as the
body may. -/
theorem loop {names : Scope} {n : Nat} {body after : Code} {test : Option Code} {place : LoopPlace}
    (hplace : place = .of base first.length (testLength test) body.length after.length)
    (listed : Lists table base names)
    (hfirst : Lays table true (base + 1) first around (φ.enterLoop place names)
      ((φ.enterLoop place names).advance n))
    (htest : TestLays table (base + 1 + first.length) test around₁
      ((φ.enterLoop place names).advance n))
    (hbody : Lays table true (base + 1 + first.length + testLength test) body around₂
      ((φ.enterLoop place names).advance n) ((φ.enterLoop place names).advance n))
    (hafter : Lays table false (base + 1 + first.length + testLength test + body.length + 1) after
      around₃ ((φ.enterLoop place names).advance n) ((φ.enterLoop place names).advance n)) :
    Lays table inLoop base (Source.loop base names.length first test body after)
      (φ.loop :: around ++ around₁ ++ around₂ ++ some ⟨place, 0⟩ :: around₃
        ++ [some ⟨place, 0⟩, some ⟨place, 0⟩, some ⟨place, 0⟩, φ.loop]) φ φ := by
  obtain ⟨sites, hlen, rfl, hhead, leading⟩ := hfirst
  obtain ⟨sites₁, hlen₁, rfl, hhead₁, leading₁⟩ := Lays.test htest place.marker
  obtain ⟨sites₂, hlen₂, rfl, hhead₂, leading₂⟩ := hbody
  obtain ⟨sites₃, hlen₃, rfl, hhead₃, leading₃⟩ := hafter
  have hstart : place.start = base := congrArg LoopPlace.start hplace
  have hnext : place.next = base + 1 + first.length + testLength test + body.length + 1 :=
    congrArg LoopPlace.next hplace
  have hmarkerAt : place.marker =
      base + 1 + first.length + testLength test + body.length + 1 + after.length + 1 :=
    congrArg LoopPlace.marker hplace
  obtain ⟨ι, hι⟩ : ∃ ι, ι = (φ.enterLoop place names).advance n := ⟨_, rfl⟩
  obtain ⟨room, hroom⟩ : ∃ room, ι = ⟨room :: φ.rooms, some ⟨place, 0⟩⟩ := ⟨_, hι⟩
  have hloop : ι.loop = some ⟨place, 0⟩ := congrArg Site.loop hroom
  rw [← hι] at hhead hhead₁ hhead₂ hhead₃ leading leading₁ leading₂ leading₃
  refine ⟨φ :: (sites ++ (sites₁ ++ (sites₂ ++ ι :: (sites₃ ++ [ι, ι, ι, φ])))), ?_, ?_, rfl,
    fun layout hlayout _ => ?_⟩
  · simp [Fits.loop_eq, Fits.length_testCode, hlen, hlen₁, hlen₂, hlen₃]
  · simp [hloop]
  · simp only [Fits.loop_eq, ← hplace, List.append_assoc, List.cons_append, lies_append, lies_cons,
      lies_nil, and_true, List.nil_append, hlen, hlen₁, hlen₂, hlen₃] at hlayout leading leading₁ leading₂ leading₃ ⊢
    obtain ⟨lenter, lfirst, ltest, lbody, lpop, lafter, ljump, lloopEnd, lexit, lconstant, lend⟩ :=
      hlayout
    have hafter₀ := lafter.entry hlen₃ ljump hhead₃
    have hbody₀ := lbody.entry hlen₂ lpop hhead₂
    have htest₀ := ltest.entry hlen₁ hbody₀ hhead₁
    have hleaves : ι.Leaves layout := by
      refine ⟨⟨place, 0⟩, ι, ι, hloop, ?_, ?_, .refl _, .refl _⟩
      · rw [hmarkerAt]
        exact lexit
      · rw [hnext]
        exact hafter₀
    have hinside : φ.enterLoop place names = ⟨.opened base names :: φ.rooms, some ⟨place, 0⟩⟩ := by
      rw [← hstart]
      rfl
    refine ⟨.enterScope listed
      ((lfirst.entry hlen htest₀ hhead).trans (congrArg some hinside)), ?_⟩
    refine (leading layout ⟨lfirst, htest₀⟩ fun _ => hleaves).append ?_
    rw [hmarkerAt] at leading₁ ⊢
    refine (leading₁ layout ⟨ltest, hbody₀⟩ lloopEnd).append ?_
    rw [Fits.length_testCode]
    refine (leading₂ layout ⟨lbody, lpop⟩ fun _ => hleaves).append ⟨.simple rfl hafter₀, ?_⟩
    refine (leading₃ layout ⟨lafter, ljump⟩ (absurd · Bool.false_ne_true)).append ?_
    exact ⟨.jump htest₀, .simple rfl lexit, by rw [hroom]; exact .exitScope lconstant,
      .simple rfl lend, trivial⟩

end Lays

end ChannelMachine.Source

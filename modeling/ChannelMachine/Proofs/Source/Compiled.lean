import ChannelMachine.Proofs.Source.Fitting

/-!
# Compiled code fits

The scopes that the compiler keeps are the frames that the machine has: the code of every expression
and every statement fits a shape with those scopes.  An expression adds one operand to whatever
there is, and a statement starts without operands and leaves one behind.  The proof goes by the
syntax tree, one case for each constructor.

A module that compiles has a plan, from its first instruction to `halt` (`Module.exists_plan`).
-/

namespace ChannelMachine.Source

/-! ## Scopes -/

theorem Scope.of_ofNames {names : List (String × Binding)} {s : Scope}
    (h : Scope.ofNames names = .ok s) : s = names ∧ names.length ≤ maxSlots := by
  unfold Scope.ofNames at h
  split at h
  next => cases h
  next hle =>
    split at h
    next => cases h
    next => exact ⟨(Except.ok.inj h).symm, Nat.not_lt.1 hle⟩

/-- A scope that is entered is one frame more. -/
theorem Context.of_enter {c c' : Context} {s : Scope} (h : c.enter s = .ok c') :
    c' = { c with scopes := s :: c.scopes } ∧ c.scopes.length < maxSlots := by
  unfold Context.enter at h
  split at h
  next => cases h
  next hlt => exact ⟨(Except.ok.inj h).symm, Nat.not_le.1 hlt⟩

theorem Scope.lt_of_find? {s : Scope} {name : String} {slot : Nat} {b : Binding}
    (h : s.find? name = some (slot, b)) : slot < s.length := by
  unfold Scope.find? at h
  split at h
  next i hi =>
    obtain ⟨_, hget, heq⟩ := Option.map_eq_some_iff.1 h
    obtain ⟨rfl, -⟩ := Prod.mk.inj heq
    exact (List.getElem?_eq_some_iff.1 hget).1
  next => cases h

/-- A name that is found has a slot in a frame. -/
theorem Context.has_of_find? {name : String} {scopes : List Scope} {q : Position} {b : Binding}
    (h : Context.find? name scopes = some (q, b)) :
    ∃ slots, (scopes.map List.length).reverse[q.frame]? = some slots ∧ q.slot < slots := by
  induction scopes with
  | nil => cases h
  | cons s outer ih =>
    have hlen : (outer.map List.length).reverse.length = outer.length := by simp
    rw [List.map_cons, List.reverse_cons]
    unfold Context.find? at h
    split at h
    next slot b' hfind =>
      obtain ⟨rfl, -⟩ := Prod.mk.inj (Option.some.inj h)
      refine ⟨s.length, ?_, Scope.lt_of_find? hfind⟩
      rw [List.getElem?_append_right (Nat.le_of_eq hlen), hlen, Nat.sub_self]
      rfl
    next =>
      obtain ⟨slots, hslots, hlt⟩ := ih h
      have hframe := (List.getElem?_eq_some_iff.1 hslots).1
      exact ⟨slots, by rw [List.getElem?_append_left hframe, hslots], hlt⟩

/-- The frames of a shape are the scopes of the compiler. -/
structure Suits (c : Context) (σ : Shape) : Prop where
  /-- Each frame has the slots of a scope. -/
  scopes : σ.scopes = c.scopes.map List.length
  /-- Code in a function is executed by a function. -/
  level : c.inFunction = true → σ.level = .function

namespace Suits

variable {c c' : Context} {σ : Shape} {s : Scope}

theorem lift (suits : Suits c σ) (n : Nat) : Suits c (σ.lift n) := ⟨suits.scopes, suits.level⟩

theorem asLoop (suits : Suits c σ) : Suits c.asLoop σ := ⟨suits.scopes, suits.level⟩

theorem has (suits : Suits c σ) {name : String} {q : Position} {b : Binding}
    (h : c.resolve name = .ok (q, b)) : σ.Has q := by
  unfold Context.resolve at h
  split at h
  next found hfind =>
    obtain rfl := Except.ok.inj h
    rw [Shape.Has, suits.scopes]
    exact Context.has_of_find? hfind
  next => cases h

/-- A scope fits in if it can be entered. -/
theorem enter (suits : Suits c σ) {names : List (String × Binding)}
    (hs : Scope.ofNames names = .ok s) (h : c.enter s = .ok c') :
    c' = { c with scopes := s :: c.scopes } ∧ σ.Fits s.length ∧
      (∀ pc, Suits c' (σ.enter pc s.length)) ∧
      (∀ place, Suits c' (σ.enterLoop place s.length)) ∧ Suits c'.asFunction (σ.entry s.length) := by
  obtain ⟨rfl, hle⟩ := Scope.of_ofNames hs
  obtain ⟨rfl, hlt⟩ := Context.of_enter h
  have hscopes : s.length :: σ.scopes = (s :: c.scopes).map List.length := by
    rw [suits.scopes, List.map_cons]
  refine ⟨rfl, ⟨hle, ?_⟩, fun _ => ⟨hscopes, suits.level⟩, fun _ => ⟨hscopes, suits.level⟩,
    ⟨hscopes, fun _ => rfl⟩⟩
  rw [suits.scopes, List.length_map]
  exact hlt

end Suits

/-! ## Blocks and functions -/

/-- The code of a body fits wherever the body may stand. -/
def BodyFits (body : List Stmt) : Prop :=
  ∀ {c : Context} {base : Nat} {code : Code} {σ : Shape}, compileBody c base body = .ok code →
    Suits c σ → σ.height = 0 →
    Fits c.inLoop base code (bodyEnclosing base σ.loop body) σ (some (σ.lift 1))

section Blocks

variable {c : Context} {base : Nat} {code : Code} {σ : Shape} {body : List Stmt}

theorem BodyFits.block (hbody : BodyFits body) {names : List (String × Binding)}
    (h : block c base names (fun c base => compileBody c base body) = .ok code)
    (suits : Suits c σ) (hheight : σ.height = 0) :
    Fits c.inLoop base code (blockIn names base σ.loop fun base w => bodyEnclosing base w body) σ
      (some (σ.lift 1)) := by
  unfold blockIn
  rcases exists_of_block h with ⟨hempty, h⟩ | ⟨hnames, s, c', code', hs, hc', hcode', rfl⟩
  · rw [if_pos hempty]
    exact hbody h suits hheight
  · rw [if_neg hnames]
    obtain ⟨rfl, hfits, hinside, -, -⟩ := suits.enter hs hc'
    exact .scope hfits (hbody hcode' (hinside base) hheight)

theorem BodyFits.function (hbody : BodyFits body) {parameters : List String}
    (h : function c base parameters (fun c base => Source.block c base (declared body) fun c base =>
      compileBody c base body) = .ok code) (suits : Suits c σ) :
    Fits false base code (functionIn base σ.loop fun base w => blockIn (declared body) base w
      fun base w => bodyEnclosing base w body) σ (some (σ.lift 1)) := by
  obtain ⟨s, hs, h⟩ := exists_of_bind h
  obtain ⟨c', hc', h⟩ := exists_of_bind h
  obtain ⟨code', hcode', h⟩ := exists_of_bind h
  obtain rfl := Except.ok.inj h
  obtain ⟨rfl, hfits, -, -, hentry⟩ := suits.enter hs hc'
  obtain ⟨rfl, -⟩ := Scope.of_ofNames hs
  simp only [List.length_map] at hfits hentry
  exact .function hfits (hbody.block hcode' hentry rfl)

end Blocks

/-! ## Expressions and statements -/

theorem Method.plain (m : Method) :
    m.instruction.isStraight = true ∧ m.instruction.takes? = some (m.arity + 1) := by
  cases m <;> exact ⟨rfl, rfl⟩

theorem startValue_plain (type : Option TypeName) :
    (startValue type).isStraight = true ∧ (startValue type).takes? = some 0 := by
  rcases type with _ | type
  · exact ⟨rfl, rfl⟩
  · cases type <;> exact ⟨rfl, rfl⟩

/-- A variable is assigned the operand that was just added. -/
theorem Suits.store {c : Context} {σ : Shape} (suits : Suits c σ) {name : String} {q : Position}
    {b : Binding} (h : c.resolve name = .ok (q, b)) {base : Nat} {code : Code}
    {around : Enclosing} (hcode : Fits false base code around σ (some (σ.lift 1))) :
    Fits false base (code ++ [.store q]) (around ++ [σ.loop]) σ (some (σ.lift 1)) :=
  hcode.snoc (.one (σ := σ.lift 1) rfl fun _ _ _ next => .store (suits.has h) next) rfl

/-- A variable is declared. -/
theorem Suits.declare {c : Context} {σ : Shape} (suits : Suits c σ) {name : String} {base : Nat}
    {code code' : Code} {around : Enclosing} (hcode : Fits false base code around σ (some (σ.lift 1)))
    (h : declare c name code = .ok code') :
    Fits false base code' (around ++ [σ.loop]) σ (some (σ.lift 1)) := by
  obtain ⟨⟨q, b⟩, hq, h⟩ := exists_of_bind h
  obtain rfl := Except.ok.inj h
  exact suits.store hq hcode

mutual

/-- An expression adds one operand.  In tail position it returns it. -/
theorem Expr.fits (e : Expr) {c : Context} {tail : Bool} {base : Nat} {code : Code} {σ : Shape}
    (h : e.compile c tail base = .ok code) (suits : Suits c σ)
    (htail : tail = true → σ.height = 0 ∧ σ.level = .function) :
    Fits false base code (e.enclosing tail base σ.loop) σ
      (if tail then none else some (σ.lift 1)) := by
  cases e with
  | number x =>
    obtain rfl := Except.ok.inj h
    exact .returning (.push rfl rfl σ) htail
  | text s =>
    obtain rfl := Except.ok.inj h
    exact .returning (.push rfl rfl σ) htail
  | bool b =>
    obtain rfl := Except.ok.inj h
    exact .returning (.push rfl rfl σ) htail
  | null =>
    obtain rfl := Except.ok.inj h
    exact .returning (.push rfl rfl σ) htail
  | name n =>
    obtain ⟨⟨q, b⟩, hq, h⟩ := exists_of_bind h
    obtain rfl := Except.ok.inj h
    exact .returning (.one rfl fun _ _ _ next => .load (suits.has hq) next) htail
  | unary op e =>
    obtain ⟨operand, he, h⟩ := exists_of_bind h
    obtain rfl := Except.ok.inj h
    exact .returning ((e.fits he suits nofun).snoc (.plain rfl rfl σ) rfl) htail
  | binary op l r =>
    obtain ⟨left, hl, h⟩ := exists_of_bind h
    obtain ⟨right, hr, h⟩ := exists_of_bind h
    obtain rfl := Except.ok.inj h
    rw [Expr.enclosing, ← l.length_compile hl]
    have both := (l.fits hl suits nofun).append (r.fits hr (suits.lift 1) nofun) nofun rfl
    rw [Shape.lift_lift] at both
    exact .returning (both.snoc (.plain rfl rfl σ) rfl) htail
  | logical op l r =>
    obtain ⟨left, hl, h⟩ := exists_of_bind h
    have hleft := l.fits hl suits nofun
    cases op with
    | and =>
      obtain ⟨right, hr, h⟩ := exists_of_bind h
      obtain rfl := Except.ok.inj h
      rw [Expr.enclosing, ← l.length_compile hl]
      exact .returning (.branches hleft (r.fits hr suits nofun) (.push rfl rfl σ)) htail
    | or =>
      obtain ⟨right, hr, h⟩ := exists_of_bind h
      obtain rfl := Except.ok.inj h
      rw [Expr.enclosing, ← l.length_compile hl]
      exact .returning (.branches hleft (.push rfl rfl σ) (r.fits hr suits nofun)) htail
  | cond test thenExpr elseExpr =>
    obtain ⟨testCode, ht, h⟩ := exists_of_bind h
    obtain ⟨thenCode, hthen, h⟩ := exists_of_bind h
    rw [Expr.enclosing, ← test.length_compile ht, ← thenExpr.length_compile hthen]
    have htest := test.fits ht suits nofun
    have hthen := thenExpr.fits hthen suits htail
    cases tail with
    | true =>
      obtain ⟨elseCode, helse, h⟩ := exists_of_bind h
      obtain rfl := Except.ok.inj h
      exact .tailBranches htest hthen (elseExpr.fits helse suits htail)
    | false =>
      obtain ⟨elseCode, helse, h⟩ := exists_of_bind h
      obtain rfl := Except.ok.inj h
      exact .branches htest hthen (elseExpr.fits helse suits htail)
  | call f arguments =>
    obtain ⟨function, hf, h⟩ := exists_of_bind h
    obtain ⟨values, hvalues, h⟩ := exists_of_bind h
    obtain rfl := Except.ok.inj h
    rw [Expr.enclosing, ← f.length_compile hf]
    have both := (f.fits hf suits nofun).append
      (compileAll_fits arguments hvalues (suits.lift 1)) nofun rfl
    rw [Shape.lift_lift, Nat.add_comm 1] at both
    cases tail with
    | true =>
      obtain ⟨hheight, hlevel⟩ := htail rfl
      refine both.snoc (.last (σ := σ.lift (arguments.length + 1)) rfl fun _ _ _ =>
        .tailCall ?_ hlevel) rfl
      rw [Shape.lift, hheight, Nat.zero_add]
    | false => exact both.snoc (.plain rfl rfl σ) rfl
  | method receiver name arguments =>
    obtain ⟨method, first, values, -, harity, hfirst, hvalues, rfl⟩ := exists_of_compile_method h
    obtain ⟨hstraight, htakes⟩ := method.plain
    rw [Expr.enclosing, ← receiver.length_compile hfirst]
    have both := (receiver.fits hfirst suits nofun).append
      (compileAll_fits arguments hvalues (suits.lift 1)) nofun rfl
    rw [Shape.lift_lift, Nat.add_comm 1, harity] at both
    exact .returning (both.snoc (.plain hstraight htakes σ) rfl) htail
  | assign name value =>
    obtain ⟨p, code, hp, hcode, rfl⟩ := exists_of_compile_assign h
    exact .returning (suits.store hp (value.fits hcode suits nofun)) htail
  | function parameters body =>
    obtain ⟨code, hcode, h⟩ := exists_of_bind h
    obtain rfl := Except.ok.inj h
    have hbody : BodyFits body := compileBody_fits body
    exact .returning (hbody.function hcode suits) htail
  | newChannel capacity =>
    obtain rfl := Except.ok.inj h
    exact .returning (.push rfl rfl σ) htail
  | receive channel =>
    obtain ⟨code, hcode, h⟩ := exists_of_bind h
    obtain rfl := Except.ok.inj h
    exact .returning ((channel.fits hcode suits nofun).snoc (.plain rfl rfl σ) rfl) htail

/-- Expressions add one operand each. -/
theorem compileAll_fits (es : List Expr) {c : Context} {base : Nat} {code : Code} {σ : Shape}
    (h : compileAll c base es = .ok code) (suits : Suits c σ) :
    Fits false base code (enclosingAll base σ.loop es) σ (some (σ.lift es.length)) := by
  cases es with
  | nil =>
    obtain rfl := Except.ok.inj h
    exact .nil base σ
  | cons e rest =>
    obtain ⟨first, hfirst, h⟩ := exists_of_bind h
    obtain ⟨others, hothers, h⟩ := exists_of_bind h
    obtain rfl := Except.ok.inj h
    rw [enclosingAll, ← e.length_compile hfirst]
    have both := (e.fits hfirst suits nofun).append
      (compileAll_fits rest hothers (suits.lift 1)) nofun rfl
    rw [Shape.lift_lift, Nat.add_comm 1] at both
    exact both

/-- A statement starts without operands and leaves one behind. -/
theorem Stmt.fits (s : Stmt) {c : Context} {base : Nat} {code : Code} {σ : Shape}
    (h : s.compile c base = .ok code) (suits : Suits c σ) (hheight : σ.height = 0) :
    Fits c.inLoop base code (s.enclosing base σ.loop) σ (some (σ.lift 1)) := by
  cases s with
  | expr e => exact (e.fits h suits nofun).mono nofun
  | var name type value =>
    unfold Stmt.compile at h
    cases value with
    | some e =>
      obtain ⟨code', hcode', h⟩ := exists_of_bind h
      exact (suits.declare (e.fits hcode' suits nofun) h).mono nofun
    | none =>
      obtain ⟨hstraight, htakes⟩ := startValue_plain type
      exact (suits.declare (.push hstraight htakes σ) h).mono nofun
  | const name value =>
    obtain ⟨code', hcode', h⟩ := exists_of_bind h
    exact (suits.declare (value.fits hcode' suits nofun) h).mono nofun
  | function name parameters body =>
    obtain ⟨code', hcode', h⟩ := exists_of_bind h
    have hbody : BodyFits body := compileBody_fits body
    exact (suits.declare (hbody.function hcode' suits) h).mono nofun
  | ret value =>
    obtain ⟨hin, h⟩ := of_compile_ret h
    have hlevel := suits.level hin
    cases value with
    | none =>
      obtain rfl := h
      have hlast : Fits false (base + 1) [.ret] [σ.loop] (σ.lift 1) none :=
        .last (σ := σ.lift 1) rfl fun _ _ _ => .ret (congrArg (· + 1) hheight) hlevel
      exact (((Fits.push rfl rfl σ).append hlast nofun rfl).orElse _).mono nofun
    | some e => exact ((e.fits h suits fun _ => ⟨hheight, hlevel⟩).orElse _).mono nofun
  | cond test thenBody elseBody =>
    unfold Stmt.compile at h
    obtain ⟨testCode, ht, h⟩ := exists_of_bind h
    obtain ⟨thenCode, hthen, h⟩ := exists_of_bind h
    have htest := test.fits ht suits nofun
    have hthenBody : BodyFits thenBody := compileBody_fits thenBody
    have hthenFits := hthenBody.block hthen suits hheight
    have hlen := test.length_compile ht
    have hlen' := length_block (length_compileBody thenBody) hthen
    cases elseBody with
    | some body =>
      obtain ⟨elseCode, helse, h⟩ := exists_of_bind h
      obtain rfl := Except.ok.inj h
      rw [Stmt.enclosing, ← hlen, ← hlen']
      have helseBody : BodyFits body := compileBody_fits body
      exact .branches htest hthenFits (helseBody.block helse suits hheight)
    | none =>
      obtain rfl := Except.ok.inj h
      rw [Stmt.enclosing, ← hlen]
      exact .branches htest hthenFits (.push rfl rfl σ)
  | loop first test after body =>
    obtain ⟨s, c', hs, hc', firstCode, testCode, bodyCode, afterCode, parts, rfl⟩ :=
      exists_of_compile_loop h
    obtain ⟨rfl, hfits, -, hinside, -⟩ := suits.enter hs hc'
    obtain ⟨place, hplace, henclosing⟩ := parts.exists_place σ.loop
    rw [henclosing]
    have hfirst : Fits true (base + 1) firstCode (firstEnclosing (base + 1) (some ⟨place, 0⟩) first)
        (σ.enterLoop place s.length) (some (σ.enterLoop place s.length)) := by
      cases first with
      | none =>
        obtain rfl := parts.first
        exact .nil _ _
      | some first =>
        obtain ⟨code', hcode', rfl⟩ := parts.first
        exact ((first.fits hcode' (hinside place) hheight).mono fun _ => rfl).append
          (.one (σ := (σ.enterLoop place s.length).lift 1) rfl fun _ _ _ next => .pop next)
          (fun _ => ⟨_, rfl, rfl⟩) rfl
    have htest : Fits.TestFits (base + 1 + firstCode.length) testCode
        (partEnclosing (base + 1 + firstCode.length) (some ⟨place, 0⟩) test)
        (σ.enterLoop place s.length) := by
      cases test with
      | none =>
        obtain rfl := parts.test
        rfl
      | some test =>
        obtain ⟨code', hcode', rfl⟩ := parts.test
        exact ⟨_, test.fits hcode' (hinside place) nofun, rfl⟩
    have hbodyFits : BodyFits body := compileBody_fits body
    have hafter : Fits false
        (base + 1 + firstCode.length + testLength testCode + bodyCode.length + 1) afterCode
        (partEnclosing (base + 1 + firstCode.length + testLength testCode + bodyCode.length + 1)
          (some ⟨place, 0⟩) after)
        (σ.enterLoop place s.length) (some (σ.enterLoop place s.length)) := by
      cases after with
      | none =>
        obtain rfl := parts.after
        exact .nil _ _
      | some after =>
        obtain ⟨code', hcode', rfl⟩ := parts.after
        exact (after.fits hcode' (hinside place) nofun).snoc
          (.one (σ := (σ.enterLoop place s.length).lift 1) rfl fun _ _ _ next => .pop next) rfl
    exact .loop hplace hfits hfirst htest
      (hbodyFits.block parts.body (hinside place).asLoop hheight) hafter hheight
  | breakLoop =>
    obtain ⟨hin, rfl⟩ := of_compile_breakLoop h
    exact hin ▸ .breakLoop hheight
  | continueLoop =>
    obtain ⟨hin, rfl⟩ := of_compile_continueLoop h
    exact hin ▸ .continueLoop hheight
  | spawn e =>
    cases e with
    | call f arguments =>
      obtain ⟨function, hf, h⟩ := exists_of_bind h
      obtain ⟨values, hvalues, h⟩ := exists_of_bind h
      obtain rfl := Except.ok.inj h
      rw [Stmt.enclosing, ← f.length_compile hf]
      have both := (f.fits hf suits nofun).append
        (compileAll_fits arguments hvalues (suits.lift 1)) nofun rfl
      rw [Shape.lift_lift, Nat.add_comm 1] at both
      exact (both.append (.spawn arguments.length σ) nofun rfl).mono nofun
    | _ => cases h
  | send channel value =>
    obtain ⟨first, hfirst, h⟩ := exists_of_bind h
    obtain ⟨second, hsecond, h⟩ := exists_of_bind h
    obtain rfl := Except.ok.inj h
    rw [Stmt.enclosing, ← channel.length_compile hfirst]
    have both := (channel.fits hfirst suits nofun).append (value.fits hsecond (suits.lift 1) nofun)
      nofun rfl
    rw [Shape.lift_lift] at both
    exact (both.snoc (.plain rfl rfl σ) rfl).mono nofun
  | block body =>
    have hbody : BodyFits body := compileBody_fits body
    exact hbody.block h suits hheight

/-- A body is a statement of its statements. -/
theorem compileBody_fits (body : List Stmt) {c : Context} {base : Nat} {code : Code} {σ : Shape}
    (h : compileBody c base body = .ok code) (suits : Suits c σ) (hheight : σ.height = 0) :
    Fits c.inLoop base code (bodyEnclosing base σ.loop body) σ (some (σ.lift 1)) := by
  match body with
  | [] =>
    obtain rfl := Except.ok.inj h
    exact .push rfl rfl σ
  | [s] => exact s.fits h suits hheight
  | s :: s' :: rest =>
    obtain ⟨first, hfirst, h⟩ := exists_of_bind h
    obtain ⟨others, hothers, h⟩ := exists_of_bind h
    obtain rfl := Except.ok.inj h
    have hlen := s.length_compile hfirst
    have hpop : Fits c.inLoop (base + first.length) [.pop] [σ.loop] (σ.lift 1) (some σ) :=
      .one (σ := σ.lift 1) rfl fun _ _ _ next => .pop next
    have hrest := compileBody_fits (s' :: rest) hothers suits hheight
    have hboth := (s.fits hfirst suits hheight).append
      (hpop.append hrest (fun _ => ⟨_, rfl, rfl⟩) rfl) (fun _ => ⟨_, rfl, rfl⟩) rfl
    rw [hlen] at hboth
    exact hboth

end

/-! ## Modules -/

/-- The shape at the start of a program. -/
def start : Shape := ⟨0, [Scope.builtins.length], [], none, .main⟩

/-- A plan for a program: the shape at the start is known, and each instruction that has a shape
follows it. -/
structure Plans (program : Program) (plan : Plan) : Prop where
  /-- The shape at the start. -/
  start : plan 0 = some start
  /-- The instructions follow their shapes. -/
  follows : ∀ pc σ, plan pc = some σ → ∃ i, program.at? pc = some i ∧ Follows program plan pc σ i
  /-- New threads have their own code. -/
  home : ∀ pc σ, plan pc = some σ → σ.AtHome program plan pc
  /-- The code of a new thread stands behind the instruction that starts it. -/
  spawn : ∀ pc n, program.at? pc = some (.spawn n) → ForThread program plan pc n

/-- Each instruction of a module that compiles has a shape, which knows the loop around. -/
theorem Module.exists_shapes {m : Module} {program : Program} (h : m.compile = .ok program) :
    ∃ plan : Plan, plan 0 = some start ∧ (∀ pc, m.enclosing[pc]? = (plan pc).map Shape.loop) ∧
      (∀ pc σ, plan pc = some σ → ∃ i, program.at? pc = some i ∧ Follows program plan pc σ i) ∧
      ∀ pc i, program.at? pc = some i → ∃ σ, plan pc = some σ := by
  obtain ⟨code, hcode, h⟩ := exists_of_bind h
  obtain rfl := Except.ok.inj h
  have hbody : BodyFits m.body := compileBody_fits m.body
  obtain ⟨-, -, shapes, hlen, haround, hhead, flows⟩ :=
    hbody.block (σ := start) hcode ⟨rfl, nofun⟩ rfl
  have hflows : Flows ⟨(code ++ [Instruction.halt]).toArray⟩
      (fun pc => (shapes ++ [start.lift 1])[pc]?) 0 (code ++ [.halt]) (shapes ++ [start.lift 1]) := by
    refine (flows _ _ ?_ ?_ nofun).append ⟨.halt rfl rfl, trivial⟩
    · refine lies_of_getElem? _ _ fun i x hx => ?_
      rw [Nat.zero_add, Program.at?, List.getElem?_toArray,
        List.getElem?_append_left (List.getElem?_eq_some_iff.1 hx).1, hx]
    · exact lies_of_getElem? _ _ fun i x hx => by rw [Nat.zero_add]; exact hx
  have hlen' : (shapes ++ [start.lift 1]).length = (code ++ [Instruction.halt]).length := by
    simp [hlen]
  refine ⟨fun pc => (shapes ++ [start.lift 1])[pc]?, List.head?_eq_getElem?.symm.trans hhead,
    fun pc => ?_, fun pc σ hσ => ?_, fun pc i hi => ?_⟩
  · rw [← List.getElem?_map, List.map_append, haround]
    rfl
  · have hi := List.getElem?_eq_getElem (hlen' ▸ (List.getElem?_eq_some_iff.1 hσ).1)
    have hfollows := hflows.follows hi hσ
    rw [Nat.zero_add] at hfollows
    exact ⟨_, List.getElem?_toArray.trans hi, hfollows⟩
  · have hi' : (code ++ [Instruction.halt])[pc]? = some i := List.getElem?_toArray.symm.trans hi
    exact ⟨_, List.getElem?_eq_getElem (hlen' ▸ (List.getElem?_eq_some_iff.1 hi').1)⟩

/-- A module that compiles has a plan. -/
theorem Module.exists_plan {m : Module} {program : Program} (h : m.compile = .ok program) :
    ∃ plan, Plans program plan ∧ ∀ pc σ, plan pc = some σ → m.enclosing[pc]? = some σ.loop := by
  obtain ⟨plan, hstart, haround, hfollows, hplanned⟩ := Module.exists_shapes h
  refine ⟨Plan.tidy program plan, ⟨?_, fun pc σ hσ => ?_, fun pc σ hσ => ?_, fun pc n hspawn => ?_⟩,
    fun pc σ hσ => ?_⟩
  · exact Plan.tidy_eq_some.2 ⟨hstart, Shape.atHome_of_level (.inl rfl)⟩
  · obtain ⟨hσ, home⟩ := Plan.tidy_eq_some.1 hσ
    obtain ⟨i, hi, hfollows⟩ := hfollows pc σ hσ
    exact ⟨i, hi, hfollows.tidy hi home⟩
  · exact (Plan.tidy_eq_some.1 hσ).2.tidy
  · obtain ⟨σ, hσ⟩ := hplanned pc _ hspawn
    obtain ⟨i, hi, hfollows⟩ := hfollows pc σ hσ
    obtain rfl := Option.some.inj (hi.symm.trans hspawn)
    cases hfollows with
    | plain takes => cases takes
    | spawn call stop start ending next =>
      refine ⟨call, stop, fun τ hτ => ?_, fun τ hτ => ?_⟩
      · obtain rfl := Option.some.inj ((Plan.tidy_eq_some.1 hτ).1.symm.trans start)
        rfl
      · obtain rfl := Option.some.inj ((Plan.tidy_eq_some.1 hτ).1.symm.trans ending)
        rfl
  · rw [haround, (Plan.tidy_eq_some.1 hσ).1]
    rfl

end ChannelMachine.Source

import Mathlib.Data.List.Nodup
import ChannelMachine.Proofs.Source.Lexical
import ChannelMachine.Proofs.Source.Places

/-!
# Well-formed modules

`Module.WellFormed` says what the compiler demands of a module: that names are declared where they
are used and only variables are assigned, that declarations fit their frames, and that some
statements stand only where they may.  `Module.Violates` says for each error which of these demands fails
somewhere in the module.

The compiler accepts exactly the well-formed modules, and a module that it refuses violates what the
error says (`Module.accepts_wellFormed`).  That an error names a violation is proved by the syntax
tree, for a part of a module at any place; that an accepted module is well-formed is proved by the
place, since what is around a part was compiled with it.
-/

namespace ChannelMachine.Source

open Around

/-! ## What is demanded -/

/-- The methods that there are and the numbers of their arguments. -/
def methods : List (String × Nat) := [("Add", 1), ("Done", 0), ("Wait", 0)]

/-- What the compiler demands of a module. -/
structure Module.WellFormed (m : Module) : Prop where
  /-- A name that is read is declared around, or it is that of a builtin. -/
  reads : ∀ {place : List Around} {name : String}, m.Within place (.expr (.name name)) →
    Declared place name
  /-- A name that is assigned is declared around, and its innermost declaration is that of a
  variable or a parameter. -/
  assigns : ∀ {place : List Around} {name : String} {value : Expr},
    m.Within place (.expr (.assign name value)) →
      Declared place name ∧ binding? place name = some .variable
  /-- Nothing declares a name twice. -/
  distinct : ∀ {place : List Around} {part : Part}, m.Within place part → ∀ around ∈ place,
    (around.names.map Prod.fst).Nodup
  /-- Nothing declares more than nine names. -/
  few : ∀ {place : List Around} {part : Part}, m.Within place part → ∀ around ∈ place,
    around.names.length ≤ 9
  /-- At most nine frames are around a part. -/
  shallow : ∀ {place : List Around} {part : Part}, m.Within place part → frames place ≤ 9
  /-- A loop is left only in it. -/
  breaks : ∀ {place : List Around}, m.Within place (.stmt .breakLoop) → InLoop place
  /-- A loop goes on only in it. -/
  continues : ∀ {place : List Around}, m.Within place (.stmt .continueLoop) → InLoop place
  /-- A function returns only in it. -/
  returns : ∀ {place : List Around} {value : Option Expr}, m.Within place (.stmt (.ret value)) →
    InFunction place
  /-- A thread is given a call of a function. -/
  spawns : ∀ {place : List Around} {e : Expr}, m.Within place (.stmt (.spawn e)) →
    ∃ f arguments, e = .call f arguments
  /-- A method exists and takes as many arguments as it is given. -/
  calls : ∀ {place : List Around} {receiver : Expr} {name : String} {arguments : List Expr},
    m.Within place (.expr (.method receiver name arguments)) → (name, arguments.length) ∈ methods

/-- Something in a module is against what an error names. -/
def Module.Violates (m : Module) : Error → Prop
  | .undefinedIdentifier name => ∃ place, ¬ Declared place name ∧
      (m.Within place (.expr (.name name)) ∨ ∃ value, m.Within place (.expr (.assign name value)))
  | .assignToConstant name => ∃ place value, m.Within place (.expr (.assign name value)) ∧
      ∃ b, binding? place name = some b ∧ b ≠ .variable
  | .redeclared name => ∃ place part, m.Within place part ∧ ∃ around ∈ place,
      2 ≤ (around.names.map Prod.fst).count name
  | .tooManyLocals count limit => limit = 9 ∧ 9 < count ∧ ∃ place part, m.Within place part ∧
      ∃ around ∈ place, around.names.length = count
  | .scopeTooDeep limit => limit = 9 ∧ ∃ place part, m.Within place part ∧ 9 < frames place
  | .breakOutsideLoop => ∃ place, m.Within place (.stmt .breakLoop) ∧ ¬ InLoop place
  | .continueOutsideLoop => ∃ place, m.Within place (.stmt .continueLoop) ∧ ¬ InLoop place
  | .returnOutsideFunction => ∃ place value,
      m.Within place (.stmt (.ret value)) ∧ ¬ InFunction place
  | .spawnWithoutCall => ∃ place e, m.Within place (.stmt (.spawn e)) ∧
      ∀ f arguments, e ≠ .call f arguments
  | .unknownMethod name => ∃ place receiver arguments,
      m.Within place (.expr (.method receiver name arguments)) ∧ name ∉ methods.map Prod.fst
  | .methodArity name expected got => (name, expected) ∈ methods ∧ got ≠ expected ∧
      ∃ place receiver arguments, m.Within place (.expr (.method receiver name arguments)) ∧
        arguments.length = got

/-- No method stands twice in the list. -/
theorem arity_unique {name : String} {n k : Nat} (hn : (name, n) ∈ methods)
    (hk : (name, k) ∈ methods) : n = k := by
  simp only [methods, List.mem_cons, Prod.mk.injEq, List.not_mem_nil, or_false] at hn hk
  grind

/-- A well-formed module violates nothing. -/
theorem Module.WellFormed.not_violates {m : Module} (wellFormed : m.WellFormed) {e : Error} :
    ¬ m.Violates e := by
  intro h
  cases e with
  | undefinedIdentifier name =>
    obtain ⟨place, hno, hin | ⟨value, hin⟩⟩ := h
    · exact hno (wellFormed.reads hin)
    · exact hno (wellFormed.assigns hin).1
  | assignToConstant name =>
    obtain ⟨place, value, hin, b, hb, hne⟩ := h
    exact hne (Option.some.inj (hb.symm.trans (wellFormed.assigns hin).2))
  | redeclared name =>
    obtain ⟨place, part, hin, around, hmem, htwice⟩ := h
    have hone := List.nodup_iff_count_le_one.1 (wellFormed.distinct hin around hmem) name
    omega
  | tooManyLocals count limit =>
    obtain ⟨-, hmany, place, part, hin, around, hmem, rfl⟩ := h
    exact Nat.not_le.2 hmany (wellFormed.few hin around hmem)
  | scopeTooDeep limit =>
    obtain ⟨-, place, part, hin, hdeep⟩ := h
    exact Nat.not_le.2 hdeep (wellFormed.shallow hin)
  | breakOutsideLoop =>
    obtain ⟨place, hin, hno⟩ := h
    exact hno (wellFormed.breaks hin)
  | continueOutsideLoop =>
    obtain ⟨place, hin, hno⟩ := h
    exact hno (wellFormed.continues hin)
  | returnOutsideFunction =>
    obtain ⟨place, value, hin, hno⟩ := h
    exact hno (wellFormed.returns hin)
  | spawnWithoutCall =>
    obtain ⟨place, e, hin, hno⟩ := h
    obtain ⟨f, arguments, rfl⟩ := wellFormed.spawns hin
    exact hno f arguments rfl
  | unknownMethod name =>
    obtain ⟨place, receiver, arguments, hin, hno⟩ := h
    exact hno (List.mem_map_of_mem (wellFormed.calls hin))
  | methodArity name expected got =>
    obtain ⟨hname, hne, place, receiver, arguments, hin, rfl⟩ := h
    exact hne (arity_unique (wellFormed.calls hin) hname)

/-! ## Single checks -/

/-- An action that fails does so in one of its parts. -/
theorem error_of_bind {ε α β : Type} {x : Except ε α} {f : α → Except ε β} {e : ε}
    (h : (x >>= f) = .error e) : x = .error e ∨ ∃ a, x = .ok a ∧ f a = .error e := by
  cases x with
  | error => exact .inl (congrArg _ (Except.error.inj h))
  | ok a => exact .inr ⟨a, rfl, h⟩

theorem Method.mem_methods {name : String} {n : Nat} :
    (name, n) ∈ methods ↔ ∃ method, Method.ofName? name = some method ∧ method.arity = n := by
  unfold Method.ofName?
  simp only [methods, List.mem_cons, Prod.mk.injEq, List.not_mem_nil, or_false]
  split <;> simp_all [Method.arity, eq_comm]

theorem Scope.twice_of_repeated? {name : String} :
    ∀ {seen : List String} {s : Scope}, Scope.repeated? seen s = some name →
      1 ≤ (s.map Prod.fst).count name ∧ (name ∉ seen → 2 ≤ (s.map Prod.fst).count name)
  | seen, [], h => nomatch h
  | seen, (name', b) :: rest, h => by
    unfold Scope.repeated? at h
    rw [List.map_cons, List.count_cons]
    split at h
    next hseen =>
      obtain rfl := Option.some.inj h
      exact ⟨by simp, fun hnot => absurd hseen hnot⟩
    next =>
      obtain ⟨hone, htwo⟩ := Scope.twice_of_repeated? h
      refine ⟨by omega, fun hnot => ?_⟩
      by_cases heq : name' = name
      · simp only [heq, beq_self_eq_true, if_true]
        omega
      · have := htwo fun hmem => (List.mem_cons.1 hmem).elim (fun h => heq h.symm) hnot
        omega

theorem Context.of_enter_error {c : Context} {s : Scope} {e : Error} (h : c.enter s = .error e) :
    e = .scopeTooDeep 9 ∧ 9 ≤ c.scopes.length := by
  unfold Context.enter at h
  split at h
  next hle => exact ⟨(Except.error.inj h).symm, hle⟩
  next => cases h

theorem Around.frames_append (inner place : List Around) :
    frames place ≤ frames (inner ++ place) := by
  unfold frames
  rw [List.countP_append]
  omega

theorem Around.frames_cons {around : Around} (hopens : around.opens = true) (place : List Around) :
    frames (around :: place) = frames place + 1 := by
  rw [frames, List.countP_cons_of_pos hopens, frames]

/-! ## Errors name violations -/

section Violations

variable {m : Module} {place : List Around} {part : Part} {e : Error}

theorem violates_names {around : Around} (h : Scope.ofNames around.names = .error e)
    (hin : m.Within place part) (hmem : around ∈ place) : m.Violates e := by
  unfold Scope.ofNames at h
  split at h
  next hmany =>
    obtain rfl := Except.error.inj h
    exact ⟨rfl, hmany, place, part, hin, around, hmem, rfl⟩
  next =>
    split at h
    next name htwice =>
      obtain rfl := Except.error.inj h
      exact ⟨place, part, hin, around, hmem,
        (Scope.twice_of_repeated? htwice).2 List.not_mem_nil⟩
    next => cases h

/-- Where a frame cannot be opened, there is a violation at every place further in. -/
theorem violates_enter (inner : List Around) {around : Around} (hopens : around.opens = true)
    {k : Scope → Context → Except Error Code}
    (h : (do let scope ← Scope.ofNames around.names
             let c ← (context place).enter scope
             k scope c) = .error e)
    (hin : m.Within (inner ++ around :: place) part) :
    m.Violates e ∨ k around.names
      { context place with scopes := around.names :: (context place).scopes } = .error e := by
  rcases error_of_bind h with h | ⟨s, hs, h⟩
  · exact .inl (violates_names h hin (List.mem_append_right _ List.mem_cons_self))
  · obtain ⟨rfl, -⟩ := Scope.of_ofNames hs
    rcases error_of_bind h with h | ⟨c, hc, h⟩
    · obtain ⟨rfl, hdeep⟩ := Context.of_enter_error h
      rw [length_scopes_context] at hdeep
      refine .inl ⟨rfl, _, part, hin, Nat.lt_of_lt_of_le ?_ (frames_append inner _)⟩
      rw [frames_cons hopens]
      omega
    · obtain ⟨rfl, -⟩ := Context.of_enter hc
      exact .inr h

/-- What is violated if a body fails wherever it is compiled. -/
def BodyViolates (m : Module) (place : List Around) (body : List Stmt) : Prop :=
  ∀ {base : Nat} {e : Error}, compileBody (context place) base body = .error e → m.Violates e

theorem BodyViolates.block {body : List Stmt} (hbody : BodyViolates m (.block body :: place) body)
    (hin : m.Within (.block body :: place) (.body body)) {base : Nat}
    (h : block (context place) base (declared body) (fun c base => compileBody c base body)
      = .error e) : m.Violates e := by
  unfold BodyViolates at hbody
  rw [context_cons, Around.inside] at hbody
  unfold Source.block at h
  split at h
  next hempty =>
    rw [if_pos hempty] at hbody
    exact hbody h
  next hnames =>
    rw [if_neg hnames] at hbody
    have hopens : (Around.block body).opens = true := by simpa [opens] using hnames
    rcases violates_enter [] hopens h hin with hviolates | h
    · exact hviolates
    · rcases error_of_bind h with h | ⟨_, -, h⟩
      · exact hbody h
      · cases h

theorem BodyViolates.function {parameters : List String} {body : List Stmt}
    (hbody : BodyViolates m (.block body :: .function parameters :: place) body)
    (hin : m.Within (.block body :: .function parameters :: place) (.body body)) {base : Nat}
    (h : function (context place) base parameters (fun c base => Source.block c base (declared body)
      fun c base => compileBody c base body) = .error e) : m.Violates e := by
  have hopens : (Around.function parameters).opens = true := rfl
  rcases violates_enter [_] hopens h hin with hviolates | h
  · exact hviolates
  · rcases error_of_bind h with h | ⟨_, -, h⟩
    · exact hbody.block hin h
    · cases h

mutual

/-- An expression that is refused violates something. -/
theorem Expr.violates (expr : Expr) {place : List Around} {tail : Bool} {base : Nat} {e : Error}
    (hin : m.Within place (.expr expr)) (h : expr.compile (context place) tail base = .error e) :
    m.Violates e := by
  cases expr with
  | number | text | bool | null | newChannel => cases h
  | name n =>
    rcases error_of_bind h with h | ⟨_, -, h⟩
    · obtain ⟨rfl, hno⟩ := of_resolve_error h
      exact ⟨place, hno, .inl hin⟩
    · cases h
  | unary op operand =>
    rcases error_of_bind h with h | ⟨_, -, h⟩
    · exact operand.violates (hin.operand (.head _)) h
    · cases h
  | binary op l r =>
    rcases error_of_bind h with h | ⟨_, -, h⟩
    · exact l.violates (hin.operand (.head _)) h
    rcases error_of_bind h with h | ⟨_, -, h⟩
    · exact r.violates (hin.operand (.tail _ (.head _))) h
    · cases h
  | logical op l r =>
    rcases error_of_bind h with h | ⟨_, -, h⟩
    · exact l.violates (hin.operand (.head _)) h
    cases op
    all_goals
      rcases error_of_bind h with h | ⟨_, -, h⟩
      · exact r.violates (hin.operand (.tail _ (.head _))) h
      · cases h
  | cond test thenExpr elseExpr =>
    rcases error_of_bind h with h | ⟨_, -, h⟩
    · exact test.violates (hin.operand (.head _)) h
    rcases error_of_bind h with h | ⟨_, -, h⟩
    · exact thenExpr.violates (hin.operand (.tail _ (.head _))) h
    cases tail
    all_goals
      rcases error_of_bind h with h | ⟨_, -, h⟩
      · exact elseExpr.violates (hin.operand (.tail _ (.tail _ (.head _)))) h
      · cases h
  | call f arguments =>
    rcases error_of_bind h with h | ⟨_, -, h⟩
    · exact f.violates (hin.operand (.head _)) h
    rcases error_of_bind h with h | ⟨_, -, h⟩
    · exact violates_all arguments (fun _ ha => hin.operand (.tail _ ha)) h
    · cases h
  | method receiver name arguments =>
    unfold Expr.compile at h
    split at h
    next hnone =>
      obtain rfl := Except.error.inj h
      refine ⟨place, receiver, arguments, hin, fun hmem => ?_⟩
      obtain ⟨⟨_, n⟩, hname, rfl⟩ := List.mem_map.1 hmem
      obtain ⟨method, hmethod, -⟩ := Method.mem_methods.1 hname
      rw [hnone] at hmethod
      cases hmethod
    next method hmethod =>
      split at h
      next hne =>
        obtain rfl := Except.error.inj h
        exact ⟨Method.mem_methods.2 ⟨method, hmethod, rfl⟩, hne, place, receiver, arguments, hin,
          rfl⟩
      next =>
        rcases error_of_bind h with h | ⟨_, -, h⟩
        · exact receiver.violates (hin.operand (.head _)) h
        rcases error_of_bind h with h | ⟨_, -, h⟩
        · exact violates_all arguments (fun _ ha => hin.operand (.tail _ ha)) h
        · cases h
  | assign name value =>
    rcases error_of_bind h with h | ⟨⟨q, b⟩, hresolve, h⟩
    · obtain ⟨rfl, hno⟩ := of_resolve_error h
      exact ⟨place, hno, .inr ⟨value, hin⟩⟩
    dsimp only at h
    split at h
    next hne =>
      obtain rfl := Except.error.inj h
      exact ⟨place, value, hin, b, binding?_of_resolve hresolve, hne⟩
    next =>
      rcases error_of_bind h with h | ⟨_, -, h⟩
      · exact value.violates (hin.operand (.head _)) h
      · cases h
  | function parameters body =>
    rcases error_of_bind h with h | ⟨_, -, h⟩
    · have hbody : BodyViolates m (.block body :: .function parameters :: place) body :=
        violates_body body fun _ hs => hin.function.statement hs
      exact hbody.function hin.function h
    · cases h
  | receive channel =>
    rcases error_of_bind h with h | ⟨_, -, h⟩
    · exact channel.violates (hin.operand (.head _)) h
    · cases h

theorem violates_all (es : List Expr) {place : List Around} {base : Nat} {e : Error}
    (hin : ∀ expr ∈ es, m.Within place (.expr expr))
    (h : compileAll (context place) base es = .error e) : m.Violates e := by
  cases es with
  | nil => cases h
  | cons expr rest =>
    rcases error_of_bind h with h | ⟨_, -, h⟩
    · exact expr.violates (hin expr (.head _)) h
    rcases error_of_bind h with h | ⟨_, -, h⟩
    · exact violates_all rest (fun expr ha => hin expr (.tail _ ha)) h
    · cases h

/-- A statement that is refused violates something. -/
theorem Stmt.violates (s : Stmt) {place : List Around} {base : Nat} {e : Error}
    (hin : m.Within place (.stmt s)) (h : s.compile (context place) base = .error e) :
    m.Violates e := by
  -- A name that is declared is declared around, so it is found.
  have hdeclare : ∀ {name : String} {b : Binding} {code : Code},
      s.declares? = some (name, b) → declare (context place) name code ≠ .error e := by
    intro name b code hs hfail
    rcases error_of_bind hfail with hfail | ⟨_, -, hfail⟩
    · exact (of_resolve_error hfail).2 (hin.declares hs)
    · cases hfail
  cases s with
  | expr expr => exact expr.violates (hin.expression (.head _)) h
  | var name type value =>
    cases value with
    | some value =>
      rcases error_of_bind h with h | ⟨_, -, h⟩
      · exact value.violates (hin.expression (.head _)) h
      · exact absurd h (hdeclare rfl)
    | none => exact absurd h (hdeclare rfl)
  | const name value =>
    rcases error_of_bind h with h | ⟨_, -, h⟩
    · exact value.violates (hin.expression (.head _)) h
    · exact absurd h (hdeclare rfl)
  | function name parameters body =>
    rcases error_of_bind h with h | ⟨_, -, h⟩
    · have hbody : BodyViolates m (.block body :: .function parameters :: place) body :=
        violates_body body fun _ hs => hin.declaration.statement hs
      exact hbody.function hin.declaration h
    · exact absurd h (hdeclare rfl)
  | ret value =>
    unfold Stmt.compile at h
    split at h
    next hout =>
      obtain rfl := Except.error.inj h
      refine ⟨place, value, hin, fun hfunction => ?_⟩
      rw [(inFunction_context place).2 hfunction] at hout
      cases hout
    next =>
      cases value with
      | none => cases h
      | some value => exact value.violates (hin.expression (.head _)) h
  | cond test thenBody elseBody =>
    unfold Stmt.compile at h
    rcases error_of_bind h with h | ⟨_, -, h⟩
    · exact test.violates (hin.expression (.head _)) h
    rcases error_of_bind h with h | ⟨_, -, h⟩
    · have hbody : BodyViolates m (.block thenBody :: place) thenBody :=
        violates_body thenBody fun _ hs => hin.thenBody.statement hs
      exact hbody.block hin.thenBody h
    cases elseBody with
    | none => cases h
    | some body =>
      rcases error_of_bind h with h | ⟨_, -, h⟩
      · have hbody : BodyViolates m (.block body :: place) body :=
          violates_body body fun _ hs => hin.elseBody.statement hs
        exact hbody.block hin.elseBody h
      · cases h
  | loop first test after body =>
    unfold Stmt.compile at h
    have hopens : (Around.loop first).opens = true := rfl
    rcases violates_enter [_, _] hopens h hin.round with hviolates | h
    · exact hviolates
    have hround := hin.round
    extract_lets c compileTest at h
    -- Each optional part goes on with the rest of the compilation.
    have hfirst : m.Violates e ∨ ∃ firstCode, compileTest firstCode = .error e := by
      cases first with
      | none => exact .inr ⟨_, h⟩
      | some first =>
        rcases error_of_bind h with h | ⟨_, -, h⟩
        · exact .inl (first.violates hin.first h)
        · exact .inr ⟨_, h⟩
    rcases hfirst with hviolates | ⟨firstCode, h⟩
    · exact hviolates
    unfold compileTest at h
    extract_lets testStart compileBody' at h
    have htest : m.Violates e ∨ ∃ testCode, compileBody' testCode = .error e := by
      cases test with
      | none => exact .inr ⟨_, h⟩
      | some test =>
        rcases error_of_bind h with h | ⟨_, -, h⟩
        · exact .inl (test.violates hin.test h)
        · exact .inr ⟨_, h⟩
    rcases htest with hviolates | ⟨testCode, h⟩
    · exact hviolates
    unfold compileBody' at h
    extract_lets bodyStart at h
    rcases error_of_bind h with h | ⟨bodyCode, -, h⟩
    · have hbody : BodyViolates m (.block body :: .round :: .loop first :: place) body :=
        violates_body body fun _ hs => hround.statement hs
      exact hbody.block hround h
    extract_lets finish at h
    cases after with
    | none => cases h
    | some after =>
      rcases error_of_bind h with h | ⟨_, -, h⟩
      · exact after.violates hin.after h
      · cases h
  | breakLoop =>
    unfold Stmt.compile at h
    split at h
    next => cases h
    next hout =>
      obtain rfl := Except.error.inj h
      exact ⟨place, hin, fun hloop => hout ((inLoop_context place).2 hloop)⟩
  | continueLoop =>
    unfold Stmt.compile at h
    split at h
    next => cases h
    next hout =>
      obtain rfl := Except.error.inj h
      exact ⟨place, hin, fun hloop => hout ((inLoop_context place).2 hloop)⟩
  | spawn call =>
    cases call with
    | call f arguments =>
      have hcall := hin.expression (List.Mem.head _)
      rcases error_of_bind h with h | ⟨_, -, h⟩
      · exact f.violates (hcall.operand (.head _)) h
      rcases error_of_bind h with h | ⟨_, -, h⟩
      · exact violates_all arguments (fun _ ha => hcall.operand (.tail _ ha)) h
      · cases h
    | _ =>
      obtain rfl := Except.error.inj h
      exact ⟨place, _, hin, nofun⟩
  | send channel value =>
    rcases error_of_bind h with h | ⟨_, -, h⟩
    · exact channel.violates (hin.expression (.head _)) h
    rcases error_of_bind h with h | ⟨_, -, h⟩
    · exact value.violates (hin.expression (.tail _ (.head _))) h
    · cases h
  | block body =>
    have hbody : BodyViolates m (.block body :: place) body :=
      violates_body body fun _ hs => hin.block.statement hs
    exact hbody.block hin.block h

theorem violates_body (body : List Stmt) {place : List Around}
    (hin : ∀ s ∈ body, m.Within place (.stmt s)) : BodyViolates m place body := by
  intro base e h
  match body with
  | [] => cases h
  | [s] => exact s.violates (hin s (.head _)) h
  | s :: s' :: rest =>
    rcases error_of_bind h with h | ⟨_, -, h⟩
    · exact s.violates (hin s (.head _)) h
    rcases error_of_bind h with h | ⟨_, -, h⟩
    · exact violates_body (s' :: rest) (fun s hs => hin s (.tail _ hs)) h
    · cases h

end

end Violations

/-! ## What is accepted is well-formed -/

/-- A part is accepted in a context. -/
def Part.Accepted (c : Context) : Part → Prop
  | .expr e => ∃ tail base code, e.compile c tail base = .ok code
  | .stmt s => ∃ base code, s.compile c base = .ok code
  | .body statements => ∃ base code, compileBody c base statements = .ok code

/-- The frames around a place were opened. -/
structure Entered (place : List Around) : Prop where
  /-- Nothing declares a name twice. -/
  distinct : ∀ around ∈ place, (around.names.map Prod.fst).Nodup
  /-- Nothing declares more names than a frame has slots. -/
  few : ∀ around ∈ place, around.names.length ≤ 9
  /-- There are not more frames than an environment may have. -/
  shallow : frames place ≤ 9

namespace Entered

variable {place : List Around} {base : Nat} {code : Code}

theorem nil : Entered [] := ⟨nofun, nofun, by decide⟩

theorem cons {around : Around} (entered : Entered place)
    (nodup : (around.names.map Prod.fst).Nodup) (few : around.names.length ≤ 9)
    (shallow : frames (around :: place) ≤ 9) : Entered (around :: place) where
  distinct x hx := (List.mem_cons.1 hx).elim (fun h => h ▸ nodup) (entered.distinct x)
  few x hx := (List.mem_cons.1 hx).elim (fun h => h ▸ few) (entered.few x)
  shallow := shallow

/-- What opens no frame declares nothing. -/
theorem still (entered : Entered place) {around : Around} (hopens : around.opens = false) :
    Entered (around :: place) := by
  have hnames : around.names = [] := by
    cases around with
    | block body =>
      have hempty : (declared body).isEmpty = true := by
        simpa only [opens, Bool.not_eq_false'] using hopens
      exact List.isEmpty_iff.1 hempty
    | function | loop => cases hopens
    | round => rfl
  refine entered.cons (by simp [hnames]) (by simp [hnames]) ?_
  rw [frames, List.countP_cons_of_neg (by simp [hopens])]
  exact entered.shallow

/-- What opens a frame has room for it. -/
theorem enter (entered : Entered place) {around : Around} (hopens : around.opens = true)
    {s : Scope} {c : Context} (hs : Scope.ofNames around.names = .ok s)
    (hc : (context place).enter s = .ok c) :
    Entered (around :: place) ∧
      c = { context place with scopes := around.names :: (context place).scopes } := by
  have nodup := Scope.nodup_of_ofNames hs
  obtain ⟨rfl, few⟩ := Scope.of_ofNames hs
  obtain ⟨rfl, hroom⟩ := Context.of_enter hc
  rw [length_scopes_context] at hroom
  exact ⟨entered.cons nodup few (frames_cons hopens place ▸ hroom), rfl⟩

theorem block (entered : Entered place) {body : List Stmt}
    (h : block (context place) base (declared body) (fun c base => compileBody c base body)
      = .ok code) :
    Entered (.block body :: place) ∧
      Part.Accepted (context (.block body :: place)) (.body body) := by
  rw [context_cons, Around.inside]
  rcases exists_of_block h with ⟨hempty, h⟩ | ⟨hnames, s, c, code', hs, hc, hcode', -⟩
  · rw [if_pos hempty]
    have hopens : (Around.block body).opens = false := by simpa [opens] using hempty
    exact ⟨entered.still hopens, base, code, h⟩
  · rw [if_neg hnames]
    have hopens : (Around.block body).opens = true := by simpa [opens] using hnames
    obtain ⟨inside, rfl⟩ := entered.enter hopens hs hc
    exact ⟨inside, _, code', hcode'⟩

theorem function (entered : Entered place) {parameters : List String} {body : List Stmt}
    (h : function (context place) base parameters (fun c base => Source.block c base (declared body)
      fun c base => compileBody c base body) = .ok code) :
    Entered (.block body :: .function parameters :: place) ∧
      Part.Accepted (context (.block body :: .function parameters :: place)) (.body body) := by
  obtain ⟨s, hs, h⟩ := exists_of_bind h
  obtain ⟨c, hc, h⟩ := exists_of_bind h
  have hopens : (Around.function parameters).opens = true := rfl
  obtain ⟨inside, rfl⟩ := entered.enter hopens hs hc
  obtain ⟨code', hcode', -⟩ := exists_of_bind h
  exact inside.block hcode'

end Entered

theorem accepted_all {c : Context} : ∀ {es : List Expr} {base : Nat} {code : Code},
    compileAll c base es = .ok code → ∀ e ∈ es, Part.Accepted c (.expr e)
  | e :: rest, _, _, h, e', he' => by
    obtain ⟨first, hfirst, h⟩ := exists_of_bind h
    obtain ⟨others, hothers, -⟩ := exists_of_bind h
    rcases List.mem_cons.1 he' with rfl | he'
    · exact ⟨_, _, _, hfirst⟩
    · exact accepted_all hothers e' he'

theorem accepted_body {c : Context} : ∀ {body : List Stmt} {base : Nat} {code : Code},
    compileBody c base body = .ok code → ∀ s ∈ body, Part.Accepted c (.stmt s)
  | [s], _, _, h, s', hs' => by
    obtain rfl := List.mem_singleton.1 hs'
    exact ⟨_, _, h⟩
  | s :: s' :: rest, _, _, h, s'', hs'' => by
    obtain ⟨first, hfirst, h⟩ := exists_of_bind h
    obtain ⟨others, hothers, -⟩ := exists_of_bind h
    rcases List.mem_cons.1 hs'' with rfl | hs''
    · exact ⟨_, _, hfirst⟩
    · exact accepted_body hothers s'' hs''

/-- The operands of an expression are compiled where it is. -/
theorem Expr.accepted_operands {c : Context} {e : Expr} {tail : Bool} {base : Nat} {code : Code}
    (h : e.compile c tail base = .ok code) :
    ∀ operand ∈ e.operands, Part.Accepted c (.expr operand) := by
  cases e with
  | number | text | bool | null | name | function | newChannel => exact nofun
  | unary op e | receive e =>
    obtain ⟨_, he, -⟩ := exists_of_bind h
    exact List.forall_mem_singleton.2 ⟨_, _, _, he⟩
  | binary op l r =>
    obtain ⟨_, hl, h⟩ := exists_of_bind h
    obtain ⟨_, hr, -⟩ := exists_of_bind h
    exact List.forall_mem_cons.2 ⟨⟨_, _, _, hl⟩, List.forall_mem_singleton.2 ⟨_, _, _, hr⟩⟩
  | logical op l r =>
    obtain ⟨_, hl, h⟩ := exists_of_bind h
    cases op
    all_goals
      obtain ⟨_, hr, -⟩ := exists_of_bind h
      exact List.forall_mem_cons.2 ⟨⟨_, _, _, hl⟩, List.forall_mem_singleton.2 ⟨_, _, _, hr⟩⟩
  | cond test thenExpr elseExpr =>
    obtain ⟨_, ht, h⟩ := exists_of_bind h
    obtain ⟨_, hthen, h⟩ := exists_of_bind h
    cases tail
    all_goals
      obtain ⟨_, helse, -⟩ := exists_of_bind h
      exact List.forall_mem_cons.2 ⟨⟨_, _, _, ht⟩, List.forall_mem_cons.2
        ⟨⟨_, _, _, hthen⟩, List.forall_mem_singleton.2 ⟨_, _, _, helse⟩⟩⟩
  | call f arguments =>
    obtain ⟨_, hf, h⟩ := exists_of_bind h
    obtain ⟨_, hvalues, -⟩ := exists_of_bind h
    exact List.forall_mem_cons.2 ⟨⟨_, _, _, hf⟩, accepted_all hvalues⟩
  | method receiver name arguments =>
    obtain ⟨_, _, _, -, -, hfirst, hvalues, -⟩ := exists_of_compile_method h
    exact List.forall_mem_cons.2 ⟨⟨_, _, _, hfirst⟩, accepted_all hvalues⟩
  | assign name value =>
    obtain ⟨_, _, -, hvalue, -⟩ := exists_of_compile_assign h
    exact List.forall_mem_singleton.2 ⟨_, _, _, hvalue⟩

/-- The operands of a statement are compiled where it is. -/
theorem Stmt.accepted_operands {c : Context} {s : Stmt} {base : Nat} {code : Code}
    (h : s.compile c base = .ok code) : ∀ e ∈ s.operands, Part.Accepted c (.expr e) := by
  cases s with
  | function | loop | breakLoop | continueLoop | block => exact nofun
  | expr e => exact List.forall_mem_singleton.2 ⟨_, _, _, h⟩
  | var name type value =>
    cases value with
    | none => exact nofun
    | some e =>
      obtain ⟨_, he, -⟩ := exists_of_bind h
      exact List.forall_mem_singleton.2 ⟨_, _, _, he⟩
  | const name value =>
    obtain ⟨_, he, -⟩ := exists_of_bind h
    exact List.forall_mem_singleton.2 ⟨_, _, _, he⟩
  | ret value =>
    obtain ⟨-, h⟩ := of_compile_ret h
    cases value with
    | none => exact nofun
    | some e => exact List.forall_mem_singleton.2 ⟨_, _, _, h⟩
  | cond test thenBody elseBody =>
    unfold Stmt.compile at h
    obtain ⟨_, ht, -⟩ := exists_of_bind h
    exact List.forall_mem_singleton.2 ⟨_, _, _, ht⟩
  | spawn e =>
    cases e with
    | call f arguments =>
      obtain ⟨function, hf, h⟩ := exists_of_bind h
      obtain ⟨values, hvalues, -⟩ := exists_of_bind h
      refine List.forall_mem_singleton.2 ⟨false, base,
        function ++ values ++ [.call arguments.length], ?_⟩
      rw [Expr.compile, hf]
      simp only [bind, Except.bind, hvalues]
      rfl
    | _ => cases h
  | send channel value =>
    obtain ⟨_, hc, h⟩ := exists_of_bind h
    obtain ⟨_, hv, -⟩ := exists_of_bind h
    exact List.forall_mem_cons.2 ⟨⟨_, _, _, hc⟩, List.forall_mem_singleton.2 ⟨_, _, _, hv⟩⟩

/-- The parts of a loop are compiled in its frame. -/
structure LoopAccepted (place : List Around) (first : Option Stmt) (test after : Option Expr)
    (body : List Stmt) : Prop where
  /-- Its frame was opened. -/
  entered : Entered (.loop first :: place)
  /-- What comes first. -/
  opening : ∀ s ∈ first, Part.Accepted (context (.loop first :: place)) (.stmt s)
  /-- The test. -/
  testing : ∀ e ∈ test, Part.Accepted (context (.loop first :: place)) (.expr e)
  /-- What follows each round. -/
  following : ∀ e ∈ after, Part.Accepted (context (.loop first :: place)) (.expr e)
  /-- The body, in its own frame if it declares names. -/
  round : Entered (.block body :: .round :: .loop first :: place) ∧
    Part.Accepted (context (.block body :: .round :: .loop first :: place)) (.body body)

theorem Entered.loop {place : List Around} (entered : Entered place) {first : Option Stmt}
    {test after : Option Expr} {body : List Stmt} {base : Nat} {code : Code}
    (h : (Stmt.loop first test after body).compile (context place) base = .ok code) :
    LoopAccepted place first test after body := by
  obtain ⟨s, c', hs, hc', firstCode, testCode, bodyCode, afterCode, parts, -⟩ :=
    exists_of_compile_loop h
  have hopens : (Around.loop first).opens = true := rfl
  obtain ⟨inside, rfl⟩ := entered.enter hopens hs hc'
  have round : Entered (.round :: .loop first :: place) := inside.still rfl
  refine ⟨inside, ?opening, ?testing, ?following, round.block parts.body⟩
  case opening =>
    rintro s rfl
    obtain ⟨code', hcode', -⟩ := parts.first
    exact ⟨_, _, hcode'⟩
  case testing =>
    rintro e rfl
    obtain ⟨code', hcode', -⟩ := parts.test
    exact ⟨_, _, _, hcode'⟩
  case following =>
    rintro e rfl
    obtain ⟨code', hcode', -⟩ := parts.after
    exact ⟨_, _, _, hcode'⟩

/-- Every part of an accepted module was accepted in the context of its place. -/
theorem Module.Within.accepted {m : Module} {program : Program} (hm : m.compile = .ok program)
    {place : List Around} {part : Part} (hin : m.Within place part) :
    Entered place ∧ part.Accepted (context place) := by
  induction hin with
  | top =>
    obtain ⟨code, hcode, -⟩ := exists_of_bind hm
    exact Entered.nil.block hcode
  | statement _ hs ih =>
    obtain ⟨entered, _, _, h⟩ := ih
    exact ⟨entered, accepted_body h _ hs⟩
  | expression _ he ih =>
    obtain ⟨entered, _, _, h⟩ := ih
    exact ⟨entered, Stmt.accepted_operands h _ he⟩
  | operand _ he ih =>
    obtain ⟨entered, _, _, _, h⟩ := ih
    exact ⟨entered, Expr.accepted_operands h _ he⟩
  | function _ ih =>
    obtain ⟨entered, _, _, _, h⟩ := ih
    obtain ⟨_, h, -⟩ := exists_of_bind h
    exact entered.function h
  | declaration _ ih =>
    obtain ⟨entered, _, _, h⟩ := ih
    obtain ⟨_, h, -⟩ := exists_of_bind h
    exact entered.function h
  | block _ ih =>
    obtain ⟨entered, _, _, h⟩ := ih
    exact entered.block h
  | thenBody _ ih =>
    obtain ⟨entered, _, _, h⟩ := ih
    unfold Stmt.compile at h
    obtain ⟨_, -, h⟩ := exists_of_bind h
    obtain ⟨_, h, -⟩ := exists_of_bind h
    exact entered.block h
  | elseBody _ ih =>
    obtain ⟨entered, _, _, h⟩ := ih
    obtain ⟨_, -, h⟩ := exists_of_bind h
    obtain ⟨_, -, h⟩ := exists_of_bind h
    obtain ⟨_, h, -⟩ := exists_of_bind h
    exact entered.block h
  | first _ ih =>
    obtain ⟨entered, _, _, h⟩ := ih
    exact ⟨(entered.loop h).entered, (entered.loop h).opening _ rfl⟩
  | test _ ih =>
    obtain ⟨entered, _, _, h⟩ := ih
    exact ⟨(entered.loop h).entered, (entered.loop h).testing _ rfl⟩
  | after _ ih =>
    obtain ⟨entered, _, _, h⟩ := ih
    exact ⟨(entered.loop h).entered, (entered.loop h).following _ rfl⟩
  | round _ ih =>
    obtain ⟨entered, _, _, h⟩ := ih
    exact (entered.loop h).round

/-- An accepted module is well-formed. -/
theorem Module.wellFormed_of_accepted {m : Module} {program : Program}
    (hm : m.compile = .ok program) : m.WellFormed where
  reads hin := by
    obtain ⟨-, _, _, _, h⟩ := hin.accepted hm
    obtain ⟨_, hresolve, -⟩ := exists_of_bind h
    exact declared_iff.2 ⟨_, binding?_of_resolve hresolve⟩
  assigns hin := by
    obtain ⟨-, _, _, _, h⟩ := hin.accepted hm
    obtain ⟨_, _, hresolve, -⟩ := exists_of_compile_assign h
    have hb := binding?_of_resolve hresolve
    exact ⟨declared_iff.2 ⟨_, hb⟩, hb⟩
  distinct hin := (hin.accepted hm).1.distinct
  few hin := (hin.accepted hm).1.few
  shallow hin := (hin.accepted hm).1.shallow
  breaks hin := by
    obtain ⟨-, _, _, h⟩ := hin.accepted hm
    exact (inLoop_context _).1 (of_compile_breakLoop h).1
  continues hin := by
    obtain ⟨-, _, _, h⟩ := hin.accepted hm
    exact (inLoop_context _).1 (of_compile_continueLoop h).1
  returns hin := by
    obtain ⟨-, _, _, h⟩ := hin.accepted hm
    exact (inFunction_context _).1 (of_compile_ret h).1
  spawns {_ e} hin := by
    obtain ⟨-, _, _, h⟩ := hin.accepted hm
    cases e with
    | call f arguments => exact ⟨f, arguments, rfl⟩
    | _ => cases h
  calls hin := by
    obtain ⟨-, _, _, _, h⟩ := hin.accepted hm
    obtain ⟨method, _, _, hmethod, harity, -⟩ := exists_of_compile_method h
    exact Method.mem_methods.2 ⟨method, hmethod, harity.symm⟩

/-! ## The static checks -/

/-- The compiler accepts a module if and only if it is well-formed, and when it refuses one,
something in the module is against what the error names. -/
theorem Module.accepts_wellFormed (m : Module) :
    ((∃ program, m.compile = .ok program) ↔ m.WellFormed) ∧
      (∀ e, m.compile = .error e → m.Violates e) ∧ ∀ e, m.Violates e → ¬ m.WellFormed := by
  have hviolates : ∀ e, m.compile = .error e → m.Violates e := by
    intro e h
    rcases error_of_bind h with h | ⟨_, -, h⟩
    · have hbody : BodyViolates m [.block m.body] m.body :=
        violates_body m.body fun _ hs => Within.top.statement hs
      exact hbody.block .top h
    · cases h
  refine ⟨⟨fun ⟨program, h⟩ => wellFormed_of_accepted h, fun wellFormed => ?_⟩, hviolates,
    fun e h wellFormed => wellFormed.not_violates h⟩
  cases hcompile : m.compile with
  | ok program => exact ⟨program, rfl⟩
  | error e => exact absurd (hviolates e hcompile) wellFormed.not_violates

end ChannelMachine.Source

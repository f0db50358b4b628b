import ChannelMachine.Source.Scope

/-!
# Places in a module

A part of a module is an expression, a statement or the statements of a block, and its place is what
is around it, the innermost first: blocks, functions, loops, and the rounds of loops.
`Module.Within` says which parts a module has and where, one constructor for each way in which a part
stands in another.

What a name means at a place, how many frames are around it and whether a loop or a function is, can be
read off the place alone.  `Around.context` is the context in which the compiler takes what stands
there, and the lemmas about it say that the compiler reads the same things off its context.
-/

namespace ChannelMachine.Source

/-! ## What is around a part -/

/-- What may be around a part of a module. -/
inductive Around where
  /-- A block with these statements. -/
  | block (body : List Stmt)
  /-- A function with these parameters. -/
  | function (parameters : List String)
  /-- A loop in which this comes first. -/
  | loop (first : Option Stmt)
  /-- What a loop repeats, without its test and what follows each round. -/
  | round

/-- A part of a module. -/
inductive Part where
  /-- An expression. -/
  | expr (e : Expr)
  /-- A statement. -/
  | stmt (s : Stmt)
  /-- The statements of a block. -/
  | body (body : List Stmt)

namespace Around

/-- The names that are declared there, without those further in. -/
def names : Around → List (String × Binding)
  | block body => declared body
  | function parameters => parameters.map (·, .variable)
  | loop first => declared first.toList
  | round => []

/-- Whether it opens a frame: a block does if it declares names, functions and loops always do. -/
def opens : Around → Bool
  | block body => !(declared body).isEmpty
  | function _ | loop _ => true
  | round => false

/-- How many frames are around a place; the outermost is that of the builtins. -/
def frames (place : List Around) : Nat := place.countP opens + 1

/-- What is declared around a place, the innermost first. -/
def visible (place : List Around) : List (String × Binding) :=
  place.flatMap names ++ Builtin.all.map fun b => (b.name, .builtin)

/-- A name is declared around a place, or it is that of a builtin. -/
def Declared (place : List Around) (name : String) : Prop := name ∈ (visible place).map Prod.fst

/-- What a name is declared as by its innermost declaration. -/
def binding? (place : List Around) (name : String) : Option Binding := (visible place).lookup name

/-- A place in the rounds of a loop of the same function. -/
def InLoop (place : List Around) : Prop :=
  ∃ inner outer, place = inner ++ round :: outer ∧ ∀ parameters, function parameters ∉ inner

/-- A place in a function. -/
def InFunction (place : List Around) : Prop := ∃ parameters, function parameters ∈ place

end Around

/-! ## Parts -/

/-- The expressions that an expression has for operands. -/
def Expr.operands : Expr → List Expr
  | .unary _ e | .assign _ e | .receive e => [e]
  | .binary _ l r | .logical _ l r => [l, r]
  | .cond test thenExpr elseExpr => [test, thenExpr, elseExpr]
  | .call f arguments => f :: arguments
  | .method receiver _ arguments => receiver :: arguments
  | .number _ | .text _ | .bool _ | .null | .name _ | .function _ _ | .newChannel _ => []

/-- The expressions that a statement has for operands, without the test of a loop and what follows
each round. -/
def Stmt.operands : Stmt → List Expr
  | .expr e | .const _ e | .cond e _ _ | .spawn e => [e]
  | .var _ _ value | .ret value => value.toList
  | .send channel value => [channel, value]
  | .function _ _ _ | .loop _ _ _ _ | .breakLoop | .continueLoop | .block _ => []

/-- The parts of a module and their places. -/
inductive Module.Within (m : Module) : List Around → Part → Prop where
  /-- The statements of the module. -/
  | top : m.Within [.block m.body] (.body m.body)
  /-- A statement of a block. -/
  | statement {place : List Around} {body : List Stmt} {s : Stmt} :
      m.Within place (.body body) → s ∈ body → m.Within place (.stmt s)
  /-- An operand of a statement. -/
  | expression {place : List Around} {s : Stmt} {e : Expr} :
      m.Within place (.stmt s) → e ∈ s.operands → m.Within place (.expr e)
  /-- An operand of an expression. -/
  | operand {place : List Around} {e operand : Expr} :
      m.Within place (.expr e) → operand ∈ e.operands → m.Within place (.expr operand)
  /-- The body of a function without a name. -/
  | function {place : List Around} {parameters : List String} {body : List Stmt} :
      m.Within place (.expr (.function parameters body)) →
      m.Within (.block body :: .function parameters :: place) (.body body)
  /-- The body of a function that is declared. -/
  | declaration {place : List Around} {name : String} {parameters : List String} {body : List Stmt} :
      m.Within place (.stmt (.function name parameters body)) →
      m.Within (.block body :: .function parameters :: place) (.body body)
  /-- A block among statements. -/
  | block {place : List Around} {body : List Stmt} :
      m.Within place (.stmt (.block body)) → m.Within (.block body :: place) (.body body)
  /-- The block that is executed if a test holds. -/
  | thenBody {place : List Around} {test : Expr} {body : List Stmt} {elseBody : Option (List Stmt)} :
      m.Within place (.stmt (.cond test body elseBody)) →
      m.Within (.block body :: place) (.body body)
  /-- The block that is executed if a test does not hold. -/
  | elseBody {place : List Around} {test : Expr} {thenBody body : List Stmt} :
      m.Within place (.stmt (.cond test thenBody (some body))) →
      m.Within (.block body :: place) (.body body)
  /-- What comes first in a loop. -/
  | first {place : List Around} {s : Stmt} {test after : Option Expr} {body : List Stmt} :
      m.Within place (.stmt (.loop (some s) test after body)) →
      m.Within (.loop (some s) :: place) (.stmt s)
  /-- The test of a loop. -/
  | test {place : List Around} {first : Option Stmt} {e : Expr} {after : Option Expr}
      {body : List Stmt} :
      m.Within place (.stmt (.loop first (some e) after body)) →
      m.Within (.loop first :: place) (.expr e)
  /-- What follows each round of a loop. -/
  | after {place : List Around} {first : Option Stmt} {test : Option Expr} {e : Expr}
      {body : List Stmt} :
      m.Within place (.stmt (.loop first test (some e) body)) →
      m.Within (.loop first :: place) (.expr e)
  /-- The body of a loop. -/
  | round {place : List Around} {first : Option Stmt} {test after : Option Expr} {body : List Stmt} :
      m.Within place (.stmt (.loop first test after body)) →
      m.Within (.block body :: .round :: .loop first :: place) (.body body)

namespace Module.Within

variable {m : Module} {place : List Around}

/-- The statements of a block stand in it. -/
theorem exists_block {body : List Stmt} (h : m.Within place (.body body)) :
    ∃ outer, place = .block body :: outer := by
  generalize hpart : Part.body body = part at h
  cases h with
  | statement | expression | operand | first | test | after => cases hpart
  | top | function | declaration | block | thenBody | elseBody | round =>
    obtain rfl := Part.body.inj hpart
    exact ⟨_, rfl⟩

/-- A statement stands where its name is declared. -/
theorem declares {s : Stmt} (h : m.Within place (.stmt s)) {x : String × Binding}
    (hx : s.declares? = some x) : Around.Declared place x.1 := by
  have hnames : ∃ around outer, place = around :: outer ∧ x ∈ around.names := by
    generalize hpart : Part.stmt s = part at h
    cases h with
    | statement hbody hs =>
      obtain rfl := Part.stmt.inj hpart
      obtain ⟨outer, rfl⟩ := hbody.exists_block
      exact ⟨_, outer, rfl, List.mem_filterMap.2 ⟨s, hs, hx⟩⟩
    | first =>
      obtain rfl := Part.stmt.inj hpart
      exact ⟨_, _, rfl, List.mem_filterMap.2 ⟨s, List.mem_singleton.2 rfl, hx⟩⟩
    | _ => cases hpart
  obtain ⟨around, outer, rfl, hmem⟩ := hnames
  refine List.mem_map_of_mem (List.mem_append_left _ ?_)
  exact List.mem_flatMap.2 ⟨around, List.mem_cons_self, hmem⟩

end Module.Within

/-! ## The context of a place -/

namespace Around

/-- The context of a part of something that stands in a context. -/
def inside (c : Context) : Around → Context
  | block body => if (declared body).isEmpty then c else { c with scopes := declared body :: c.scopes }
  | function parameters =>
      { scopes := (function parameters).names :: c.scopes, inLoop := false, inFunction := true }
  | loop first => { c with scopes := (loop first).names :: c.scopes }
  | round => c.asLoop

/-- The context in which the compiler takes what stands at a place. -/
def context (place : List Around) : Context := place.foldr (fun around c => around.inside c) .top

@[simp] theorem context_nil : context [] = .top := rfl

@[simp] theorem context_cons (around : Around) (place : List Around) :
    context (around :: place) = around.inside (context place) := rfl

theorem length_scopes_context (place : List Around) :
    (context place).scopes.length = frames place := by
  induction place with
  | nil => rfl
  | cons around place ih =>
    rw [frames, List.countP_cons]
    cases around with
    | block body =>
      cases hempty : (declared body).isEmpty <;> simp [inside, opens, hempty, ih, frames]
    | function | loop => simp [inside, opens, ih, frames]
    | round => simp [inside, opens, ih, frames, Context.asLoop]

theorem flatten_scopes_context (place : List Around) :
    (context place).scopes.flatten = visible place := by
  induction place with
  | nil => rfl
  | cons around place ih =>
    have hvisible : visible (around :: place) = around.names ++ visible place := by
      simp [visible]
    rw [hvisible, ← ih]
    cases around with
    | block body =>
      rw [context_cons, inside]
      split
      next hempty => rw [names, List.isEmpty_iff.1 hempty, List.nil_append]
      next => rfl
    | function | loop | round => rfl

/-- A block is in the same function and in the same loop as what is around it. -/
theorem inside_block (c : Context) (body : List Stmt) :
    ((block body).inside c).inLoop = c.inLoop ∧
      ((block body).inside c).inFunction = c.inFunction := by
  rw [inside]
  split <;> exact ⟨rfl, rfl⟩

theorem inFunction_context (place : List Around) :
    (context place).inFunction = true ↔ InFunction place := by
  induction place with
  | nil => simp [InFunction, Context.top]
  | cons around place ih =>
    unfold InFunction at ih ⊢
    cases around with
    | block body =>
      rw [context_cons, (inside_block _ body).2, ih]
      simp
    | function parameters => simp [inside]
    | loop | round => simp [inside, Context.asLoop, ih]

/-- Being in a loop goes on inwards, except into functions. -/
theorem inLoop_cons (around : Around) (place : List Around) :
    InLoop (around :: place) ↔
      around = round ∨ (InLoop place ∧ ∀ parameters, around ≠ function parameters) := by
  constructor
  · rintro ⟨_ | ⟨x, inner⟩, outer, heq, hinner⟩
    · exact .inl (List.cons.inj heq).1
    · obtain ⟨rfl, rfl⟩ := List.cons.inj heq
      exact .inr ⟨⟨inner, outer, rfl, fun ps h => hinner ps (List.mem_cons_of_mem _ h)⟩,
        fun ps h => hinner ps (h ▸ List.mem_cons_self)⟩
  · rintro (rfl | ⟨⟨inner, outer, rfl, hinner⟩, hno⟩)
    · exact ⟨[], place, rfl, fun _ => List.not_mem_nil⟩
    · refine ⟨around :: inner, outer, rfl, fun ps h => ?_⟩
      rcases List.mem_cons.1 h with heq | h
      · exact hno ps heq.symm
      · exact hinner ps h

theorem inLoop_context (place : List Around) : (context place).inLoop = true ↔ InLoop place := by
  induction place with
  | nil => simp [InLoop, Context.top]
  | cons around place ih =>
    rw [inLoop_cons]
    cases around with
    | block body =>
      rw [context_cons, (inside_block _ body).1, ih]
      simp
    | function | loop | round => simp [inside, Context.asLoop, ih]

end Around

/-! ### Looking names up -/

theorem Scope.lookup_eq (s : Scope) (name : String) :
    s.lookup name = (s.find? name).map Prod.snd := by
  induction s with
  | nil => rfl
  | cons x rest ih =>
    obtain ⟨name', b⟩ := x
    by_cases hname : name' = name
    · subst hname
      simp [Scope.find?, List.findIdx?_cons]
    · have hne : (name == name') = false := by simpa using fun h => hname h.symm
      rw [List.lookup_cons, hne]
      simp only [ih, Scope.find?, List.findIdx?_cons, hname]
      cases List.findIdx? (fun x => decide (x.1 = name)) rest <;> simp [Option.map_map]
      rfl

/-- The compiler finds the innermost declaration. -/
theorem Context.lookup_flatten (name : String) (scopes : List Scope) :
    scopes.flatten.lookup name = (Context.find? name scopes).map Prod.snd := by
  induction scopes with
  | nil => rfl
  | cons s outer ih =>
    rw [List.flatten_cons, List.lookup_append, Scope.lookup_eq, Context.find?, ih]
    cases s.find? name <;> rfl

namespace Around

variable {place : List Around} {name : String}

theorem binding?_of_resolve {q : Position} {b : Binding}
    (h : (context place).resolve name = .ok (q, b)) : binding? place name = some b := by
  rw [binding?, ← flatten_scopes_context, Context.lookup_flatten]
  unfold Context.resolve at h
  split at h
  next found hfound =>
    rw [hfound, Except.ok.inj h]
    rfl
  next => cases h

theorem declared_iff : Declared place name ↔ ∃ b, binding? place name = some b := by
  rw [Declared, ← Option.isSome_iff_exists, binding?]
  generalize visible place = names
  induction names with
  | nil => simp
  | cons x rest ih =>
    obtain ⟨name', b⟩ := x
    by_cases hname : name = name'
    · simp [hname]
    · rw [List.map_cons, List.mem_cons, List.lookup_cons, beq_false_of_ne hname, ih]
      simp [hname]

/-- A name is refused if it is declared nowhere. -/
theorem of_resolve_error {e : Error} (h : (context place).resolve name = .error e) :
    e = .undefinedIdentifier name ∧ ¬ Declared place name := by
  unfold Context.resolve at h
  split at h
  next => cases h
  next hnone =>
    refine ⟨(Except.error.inj h).symm, fun hdeclared => ?_⟩
    obtain ⟨b, hb⟩ := declared_iff.1 hdeclared
    rw [binding?, ← flatten_scopes_context, Context.lookup_flatten, hnone] at hb
    cases hb

end Around

end ChannelMachine.Source

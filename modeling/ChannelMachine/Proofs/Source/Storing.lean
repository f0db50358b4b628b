import ChannelMachine.Proofs.Code.Format
import ChannelMachine.Proofs.Source.Compiled
import ChannelMachine.Source.Format

/-!
# Compiled programs can be stored

The number literals of a syntax tree that was read from a file are finite and its capacities have 64
bits (`Storable`).  The compiler adds no other literals than its own start values, and its other operands
are places in the code or bounded by what a frame holds.  So a program that was compiled from a file, and
is no longer than a machine word can count, is one that a file can hold (`Module.storable_of_compile`).
-/

namespace ChannelMachine.Source

open Instruction (storable_of_operand storable_of_operands)

/-! ## Trees -/

mutual

/-- All numbers are finite, and all capacities have 64 bits. -/
def Expr.Storable : Expr → Prop
  | .number x => x.binary? ≠ none
  | .text _ | .bool _ | .null | .name _ => True
  | .unary _ e => e.Storable
  | .binary _ l r => l.Storable ∧ r.Storable
  | .logical _ l r => l.Storable ∧ r.Storable
  | .cond test thenExpr elseExpr => test.Storable ∧ thenExpr.Storable ∧ elseExpr.Storable
  | .call f arguments => f.Storable ∧ StorableAll arguments
  | .method receiver _ arguments => receiver.Storable ∧ StorableAll arguments
  | .assign _ value => value.Storable
  | .function _ body => StorableBody body
  | .newChannel capacity => capacity < Json.naturalLimit
  | .receive channel => channel.Storable

/-- All expressions are storable. -/
def StorableAll : List Expr → Prop
  | [] => True
  | e :: rest => e.Storable ∧ StorableAll rest

/-- All numbers are finite, and all capacities have 64 bits. -/
def Stmt.Storable : Stmt → Prop
  | .expr e => e.Storable
  | .var _ _ (some e) => e.Storable
  | .var _ _ none => True
  | .const _ value => value.Storable
  | .function _ _ body => StorableBody body
  | .ret (some e) => e.Storable
  | .ret none => True
  | .cond test thenBody (some elseBody) =>
      test.Storable ∧ StorableBody thenBody ∧ StorableBody elseBody
  | .cond test thenBody none => test.Storable ∧ StorableBody thenBody
  | .loop first test after body =>
      StorableFirst first ∧ StorablePart test ∧ StorablePart after ∧ StorableBody body
  | .breakLoop | .continueLoop => True
  | .spawn e => e.Storable
  | .send channel value => channel.Storable ∧ value.Storable
  | .block body => StorableBody body

/-- All statements are storable. -/
def StorableBody : List Stmt → Prop
  | [] => True
  | s :: rest => s.Storable ∧ StorableBody rest

/-- What comes first in a loop is storable. -/
def StorableFirst : Option Stmt → Prop
  | none => True
  | some s => s.Storable

/-- A part of a loop is storable. -/
def StorablePart : Option Expr → Prop
  | none => True
  | some e => e.Storable

end

/-! ## Code -/

/-- A file can hold all instructions of the code. -/
def Code.Storable (code : Code) : Prop := ∀ i ∈ code, i.Storable

namespace Code.Storable

variable {code code' : Code} {i : Instruction} {base : Nat}

theorem nil : Code.Storable [] := nofun

theorem cons (hi : i.Storable) (h : Code.Storable code) : Code.Storable (i :: code) :=
  List.forall_mem_cons.2 ⟨hi, h⟩

theorem append (h : Code.Storable code) (h' : Code.Storable code') : Code.Storable (code ++ code') :=
  fun i hi => (List.mem_append.1 hi).elim (h i) (h' i)

theorem one (hi : i.Storable) : Code.Storable [i] := cons hi nil

theorem snoc (h : Code.Storable code) (hi : i.Storable) : Code.Storable (code ++ [i]) := h.append (one hi)

theorem returning {tail : Bool} (h : Code.Storable code) :
    Code.Storable (Source.returning tail code) := by
  unfold Source.returning
  split
  · exact h.snoc ⟨nofun, nofun⟩
  · exact h

end Code.Storable

/-! ## Contexts -/

/-- The scopes around are no more than an environment has frames, and none has more names than a
frame has slots. -/
structure Context.Bounded (c : Context) : Prop where
  /-- There are few scopes. -/
  count : c.scopes.length ≤ maxSlots
  /-- Each scope is small. -/
  slots : ∀ s ∈ c.scopes, s.length ≤ maxSlots

theorem maxSlots_lt : maxSlots < Json.naturalLimit := by decide

namespace Context.Bounded

variable {c c' : Context} {s : Scope}

theorem top : Context.top.Bounded := ⟨by decide, fun s hs => by
  obtain rfl := List.mem_singleton.1 hs
  decide⟩

theorem enter (bounded : c.Bounded) {names : List (String × Binding)}
    (hs : Scope.ofNames names = .ok s) (h : c.enter s = .ok c') :
    c'.Bounded ∧ s.length ≤ maxSlots ∧ names.length ≤ maxSlots := by
  obtain ⟨rfl, hle⟩ := Scope.of_ofNames hs
  obtain ⟨rfl, hlt⟩ := Context.of_enter h
  exact ⟨⟨hlt, List.forall_mem_cons.2 ⟨hle, bounded.slots⟩⟩, hle, hle⟩

/-- A position fits the operands of an instruction. -/
theorem position (bounded : c.Bounded) {name : String} {q : Position} {b : Binding}
    (h : c.resolve name = .ok (q, b)) : q.frame < Json.naturalLimit ∧ q.slot < Json.naturalLimit := by
  unfold Context.resolve at h
  split at h
  next found hfind =>
    obtain rfl := Except.ok.inj h
    obtain ⟨slots, hslots, hlt⟩ := Context.has_of_find? hfind
    obtain ⟨hframe, hget⟩ := List.getElem?_eq_some_iff.1 hslots
    rw [List.length_reverse, List.length_map] at hframe
    have hmem : slots ∈ c.scopes.map List.length :=
      List.mem_reverse.1 (hget ▸ List.getElem_mem _)
    obtain ⟨s, hs, rfl⟩ := List.mem_map.1 hmem
    have hcount := bounded.count
    have hsize := bounded.slots s hs
    have hlimit := maxSlots_lt
    exact ⟨by omega, by omega⟩
  next => cases h

end Context.Bounded

/-! ## Blocks, functions and loops -/

/-- The code of a body can be stored wherever the body may stand. -/
def BodyStores (body : List Stmt) : Prop :=
  ∀ {c : Context} {base : Nat} {code : Code}, compileBody c base body = .ok code → c.Bounded →
    base + code.length < Json.naturalLimit → code.Storable

section Blocks

variable {c : Context} {base : Nat} {code test thenCode elseCode : Code} {body : List Stmt}

theorem BodyStores.block (hbody : BodyStores body) {names : List (String × Binding)}
    (h : block c base names (fun c base => compileBody c base body) = .ok code)
    (bounded : c.Bounded) (hlt : base + code.length < Json.naturalLimit) : code.Storable := by
  rcases exists_of_block h with ⟨-, h⟩ | ⟨-, s, c', code', hs, hc', hcode', rfl⟩
  · exact hbody h bounded hlt
  · obtain ⟨bounded', hsize, -⟩ := bounded.enter hs hc'
    rw [List.length_append, List.length_cons] at hlt
    exact .append (.cons (storable_of_operand rfl (hsize.trans_lt maxSlots_lt))
      (hbody hcode' bounded' (by omega))) (.one ⟨nofun, nofun⟩)

theorem BodyStores.function (hbody : BodyStores body) {parameters : List String}
    (h : function c base parameters (fun c base => Source.block c base (declared body) fun c base =>
      compileBody c base body) = .ok code) (bounded : c.Bounded)
    (hlt : base + code.length < Json.naturalLimit) : code.Storable := by
  obtain ⟨s, hs, h⟩ := exists_of_bind h
  obtain ⟨c', hc', h⟩ := exists_of_bind h
  obtain ⟨code', hcode', h⟩ := exists_of_bind h
  obtain rfl := Except.ok.inj h
  obtain ⟨⟨hcount, hslots⟩, -, hsize⟩ := bounded.enter hs hc'
  rw [List.length_map] at hsize
  have hlimit := maxSlots_lt
  simp only [List.length_append, List.length_cons, List.length_nil] at hlt
  refine .append (.cons (storable_of_operands rfl (by omega) (by omega))
    (.cons (storable_of_operand rfl (by omega)) (hbody.block hcode' ⟨hcount, hslots⟩
      (by omega)))) (.cons ⟨nofun, nofun⟩ (.cons (.constant trivial) (.one ⟨nofun, nofun⟩)))

theorem storable_branches (htest : test.Storable) (hthen : thenCode.Storable)
    (helse : elseCode.Storable)
    (hlt : base + (branches base test thenCode elseCode).length < Json.naturalLimit) :
    (branches base test thenCode elseCode).Storable := by
  rw [length_branches] at hlt
  exact .append (.append htest (.cons (storable_of_operand rfl (by omega)) hthen))
    (.cons (storable_of_operand rfl (by omega)) helse)

theorem storable_tailBranches (htest : test.Storable) (hthen : thenCode.Storable)
    (helse : elseCode.Storable)
    (hlt : base + (tailBranches base test thenCode elseCode).length < Json.naturalLimit) :
    (tailBranches base test thenCode elseCode).Storable := by
  rw [length_tailBranches] at hlt
  exact .append (.append htest (.cons (storable_of_operand rfl (by omega)) hthen)) helse

theorem storable_loop {slots : Nat} {first body after : Code} {test : Option Code}
    (hslots : slots ≤ maxSlots) (hfirst : first.Storable) (htest : ∀ code, test = some code → code.Storable)
    (hbody : body.Storable) (hafter : after.Storable)
    (hlt : base + (loop base slots first test body after).length < Json.naturalLimit) :
    (loop base slots first test body after).Storable := by
  have hlimit := maxSlots_lt
  rw [length_loop] at hlt
  have hback : Code.Storable [.jump (base + 1 + first.length), .loopEnd (base + 1 + first.length +
      testLength test + body.length + 1), .exitScope, .constant .undefined] :=
    .cons (storable_of_operand rfl (by omega)) (.cons (storable_of_operand rfl (by omega))
      (.cons ⟨nofun, nofun⟩ (.one (.constant trivial))))
  unfold loop
  refine .append (.append (.append (.append (.cons (storable_of_operand rfl (by omega)) hfirst) ?_) hbody)
    (.cons ⟨nofun, nofun⟩ hafter)) hback
  cases test with
  | none => exact .nil
  | some test => exact (htest test rfl).snoc (storable_of_operand rfl (by omega))

theorem Context.Bounded.declare (bounded : c.Bounded) {name : String} {code' : Code}
    (h : declare c name code = .ok code') (hcode : code.Storable) : code'.Storable := by
  obtain ⟨⟨q, b⟩, hq, h⟩ := exists_of_bind h
  obtain rfl := Except.ok.inj h
  obtain ⟨hframe, hslot⟩ := bounded.position hq
  exact hcode.snoc (storable_of_operands rfl hframe hslot)

end Blocks

theorem storable_startValue (type : Option TypeName) : (startValue type).Storable := by
  rcases type with _ | type
  · exact .constant trivial
  · cases type with
    | waitGroup => exact ⟨nofun, nofun⟩
    | number => exact .constant (by change Number.zero.binary? ≠ none; decide)
    | string => exact .constant trivial
    | bool => exact .constant trivial
    | channel => exact .constant trivial

theorem Method.storable (m : Method) : m.instruction.Storable := by
  cases m <;> exact ⟨nofun, nofun⟩

/-! ## Expressions and statements -/

/-- Each argument has code of its own. -/
theorem Expr.codeLength_pos (e : Expr) (tail : Bool) : 0 < e.codeLength tail := by
  cases e <;> simp only [Expr.codeLength] <;> (try split) <;> omega

theorem length_le_lengthAll (es : List Expr) : es.length ≤ lengthAll es := by
  induction es with
  | nil => exact Nat.zero_le _
  | cons e rest ih =>
    have := e.codeLength_pos false
    rw [lengthAll, List.length_cons]
    omega

mutual

/-- The code of a storable expression can be stored. -/
theorem Expr.storable_compile (e : Expr) {c : Context} {tail : Bool} {base : Nat} {code : Code}
    (h : e.compile c tail base = .ok code) (he : e.Storable) (bounded : c.Bounded)
    (hlt : base + code.length < Json.naturalLimit) : code.Storable := by
  cases e with
  | number x =>
    obtain rfl := Except.ok.inj h
    exact .returning (.one (.constant he))
  | text s =>
    obtain rfl := Except.ok.inj h
    exact .returning (.one (.constant trivial))
  | bool b =>
    obtain rfl := Except.ok.inj h
    exact .returning (.one (.constant trivial))
  | null =>
    obtain rfl := Except.ok.inj h
    exact .returning (.one (.constant trivial))
  | name n =>
    obtain ⟨⟨q, b⟩, hq, h⟩ := exists_of_bind h
    obtain rfl := Except.ok.inj h
    obtain ⟨hframe, hslot⟩ := bounded.position hq
    exact .returning (.one (storable_of_operands rfl hframe hslot))
  | unary op e =>
    obtain ⟨operand, hoperand, h⟩ := exists_of_bind h
    obtain rfl := Except.ok.inj h
    rw [length_returning, List.length_append] at hlt
    exact .returning ((e.storable_compile hoperand he bounded (by omega)).snoc ⟨nofun, nofun⟩)
  | binary op l r =>
    obtain ⟨left, hl, h⟩ := exists_of_bind h
    obtain ⟨right, hr, h⟩ := exists_of_bind h
    obtain rfl := Except.ok.inj h
    rw [length_returning, List.length_append, List.length_append] at hlt
    exact .returning (((l.storable_compile hl he.1 bounded (by omega)).append
      (r.storable_compile hr he.2 bounded (by omega))).snoc ⟨nofun, nofun⟩)
  | logical op l r =>
    obtain ⟨left, hl, h⟩ := exists_of_bind h
    cases op with
    | and =>
      obtain ⟨right, hr, h⟩ := exists_of_bind h
      obtain rfl := Except.ok.inj h
      rw [length_returning] at hlt
      have hlength := length_branches base left right [.constant (.bool false)]
      exact .returning (storable_branches (l.storable_compile hl he.1 bounded (by omega))
        (r.storable_compile hr he.2 bounded (by omega)) (.one (.constant trivial)) (by omega))
    | or =>
      obtain ⟨right, hr, h⟩ := exists_of_bind h
      obtain rfl := Except.ok.inj h
      rw [length_returning] at hlt
      have hlength := length_branches base left [.constant (.bool true)] right
      rw [List.length_singleton] at hlength
      exact .returning (storable_branches (l.storable_compile hl he.1 bounded (by omega))
        (.one (.constant trivial)) (r.storable_compile hr he.2 bounded (by omega)) (by omega))
  | cond test thenExpr elseExpr =>
    obtain ⟨testCode, ht, h⟩ := exists_of_bind h
    obtain ⟨thenCode, hthen, h⟩ := exists_of_bind h
    obtain ⟨hetest, hethen, heelse⟩ := he
    cases tail with
    | true =>
      obtain ⟨elseCode, helse, h⟩ := exists_of_bind h
      obtain rfl := Except.ok.inj h
      have hlength := length_tailBranches base testCode thenCode elseCode
      exact storable_tailBranches (test.storable_compile ht hetest bounded (by omega))
        (thenExpr.storable_compile hthen hethen bounded (by omega))
        (elseExpr.storable_compile helse heelse bounded (by omega)) hlt
    | false =>
      obtain ⟨elseCode, helse, h⟩ := exists_of_bind h
      obtain rfl := Except.ok.inj h
      have hlength := length_branches base testCode thenCode elseCode
      exact storable_branches (test.storable_compile ht hetest bounded (by omega))
        (thenExpr.storable_compile hthen hethen bounded (by omega))
        (elseExpr.storable_compile helse heelse bounded (by omega)) hlt
  | call f arguments =>
    obtain ⟨function, hf, h⟩ := exists_of_bind h
    obtain ⟨values, hvalues, h⟩ := exists_of_bind h
    obtain rfl := Except.ok.inj h
    have hcount := length_le_lengthAll arguments
    rw [← length_compileAll arguments hvalues] at hcount
    rw [List.length_append, List.length_append] at hlt
    refine .snoc ((f.storable_compile hf he.1 bounded (by omega)).append
      (storable_compileAll arguments hvalues he.2 bounded (by omega))) ?_
    cases tail with
    | true => exact storable_of_operand rfl (by omega)
    | false => exact storable_of_operand rfl (by omega)
  | method receiver name arguments =>
    obtain ⟨method, first, values, -, -, hfirst, hvalues, rfl⟩ := exists_of_compile_method h
    rw [length_returning, List.length_append, List.length_append] at hlt
    exact .returning (.snoc ((receiver.storable_compile hfirst he.1 bounded (by omega)).append
      (storable_compileAll arguments hvalues he.2 bounded (by omega))) method.storable)
  | assign name value =>
    obtain ⟨p, code, hp, hcode, rfl⟩ := exists_of_compile_assign h
    obtain ⟨hframe, hslot⟩ := bounded.position hp
    rw [length_returning, List.length_append] at hlt
    exact .returning ((value.storable_compile hcode he bounded (by omega)).snoc
      (storable_of_operands rfl hframe hslot))
  | function parameters body =>
    obtain ⟨code, hcode, h⟩ := exists_of_bind h
    obtain rfl := Except.ok.inj h
    have hbody : BodyStores body := storable_compileBody body he
    rw [length_returning] at hlt
    exact .returning (hbody.function hcode bounded (by omega))
  | newChannel capacity =>
    obtain rfl := Except.ok.inj h
    exact .returning (.one (storable_of_operand rfl he))
  | receive channel =>
    obtain ⟨code, hcode, h⟩ := exists_of_bind h
    obtain rfl := Except.ok.inj h
    rw [length_returning, List.length_append] at hlt
    exact .returning ((channel.storable_compile hcode he bounded (by omega)).snoc ⟨nofun, nofun⟩)

/-- The code of storable expressions can be stored. -/
theorem storable_compileAll (es : List Expr) {c : Context} {base : Nat} {code : Code}
    (h : compileAll c base es = .ok code) (hes : StorableAll es) (bounded : c.Bounded)
    (hlt : base + code.length < Json.naturalLimit) : code.Storable := by
  cases es with
  | nil =>
    obtain rfl := Except.ok.inj h
    exact .nil
  | cons e rest =>
    obtain ⟨first, hfirst, h⟩ := exists_of_bind h
    obtain ⟨others, hothers, h⟩ := exists_of_bind h
    obtain rfl := Except.ok.inj h
    rw [List.length_append] at hlt
    exact (e.storable_compile hfirst hes.1 bounded (by omega)).append
      (storable_compileAll rest hothers hes.2 bounded (by omega))

/-- The code of a storable statement can be stored. -/
theorem Stmt.storable_compile (s : Stmt) {c : Context} {base : Nat} {code : Code}
    (h : s.compile c base = .ok code) (hs : s.Storable) (bounded : c.Bounded)
    (hlt : base + code.length < Json.naturalLimit) : code.Storable := by
  cases s with
  | expr e => exact e.storable_compile h hs bounded hlt
  | var name type value =>
    unfold Stmt.compile at h
    cases value with
    | some e =>
      obtain ⟨code', hcode', h⟩ := exists_of_bind h
      have hlength := length_declare h
      exact bounded.declare h (e.storable_compile hcode' hs bounded (by omega))
    | none => exact bounded.declare h (.one (storable_startValue type))
  | const name value =>
    obtain ⟨code', hcode', h⟩ := exists_of_bind h
    have hlength := length_declare h
    exact bounded.declare h (value.storable_compile hcode' hs bounded (by omega))
  | function name parameters body =>
    obtain ⟨code', hcode', h⟩ := exists_of_bind h
    have hlength := length_declare h
    have hbody : BodyStores body := storable_compileBody body hs
    exact bounded.declare h (hbody.function hcode' bounded (by omega))
  | ret value =>
    obtain ⟨-, h⟩ := of_compile_ret h
    cases value with
    | none =>
      obtain rfl := h
      exact .cons (.constant trivial) (.one ⟨nofun, nofun⟩)
    | some e => exact e.storable_compile h hs bounded hlt
  | cond test thenBody elseBody =>
    unfold Stmt.compile at h
    obtain ⟨testCode, ht, h⟩ := exists_of_bind h
    obtain ⟨thenCode, hthen, h⟩ := exists_of_bind h
    cases elseBody with
    | some body =>
      obtain ⟨hstest, hsthen, hselse⟩ := hs
      obtain ⟨elseCode, helse, h⟩ := exists_of_bind h
      obtain rfl := Except.ok.inj h
      have hthenBody : BodyStores thenBody := storable_compileBody thenBody hsthen
      have helseBody : BodyStores body := storable_compileBody body hselse
      have hlength := length_branches base testCode thenCode elseCode
      exact storable_branches (test.storable_compile ht hstest bounded (by omega))
        (hthenBody.block hthen bounded (by omega)) (helseBody.block helse bounded (by omega)) hlt
    | none =>
      obtain ⟨hstest, hsthen⟩ := hs
      obtain rfl := Except.ok.inj h
      have hthenBody : BodyStores thenBody := storable_compileBody thenBody hsthen
      have hlength := length_branches base testCode thenCode [.constant .undefined]
      exact storable_branches (test.storable_compile ht hstest bounded (by omega))
        (hthenBody.block hthen bounded (by omega)) (.one (.constant trivial)) hlt
  | loop first test after body =>
    obtain ⟨hsfirst, hstest, hsafter, hsbody⟩ := hs
    obtain ⟨s, c', hs, hc', firstCode, testCode, bodyCode, afterCode, parts, rfl⟩ :=
      exists_of_compile_loop h
    obtain ⟨bounded', hslots, -⟩ := bounded.enter hs hc'
    have hlength := length_loop base s.length firstCode testCode bodyCode afterCode
    have hfirst : firstCode.Storable := by
      cases first with
      | none =>
        obtain rfl := parts.first
        exact .nil
      | some first =>
        obtain ⟨code', hcode', rfl⟩ := parts.first
        rw [List.length_append] at hlength
        exact (first.storable_compile hcode' hsfirst bounded' (by omega)).snoc ⟨nofun, nofun⟩
    have htest : ∀ code, testCode = some code → code.Storable := by
      cases test with
      | none =>
        obtain rfl := parts.test
        exact nofun
      | some test =>
        obtain ⟨code', hcode', rfl⟩ := parts.test
        intro code heq
        obtain rfl := Option.some.inj heq
        rw [testLength] at hlength
        exact test.storable_compile hcode' hstest bounded' (by omega)
    have hbodyStores : BodyStores body := storable_compileBody body hsbody
    have hafter : afterCode.Storable := by
      cases after with
      | none =>
        obtain rfl := parts.after
        exact .nil
      | some after =>
        obtain ⟨code', hcode', rfl⟩ := parts.after
        rw [List.length_append] at hlength
        exact (after.storable_compile hcode' hsafter bounded' (by omega)).snoc ⟨nofun, nofun⟩
    exact storable_loop hslots hfirst htest
      (hbodyStores.block parts.body ⟨bounded'.count, bounded'.slots⟩ (by omega)) hafter hlt
  | breakLoop =>
    obtain ⟨-, rfl⟩ := of_compile_breakLoop h
    exact .one ⟨nofun, nofun⟩
  | continueLoop =>
    obtain ⟨-, rfl⟩ := of_compile_continueLoop h
    exact .one ⟨nofun, nofun⟩
  | spawn e =>
    cases e with
    | call f arguments =>
      obtain ⟨function, hf, h⟩ := exists_of_bind h
      obtain ⟨values, hvalues, h⟩ := exists_of_bind h
      obtain rfl := Except.ok.inj h
      have hcount := length_le_lengthAll arguments
      rw [← length_compileAll arguments hvalues] at hcount
      rw [List.length_append, List.length_append] at hlt
      exact ((f.storable_compile hf hs.1 bounded (by omega)).append
        (storable_compileAll arguments hvalues hs.2 bounded (by omega))).append
        (.cons (storable_of_operand rfl (by omega)) (.cons (storable_of_operand rfl (by omega))
          (.one ⟨nofun, nofun⟩)))
    | _ => cases h
  | send channel value =>
    obtain ⟨first, hfirst, h⟩ := exists_of_bind h
    obtain ⟨second, hsecond, h⟩ := exists_of_bind h
    obtain rfl := Except.ok.inj h
    rw [List.length_append, List.length_append] at hlt
    exact ((channel.storable_compile hfirst hs.1 bounded (by omega)).append
      (value.storable_compile hsecond hs.2 bounded (by omega))).snoc ⟨nofun, nofun⟩
  | block body =>
    have hbody : BodyStores body := storable_compileBody body hs
    exact hbody.block h bounded hlt

/-- The code of a storable body can be stored. -/
theorem storable_compileBody (body : List Stmt) (hs : StorableBody body) : BodyStores body := by
  intro c base code h bounded hlt
  match body with
  | [] =>
    obtain rfl := Except.ok.inj h
    exact .one (.constant trivial)
  | [s] => exact s.storable_compile h hs.1 bounded hlt
  | s :: s' :: rest =>
    obtain ⟨first, hfirst, h⟩ := exists_of_bind h
    obtain ⟨others, hothers, h⟩ := exists_of_bind h
    obtain rfl := Except.ok.inj h
    rw [List.length_append, List.length_cons] at hlt
    exact (s.storable_compile hfirst hs.1 bounded (by omega)).append
      (.cons ⟨nofun, nofun⟩ (storable_compileBody (s' :: rest) hs.2 hothers bounded (by omega)))

end

/-! ## Files -/

/-- A number that was read is finite. -/
theorem binary?_of_numberOf? {lexeme : List Char} {x : Number} (h : Json.numberOf? lexeme = some x) :
    x.binary? ≠ none := by
  obtain ⟨bits, hbits, rfl⟩ := Option.map_eq_some_iff.1 h
  have hfinite : ∀ {negative : Bool} {r : Decimal.Ratio}, r.toBits? negative = some bits →
      Decimal.Binary.ofBits? bits ≠ none := by
    intro negative r hr
    unfold Decimal.Ratio.toBits? at hr
    dsimp only at hr
    split at hr
    next hlt =>
      obtain rfl := Option.some.inj hr
      generalize r.nearest = b at hlt
      unfold Decimal.Binary.ofBits?
      dsimp only
      rw [UInt64.toNat_ofNat']
      unfold Decimal.infinityBits Decimal.hiddenBit at hlt
      unfold Decimal.negativeBit Decimal.hiddenBit
      rw [if_neg]
      · split_ifs <;> exact Option.some_ne_none _
      · cases negative <;> simp only [if_true, if_false, Bool.false_eq_true] <;> omega
    next => cases hr
  unfold Decimal.Numeral.toBits? at hbits
  dsimp only at hbits
  split at hbits
  next => exact hfinite hbits
  next =>
    split at hbits
    next => cases hbits
    next => exact hfinite hbits

theorem lt_of_naturalOf? {lexeme : List Char} {n : Nat} (h : Json.naturalOf? lexeme = some n) :
    n < Json.naturalLimit := by
  unfold Json.naturalOf? at h
  split at h
  next =>
    dsimp only at h
    split at h
    next hlt => exact Option.some.inj h ▸ hlt
    next => cases h
  next => cases h

theorem storable_of_double? {j : Json} {x : Number} (h : j.double? = some x) : x.binary? ≠ none := by
  cases j with
  | number lexeme => exact binary?_of_numberOf? h
  | _ => cases h

theorem lt_of_natural? {j : Json} {n : Nat} (h : j.natural? = some n) : n < Json.naturalLimit := by
  cases j with
  | number lexeme => exact lt_of_naturalOf? h
  | _ => cases h

theorem exists_of_required? {α : Type} {read : Json → Option α} {part : Option Json} {x : α}
    (h : Json.required? read part = some x) : ∃ j, read j = some x := by
  cases part with
  | none => cases h
  | some j => exact ⟨j, h⟩

/-- An optional part is missing or was read. -/
theorem of_optional? {α : Type} {read : Json → Option α} {part : Option Json} {x : Option α}
    (h : Json.optional? read part = some x) : x = none ∨ ∃ j y, x = some y ∧ read j = some y := by
  unfold Json.optional? at h
  split at h
  next => exact .inl (Option.some.inj h).symm
  next => exact .inl (Option.some.inj h).symm
  next j _ =>
    obtain ⟨y, hy, rfl⟩ := Option.map_eq_some_iff.1 h
    exact .inr ⟨j, y, rfl, hy⟩

/-- Each item of an array was read. -/
theorem exists_of_mem_mapM {α : Type} {read : Json → Option α} :
    ∀ {items : List Json} {read' : List α}, items.mapM read = some read' →
      ∀ x ∈ read', ∃ j, read j = some x
  | [], _, h, x, hx => by
    obtain rfl := Option.some.inj h
    cases hx
  | j :: items, _, h, x, hx => by
    rw [List.mapM_cons] at h
    obtain ⟨y, hy, h⟩ := Option.bind_eq_some_iff.1 h
    obtain ⟨ys, hys, h⟩ := Option.bind_eq_some_iff.1 h
    obtain rfl := Option.some.inj h
    rcases List.mem_cons.1 hx with rfl | hmem
    · exact ⟨j, hy⟩
    · exact exists_of_mem_mapM hys x hmem

theorem exists_of_itemsOf? {α : Type} {read : Json → Option α} {j : Json} {l : List α}
    (h : j.itemsOf? read = some l) : ∀ x ∈ l, ∃ j, read j = some x := by
  cases j with
  | array items => exact exists_of_mem_mapM h
  | _ => cases h

/-- What was bound to the rest of a reader was read. -/
theorem exists_of_read {α β : Type} {x : Option α} {f : α → Option β} {b : β}
    (h : (x >>= f) = some b) : ∃ a, x = some a ∧ f a = some b := Option.bind_eq_some_iff.1 h

theorem storableAll_of_forall : ∀ {es : List Expr}, (∀ e ∈ es, e.Storable) → StorableAll es
  | [], _ => trivial
  | _ :: _, h => ⟨(List.forall_mem_cons.1 h).1, storableAll_of_forall (List.forall_mem_cons.1 h).2⟩

theorem storableBody_of_forall : ∀ {body : List Stmt}, (∀ s ∈ body, s.Storable) → StorableBody body
  | [], _ => trivial
  | _ :: _, h => ⟨(List.forall_mem_cons.1 h).1, storableBody_of_forall (List.forall_mem_cons.1 h).2⟩

theorem storable_of_plain? {n : Nat} {j : Json} {s : Stmt} (h : Stmt.plain? n j = some s) :
    s.Storable := by
  unfold Stmt.plain? at h
  split at h
  next => exact Option.some.inj h ▸ trivial
  next => exact Option.some.inj h ▸ trivial
  next => cases h

mutual

/-- An expression that was read is storable. -/
theorem Expr.storable_of_ofJson? (n : Nat) {j : Json} {e : Expr} (h : Expr.ofJson? n j = some e) :
    e.Storable := by
  match n with
  | 0 =>
    unfold Expr.ofJson? at h
    split at h
    next => exact Option.some.inj h ▸ trivial
    next => cases h
  | n + 1 =>
    unfold Expr.ofJson? at h
    split at h
    next => exact Option.some.inj h ▸ trivial
    next => exact Option.some.inj h ▸ trivial
    next =>
      obtain ⟨x, hx, rfl⟩ := Option.map_eq_some_iff.1 h
      exact storable_of_double? hx
    next =>
      obtain ⟨x, -, rfl⟩ := Option.map_eq_some_iff.1 h
      trivial
    next =>
      obtain ⟨x, -, rfl⟩ := Option.map_eq_some_iff.1 h
      trivial
    next =>
      obtain ⟨x, -, rfl⟩ := Option.map_eq_some_iff.1 h
      trivial
    next =>
      obtain ⟨x, hx, rfl⟩ := Option.map_eq_some_iff.1 h
      exact lt_of_natural? hx
    next =>
      obtain ⟨e, he, rfl⟩ := Option.map_eq_some_iff.1 h
      have hstorable := e.storable_of_ofJson? n he
      exact hstorable
    next =>
      cases n with
      | zero => cases h
      | succ n =>
        obtain ⟨op, -, h⟩ := exists_of_read h
        obtain ⟨e, he, h⟩ := exists_of_read h
        obtain rfl := Option.some.inj h
        have hstorable := e.storable_of_ofJson? n he
        exact hstorable
    next =>
      cases n with
      | zero => cases h
      | succ n =>
        obtain ⟨op, -, h⟩ := exists_of_read h
        obtain ⟨l, hl, h⟩ := exists_of_read h
        obtain ⟨r, hr, h⟩ := exists_of_read h
        obtain rfl := Option.some.inj h
        exact ⟨l.storable_of_ofJson? n hl, r.storable_of_ofJson? n hr⟩
    next =>
      cases n with
      | zero => cases h
      | succ n =>
        obtain ⟨op, -, h⟩ := exists_of_read h
        obtain ⟨l, hl, h⟩ := exists_of_read h
        obtain ⟨r, hr, h⟩ := exists_of_read h
        obtain rfl := Option.some.inj h
        exact ⟨l.storable_of_ofJson? n hl, r.storable_of_ofJson? n hr⟩
    next =>
      cases n with
      | zero => cases h
      | succ n =>
        obtain ⟨name, -, h⟩ := exists_of_read h
        obtain ⟨e, he, h⟩ := exists_of_read h
        obtain rfl := Option.some.inj h
        have hstorable := e.storable_of_ofJson? n he
        exact hstorable
    next =>
      split at h
      next =>
        obtain ⟨test, htest, h⟩ := exists_of_read h
        obtain ⟨thenExpr, hthenExpr, h⟩ := exists_of_read h
        obtain ⟨elseExpr, helseExpr, h⟩ := exists_of_read h
        obtain rfl := Option.some.inj h
        obtain ⟨_, htest⟩ := exists_of_required? htest
        obtain ⟨_, hthenExpr⟩ := exists_of_required? hthenExpr
        obtain ⟨_, helseExpr⟩ := exists_of_required? helseExpr
        exact ⟨test.storable_of_ofJson? _ htest, thenExpr.storable_of_ofJson? _ hthenExpr, elseExpr.storable_of_ofJson? _ helseExpr⟩
      next => cases h
    next =>
      split at h
      next =>
        obtain ⟨function, hfunction, h⟩ := exists_of_read h
        obtain ⟨arguments, harguments, h⟩ := exists_of_read h
        obtain rfl := Option.some.inj h
        obtain ⟨_, hfunction⟩ := exists_of_required? hfunction
        obtain ⟨_, harguments⟩ := exists_of_required? harguments
        exact ⟨function.storable_of_ofJson? _ hfunction, storableAll_of_argumentsOf? _ harguments⟩
      next => cases h
    next =>
      split at h
      next =>
        obtain ⟨receiver, hreceiver, h⟩ := exists_of_read h
        obtain ⟨method, -, h⟩ := exists_of_read h
        obtain ⟨arguments, harguments, h⟩ := exists_of_read h
        obtain rfl := Option.some.inj h
        obtain ⟨_, hreceiver⟩ := exists_of_required? hreceiver
        obtain ⟨_, harguments⟩ := exists_of_required? harguments
        exact ⟨receiver.storable_of_ofJson? _ hreceiver, storableAll_of_argumentsOf? _ harguments⟩
      next => cases h
    next =>
      split at h
      next =>
        obtain ⟨parameters, -, h⟩ := exists_of_read h
        obtain ⟨body, hbody, h⟩ := exists_of_read h
        obtain rfl := Option.some.inj h
        obtain ⟨_, hbody⟩ := exists_of_required? hbody
        have hstorable := storableBody_of_bodyOf? _ hbody
        exact hstorable
      next => cases h
    next => cases h

/-- Expressions that were read are storable. -/
theorem storableAll_of_argumentsOf? (n : Nat) {j : Json} {es : List Expr}
    (h : argumentsOf? n j = some es) : StorableAll es := by
  match n with
  | 0 => cases h
  | n + 1 =>
    refine storableAll_of_forall fun e he => ?_
    obtain ⟨j, hj⟩ := exists_of_itemsOf? h e he
    exact e.storable_of_ofJson? n hj

/-- A statement that was read is storable. -/
theorem Stmt.storable_of_ofJson? (n : Nat) {j : Json} {s : Stmt} (h : Stmt.ofJson? n j = some s) :
    s.Storable := by
  match n with
  | 0 => exact storable_of_plain? h
  | n + 1 =>
    unfold Stmt.ofJson? at h
    split at h
    next =>
      obtain ⟨e, he, rfl⟩ := Option.map_eq_some_iff.1 h
      have hstorable := e.storable_of_ofJson? n he
      exact hstorable
    next =>
      obtain ⟨value, hvalue, rfl⟩ := Option.map_eq_some_iff.1 h
      rcases of_optional? hvalue with rfl | ⟨_, e, rfl, he⟩
      · trivial
      · have hstorable := e.storable_of_ofJson? n he
        exact hstorable
    next =>
      obtain ⟨e, he, rfl⟩ := Option.map_eq_some_iff.1 h
      have hstorable := e.storable_of_ofJson? n he
      exact hstorable
    next =>
      obtain ⟨body, hbody, rfl⟩ := Option.map_eq_some_iff.1 h
      have hstorable := storableBody_of_bodyOf? n hbody
      exact hstorable
    next =>
      split at h
      next =>
        obtain ⟨name, -, h⟩ := exists_of_read h
        obtain ⟨type, -, h⟩ := exists_of_read h
        obtain ⟨value, hvalue, h⟩ := exists_of_read h
        obtain rfl := Option.some.inj h
        rcases of_optional? hvalue with rfl | ⟨_, e, rfl, he⟩
        · trivial
        · have hstorable := e.storable_of_ofJson? _ he
          exact hstorable
      next => cases h
    next =>
      split at h
      next =>
        obtain ⟨name, -, h⟩ := exists_of_read h
        obtain ⟨value, hvalue, h⟩ := exists_of_read h
        obtain rfl := Option.some.inj h
        obtain ⟨_, hvalue⟩ := exists_of_required? hvalue
        have hstorable := value.storable_of_ofJson? _ hvalue
        exact hstorable
      next => cases h
    next =>
      split at h
      next =>
        obtain ⟨name, -, h⟩ := exists_of_read h
        obtain ⟨parameters, -, h⟩ := exists_of_read h
        obtain ⟨body, hbody, h⟩ := exists_of_read h
        obtain rfl := Option.some.inj h
        obtain ⟨_, hbody⟩ := exists_of_required? hbody
        have hstorable := storableBody_of_bodyOf? _ hbody
        exact hstorable
      next => cases h
    next =>
      split at h
      next =>
        obtain ⟨test, htest, h⟩ := exists_of_read h
        obtain ⟨thenBody, hthen, h⟩ := exists_of_read h
        obtain ⟨elseBody, helse, h⟩ := exists_of_read h
        obtain rfl := Option.some.inj h
        obtain ⟨_, htest⟩ := exists_of_required? htest
        obtain ⟨_, hthen⟩ := exists_of_required? hthen
        rcases of_optional? helse with rfl | ⟨_, body, rfl, hbody⟩
        · exact ⟨test.storable_of_ofJson? _ htest, storableBody_of_bodyOf? _ hthen⟩
        · exact ⟨test.storable_of_ofJson? _ htest, storableBody_of_bodyOf? _ hthen,
            storableBody_of_bodyOf? _ hbody⟩
      next => cases h
    next =>
      split at h
      next m _ _ _ _ _ =>
        obtain ⟨first, hfirst, h⟩ := exists_of_read h
        obtain ⟨test, htest, h⟩ := exists_of_read h
        obtain ⟨after, hafter, h⟩ := exists_of_read h
        obtain ⟨body, hbody, h⟩ := exists_of_read h
        obtain rfl := Option.some.inj h
        obtain ⟨_, hbody⟩ := exists_of_required? hbody
        have hpart : ∀ {part : Option Json} {e : Option Expr},
            Json.optional? (Expr.ofJson? m) part = some e → StorablePart e := by
          intro part e h
          rcases of_optional? h with rfl | ⟨_, e, rfl, he⟩
          · trivial
          · exact e.storable_of_ofJson? m he
        refine ⟨?_, hpart htest, hpart hafter, storableBody_of_bodyOf? _ hbody⟩
        rcases of_optional? hfirst with rfl | ⟨_, s, rfl, hs⟩
        · trivial
        · exact s.storable_of_ofJson? _ hs
      next => cases h
    next =>
      split at h
      next =>
        obtain ⟨channel, hchannel, h⟩ := exists_of_read h
        obtain ⟨value, hvalue, h⟩ := exists_of_read h
        obtain rfl := Option.some.inj h
        obtain ⟨_, hchannel⟩ := exists_of_required? hchannel
        obtain ⟨_, hvalue⟩ := exists_of_required? hvalue
        exact ⟨channel.storable_of_ofJson? _ hchannel, value.storable_of_ofJson? _ hvalue⟩
      next => cases h
    next => exact storable_of_plain? h

/-- Statements that were read are storable. -/
theorem storableBody_of_bodyOf? (n : Nat) {j : Json} {body : List Stmt}
    (h : bodyOf? n j = some body) : StorableBody body := by
  match n with
  | 0 => cases h
  | n + 1 =>
    refine storableBody_of_forall fun s hs => ?_
    obtain ⟨j, hj⟩ := exists_of_itemsOf? h s hs
    exact s.storable_of_ofJson? n hj

end

/-! ## Modules -/

/-- A program that was compiled from a file can be stored, if its instructions can be counted. -/
theorem Module.storable_of_compile {text : String} {m : Module} {program : Program}
    (hread : Module.ofText? text = some m) (h : m.compile = .ok program)
    (hlt : program.code.size < Json.naturalLimit) : program.Storable := by
  obtain ⟨j, -, hj⟩ := Option.bind_eq_some_iff.1 hread
  have hm : StorableBody m.body := by
    unfold Module.ofJson? at hj
    split at hj
    next =>
      obtain ⟨body, hbody, rfl⟩ := Option.map_eq_some_iff.1 hj
      exact storableBody_of_bodyOf? _ hbody
    next => cases hj
  obtain ⟨code, hcode, h⟩ := exists_of_bind h
  obtain rfl := Except.ok.inj h
  have hbody : BodyStores m.body := storable_compileBody m.body hm
  rw [List.size_toArray, List.length_append, List.length_singleton] at hlt
  have hstorable := (hbody.block hcode .top (by omega)).snoc (i := .halt) ⟨nofun, nofun⟩
  intro i hi
  exact hstorable i (List.mem_toArray.1 hi)

end ChannelMachine.Source

import Mathlib.Data.List.Nodup
import ChannelMachine.Proofs.Source.Compiled
import ChannelMachine.Proofs.Source.Laying

/-!
# Names are resolved to rooms

The scopes that the compiler keeps are the names of the rooms: the code of every expression and every
statement can be laid out from rooms with these names.  A position leads to the slot of the name that
was looked up, an assignment is to a variable, and a declaration is that of the next name of the
innermost room.  The proof goes by the syntax tree, one case for each constructor.

A module that compiles has a layout (`Module.exists_layout`).
-/

namespace ChannelMachine.Source

/-! ## Looking names up -/

/-- The slot that is found is one of the name. -/
theorem Scope.getElem?_of_find? {s : Scope} {name : String} {slot : Nat} {b : Binding}
    (h : s.find? name = some (slot, b)) : s[slot]? = some (name, b) := by
  unfold Scope.find? at h
  split at h
  next i hi =>
    obtain ⟨⟨name', b'⟩, hget, heq⟩ := Option.map_eq_some_iff.1 h
    obtain ⟨rfl, rfl⟩ := Prod.mk.inj heq
    obtain ⟨hlt, hname, -⟩ := List.findIdx?_eq_some_iff_getElem.1 hi
    obtain ⟨_, heq⟩ := List.getElem?_eq_some_iff.1 hget
    rw [heq] at hname
    exact hget.trans (congrArg some (Prod.ext (of_decide_eq_true hname) rfl))
  next => cases h

/-- A name that stands in a scope once is found where it stands. -/
theorem Scope.find?_of_getElem? {s : Scope} (nodup : (s.map Prod.fst).Nodup) {name : String}
    {slot : Nat} {b : Binding} (h : s[slot]? = some (name, b)) :
    s.find? name = some (slot, b) := by
  obtain ⟨hlt, heq⟩ := List.getElem?_eq_some_iff.1 h
  have hfind : s.findIdx? (fun x => decide (x.1 = name)) = some slot := by
    refine List.findIdx?_eq_some_iff_getElem.2 ⟨hlt, by simp [heq], fun j hj => ?_⟩
    simp only [decide_eq_true_eq]
    intro hname
    have hlt' : j < (s.map Prod.fst).length := by simpa using Nat.lt_trans hj hlt
    have hlt'' : slot < (s.map Prod.fst).length := by simpa using hlt
    have hsame := (@List.Nodup.getElem_inj_iff _ _ nodup j hlt' slot hlt'').1 (by simp [hname, heq])
    exact absurd hsame (Nat.ne_of_lt hj)
  rw [Scope.find?, hfind]
  simp [h]

/-- A scope has each name once. -/
theorem Scope.nodup_of_ofNames {names : List (String × Binding)} {s : Scope}
    (h : Scope.ofNames names = .ok s) : (s.map Prod.fst).Nodup := by
  have hnodup : ∀ (l : Scope) (seen : List String), Scope.repeated? seen l = none →
      (l.map Prod.fst).Nodup ∧ ∀ name ∈ l.map Prod.fst, name ∉ seen := by
    intro l
    induction l with
    | nil => exact fun _ _ => ⟨List.nodup_nil, by simp⟩
    | cons x rest ih =>
      obtain ⟨name, b⟩ := x
      intro seen hnone
      unfold Scope.repeated? at hnone
      split at hnone
      next => cases hnone
      next hnew =>
        obtain ⟨hrest, hseen⟩ := ih _ hnone
        refine ⟨List.nodup_cons.2 ⟨fun hmem => hseen name hmem (List.mem_cons_self ..), hrest⟩, ?_⟩
        rintro name' hmem
        rcases List.mem_cons.1 hmem with rfl | hmem
        · exact hnew
        · exact fun h => hseen name' hmem (List.mem_cons_of_mem _ h)
  unfold Scope.ofNames at h
  split at h
  next => cases h
  next =>
    split at h
    next => cases h
    next hnone =>
      obtain rfl := Except.ok.inj h
      exact (hnodup _ _ hnone).1

/-- The names of the rooms are the scopes of the compiler. -/
def Sees (c : Context) (φ : Site) : Prop := φ.rooms.map Room.names = c.scopes

namespace Sees

variable {c c' : Context} {φ : Site} {s : Scope}

theorem advance (sees : Sees c φ) (n : Nat) : Sees c (φ.advance n) := by
  obtain ⟨_ | ⟨room, outer⟩, loop⟩ := φ <;> exact sees

theorem map_settle (sees : Sees c φ) : (φ.rooms.map Room.settle).map Room.names = c.scopes := by
  rw [List.map_map]
  exact sees

/-- The position of a name leads to its slot. -/
theorem names (sees : Sees c φ) {name : String} {q : Position} {b : Binding}
    (h : c.resolve name = .ok (q, b)) : φ.Names q name b := by
  have hfind : Context.find? name (φ.rooms.map Room.names) = some (q, b) := by
    unfold Context.resolve at h
    rw [sees]
    split at h
    next found hfound =>
      rw [hfound, Except.ok.inj h]
    next => cases h
  unfold Site.Names
  generalize φ.rooms = rooms at hfind
  induction rooms with
  | nil => cases hfind
  | cons room outer ih =>
    rw [List.map_cons, Context.find?] at hfind
    split at hfind
    next slot b' hslot =>
      obtain ⟨rfl, rfl⟩ := Prod.mk.inj (Option.some.inj hfind)
      refine ⟨room, ?_, Scope.getElem?_of_find? hslot⟩
      simp
    next =>
      obtain ⟨found, hframe, hname⟩ := ih hfind
      refine ⟨found, ?_, hname⟩
      rw [List.reverse_cons, List.getElem?_append_left (List.getElem?_eq_some_iff.1 hframe).1, hframe]

/-- A name of the innermost room is found there. -/
theorem resolve (sees : Sees c φ) {room : Room} {outer : List Room}
    (hrooms : φ.rooms = room :: outer) (nodup : (room.names.map Prod.fst).Nodup) {name : String}
    {slot : Nat} {b : Binding} (h : room.names[slot]? = some (name, b)) :
    c.resolve name = .ok (⟨outer.length, slot⟩, b) := by
  have hscopes : c.scopes = room.names :: outer.map Room.names := by
    rw [← sees, hrooms, List.map_cons]
  rw [Context.resolve, hscopes, Context.find?, Scope.find?_of_getElem? nodup h]
  simp

/-- A scope that is entered. -/
theorem enter (sees : Sees c φ) {names : List (String × Binding)}
    (hs : Scope.ofNames names = .ok s) (h : c.enter s = .ok c') :
    c' = { c with scopes := s :: c.scopes } ∧ s = names ∧ (names.map Prod.fst).Nodup ∧
      (∀ pc, Sees c' (φ.enter pc names)) ∧ (∀ place, Sees c' (φ.enterLoop place names)) ∧
      Sees c'.asFunction (φ.entry names) := by
  have hnodup := Scope.nodup_of_ofNames hs
  obtain ⟨rfl, -⟩ := Scope.of_ofNames hs
  obtain ⟨rfl, -⟩ := Context.of_enter h
  exact ⟨rfl, rfl, hnodup, fun _ => congrArg (s :: ·) sees, fun _ => congrArg (s :: ·) sees,
    congrArg (s :: ·) sees.map_settle⟩

end Sees

/-! ## Declaring names -/

/-- Names take the next slots of the innermost room. -/
def Takes (φ : Site) (start slot : Nat) (names : List (String × Binding)) : Prop :=
  ∀ k x, names[k]? = some x → ∃ room outer, φ.rooms = room :: outer ∧ room.origin = .scope start ∧
    room.passed = slot ∧ room.names[slot + k]? = some x ∧ (room.names.map Prod.fst).Nodup

namespace Takes

variable {φ : Site} {start slot : Nat} {names later : List (String × Binding)}

theorem nil (φ : Site) (start slot : Nat) : Takes φ start slot [] := by
  intro k x h
  simp at h

theorem left (takes : Takes φ start slot (names ++ later)) : Takes φ start slot names := by
  intro k x h
  exact takes k x (by rw [List.getElem?_append_left (List.getElem?_eq_some_iff.1 h).1, h])

theorem right (takes : Takes φ start slot (names ++ later)) :
    Takes (φ.advance names.length) start (slot + names.length) later := by
  intro k x h
  obtain ⟨room, outer, hrooms, horigin, hpassed, hname, nodup⟩ := takes (names.length + k) x (by
    rw [List.getElem?_append_right (Nat.le_add_right _ _), Nat.add_sub_cancel_left, h])
  refine ⟨room.advance names.length, outer, ?_, horigin, congrArg (· + _) hpassed, ?_, nodup⟩
  · rw [Site.advance, hrooms]
  · rw [Nat.add_assoc]
    exact hname

theorem opened (pc : Nat) (nodup : (names.map Prod.fst).Nodup) (loop : Option Inside)
    (outer : List Room) : Takes ⟨.opened pc names :: outer, loop⟩ pc 0 names :=
  fun k _ h => ⟨_, outer, rfl, rfl, rfl, (Nat.zero_add k).symm ▸ h, nodup⟩

end Takes

/-- A statement lists the name that it declares. -/
theorem Stmt.lists (s : Stmt) (start slot base : Nat) (x : String × Binding)
    (h : s.declares? = some x) :
    ∃ index, ⟨start, slot, x.1, x.2, index⟩ ∈ s.declarations start slot base := by
  cases s with
  | var name type value =>
    obtain rfl := Option.some.inj h
    cases value with
    | none => exact ⟨_, List.mem_singleton.2 rfl⟩
    | some e => exact ⟨_, List.mem_append_right _ (List.mem_singleton.2 rfl)⟩
  | const name value =>
    obtain rfl := Option.some.inj h
    exact ⟨_, List.mem_append_right _ (List.mem_singleton.2 rfl)⟩
  | function name parameters body =>
    obtain rfl := Option.some.inj h
    exact ⟨_, List.mem_append_right _ (List.mem_singleton.2 rfl)⟩
  | _ => cases h

/-- The statements of a block list the names that it declares. -/
theorem lists_body (start : Nat) (body : List Stmt) : ∀ (slot base k : Nat) (x : String × Binding),
    (declared body)[k]? = some x →
    ∃ index, ⟨start, slot + k, x.1, x.2, index⟩ ∈ bodyDeclarations start slot base body := by
  induction body with
  | nil =>
    intro slot base k x h
    cases h
  | cons s rest ih =>
    intro slot base k x h
    rw [declared_cons] at h
    rw [bodyDeclarations]
    by_cases hk : k < s.declares?.toList.length
    · rw [List.getElem?_append_left hk] at h
      cases hs : s.declares? with
      | none => rw [hs] at hk; cases hk
      | some y =>
        rw [hs] at h hk
        obtain rfl : k = 0 := Nat.lt_one_iff.1 hk
        obtain rfl := Option.some.inj h
        obtain ⟨index, hindex⟩ := s.lists start slot base _ hs
        exact ⟨index, List.mem_append_left _ hindex⟩
    · rw [List.getElem?_append_right (Nat.not_lt.1 hk)] at h
      obtain ⟨index, hindex⟩ := ih (slot + s.declares?.toList.length) (base + s.codeLength + 1) _ _ h
      rw [show slot + s.declares?.toList.length + (k - s.declares?.toList.length) = slot + k by
        omega] at hindex
      exact ⟨index, List.mem_append_right _ hindex⟩

/-- A part that declares nothing. -/
theorem Lays.still {table : List Declaration} {inLoop : Bool} {base : Nat} {code : Code}
    {around : Enclosing} {φ : Site} (lays : Lays table inLoop base code around φ φ) :
    Lays table inLoop base code around φ (φ.advance 0) := φ.advance_zero.symm ▸ lays

/-- An operand is dropped. -/
theorem Lays.pop {table : List Declaration} {inLoop : Bool} {base : Nat} {φ : Site}
    {w : Option Inside} (hw : φ.loop = w) : Lays table inLoop base [.pop] [w] φ φ :=
  hw ▸ .simple rfl φ

/-! ## Blocks and functions -/

section

variable {table : List Declaration}

/-- The code of a body can be laid out wherever the body may stand. -/
def BodyLays (table : List Declaration) (body : List Stmt) : Prop :=
  ∀ {c : Context} {base : Nat} {code : Code} {φ : Site} {start slot : Nat},
    compileBody c base body = .ok code → Sees c φ → Takes φ start slot (declared body) →
    bodyDeclarations start slot base body ⊆ table →
    Lays table c.inLoop base code (bodyEnclosing base φ.loop body) φ
      (φ.advance (declared body).length)

section Blocks

variable {c : Context} {base : Nat} {code : Code} {φ : Site} {body : List Stmt}

theorem BodyLays.block (hbody : BodyLays table body)
    (h : block c base (declared body) (fun c base => compileBody c base body) = .ok code)
    (sees : Sees c φ)
    (listed : blockDeclarations (declared body) base (fun start base =>
      bodyDeclarations start 0 base body) ⊆ table) :
    Lays table c.inLoop base code (blockIn (declared body) base φ.loop fun base w =>
      bodyEnclosing base w body) φ φ := by
  unfold blockIn
  unfold blockDeclarations at listed
  rcases exists_of_block h with ⟨hempty, h⟩ | ⟨hnames, s, c', code', hs, hc', hcode', rfl⟩
  · rw [if_pos hempty] at listed ⊢
    have hnil := List.isEmpty_iff.1 hempty
    have htakes : Takes φ base 0 (declared body) := hnil ▸ .nil φ base 0
    have lays := hbody h sees htakes listed
    rw [hnil, List.length_nil, Site.advance_zero] at lays
    exact lays
  · rw [if_neg hnames] at listed ⊢
    obtain ⟨rfl, rfl, nodup, hinside, -, -⟩ := sees.enter hs hc'
    refine .scope (fun slot x hx => ?_) (hbody hcode' (hinside base) (.opened base nodup _ _) listed)
    obtain ⟨index, hindex⟩ := lists_body base body 0 (base + 1) slot x hx
    exact ⟨index, listed (Nat.zero_add slot ▸ hindex)⟩

theorem BodyLays.function (hbody : BodyLays table body) {parameters : List String}
    (h : function c base parameters (fun c base => Source.block c base (declared body) fun c base =>
      compileBody c base body) = .ok code) (sees : Sees c φ)
    (listed : blockDeclarations (declared body) (base + 2) (fun start base =>
      bodyDeclarations start 0 base body) ⊆ table) :
    Lays table false base code (functionIn base φ.loop fun base w => blockIn (declared body) base w
      fun base w => bodyEnclosing base w body) φ φ := by
  obtain ⟨s, hs, h⟩ := exists_of_bind h
  obtain ⟨c', hc', h⟩ := exists_of_bind h
  obtain ⟨code', hcode', h⟩ := exists_of_bind h
  obtain rfl := Except.ok.inj h
  obtain ⟨rfl, -, -, -, -, hentry⟩ := sees.enter hs hc'
  have hlen : (parameters.map (·, Binding.variable)).length = parameters.length := List.length_map ..
  rw [← hlen]
  refine .function (fun name hname => ?_) (hbody.block hcode' hentry listed)
  obtain ⟨_, -, rfl⟩ := List.mem_map.1 hname
  rfl

end Blocks

/-! ## Expressions and statements -/

theorem Method.isSimple (m : Method) : m.instruction.isSimple = true := by
  cases m <;> rfl

theorem isSimple_startValue (type : Option TypeName) : (startValue type).isSimple = true := by
  rcases type with _ | type
  · rfl
  · cases type <;> rfl

/-- A name is declared behind its value. -/
theorem Takes.declare {c : Context} {φ : Site} {start slot : Nat} {name : String} {b : Binding}
    (takes : Takes φ start slot [(name, b)]) (sees : Sees c φ) {base : Nat} {code code' : Code}
    {around : Enclosing} (hcode : Lays table false base code around φ φ)
    (h : declare c name code = .ok code')
    (listed : ⟨start, slot, name, b, base + code.length⟩ ∈ table) :
    Lays table false base code' (around ++ [φ.loop]) φ (φ.advance 1) := by
  obtain ⟨room, outer, hrooms, horigin, rfl, hname, nodup⟩ := takes 0 _ rfl
  obtain ⟨⟨q, b'⟩, hq, h⟩ := exists_of_bind h
  obtain rfl := Except.ok.inj h
  obtain ⟨rfl, -⟩ := Prod.mk.inj (Except.ok.inj (hq.symm.trans (sees.resolve hrooms nodup hname)))
  refine hcode.snoc ?_
  obtain ⟨rooms, loop⟩ := φ
  obtain rfl : rooms = room :: outer := hrooms
  exact .one fun layout next => .declare horigin hname listed next

mutual

/-- An expression leaves the rooms as they are. -/
theorem Expr.lays (e : Expr) {c : Context} {tail : Bool} {base : Nat} {code : Code} {φ : Site}
    (h : e.compile c tail base = .ok code) (sees : Sees c φ)
    (listed : e.declarations tail base ⊆ table) :
    Lays table false base code (e.enclosing tail base φ.loop) φ φ := by
  cases e with
  | number | text | bool | null | newChannel =>
    obtain rfl := Except.ok.inj h
    exact .returning (.simple rfl φ) tail
  | name n =>
    obtain ⟨⟨q, b⟩, hq, h⟩ := exists_of_bind h
    obtain rfl := Except.ok.inj h
    exact .returning (.simple rfl φ) tail
  | unary op e =>
    obtain ⟨operand, he, h⟩ := exists_of_bind h
    obtain rfl := Except.ok.inj h
    exact .returning ((e.lays he sees listed).snoc (.simple rfl φ)) tail
  | binary op l r =>
    obtain ⟨left, hl, h⟩ := exists_of_bind h
    obtain ⟨right, hr, h⟩ := exists_of_bind h
    obtain rfl := Except.ok.inj h
    rw [Expr.declarations, List.append_subset] at listed
    rw [Expr.enclosing]
    rw [← l.length_compile hl] at listed ⊢
    have both := (l.lays hl sees listed.1).append (r.lays hr sees listed.2) nofun
    exact .returning (both.snoc (.simple rfl φ)) tail
  | logical op l r =>
    obtain ⟨left, hl, h⟩ := exists_of_bind h
    cases op with
    | and =>
      obtain ⟨right, hr, h⟩ := exists_of_bind h
      obtain rfl := Except.ok.inj h
      rw [Expr.declarations, List.append_subset] at listed
      rw [Expr.enclosing]
      rw [← l.length_compile hl] at listed ⊢
      exact .returning (.branches (l.lays hl sees listed.1) (r.lays hr sees listed.2)
        (.simple rfl φ)) tail
    | or =>
      obtain ⟨right, hr, h⟩ := exists_of_bind h
      obtain rfl := Except.ok.inj h
      rw [Expr.declarations, List.append_subset] at listed
      rw [Expr.enclosing]
      rw [← l.length_compile hl] at listed ⊢
      exact .returning (.branches (l.lays hl sees listed.1) (.simple rfl φ)
        (r.lays hr sees listed.2)) tail
  | cond test thenExpr elseExpr =>
    obtain ⟨testCode, ht, h⟩ := exists_of_bind h
    obtain ⟨thenCode, hthen, h⟩ := exists_of_bind h
    rw [Expr.declarations, List.append_subset, List.append_subset] at listed
    rw [Expr.enclosing]
    rw [← test.length_compile ht, ← thenExpr.length_compile hthen] at listed ⊢
    obtain ⟨⟨tlisted, hlisted⟩, elisted⟩ := listed
    have htest := test.lays ht sees tlisted
    have hthen := thenExpr.lays hthen sees hlisted
    cases tail with
    | true =>
      obtain ⟨elseCode, helse, h⟩ := exists_of_bind h
      obtain rfl := Except.ok.inj h
      exact .tailBranches htest hthen (elseExpr.lays helse sees elisted)
    | false =>
      obtain ⟨elseCode, helse, h⟩ := exists_of_bind h
      obtain rfl := Except.ok.inj h
      exact .branches htest hthen (elseExpr.lays helse sees elisted)
  | call f arguments =>
    obtain ⟨function, hf, h⟩ := exists_of_bind h
    obtain ⟨values, hvalues, h⟩ := exists_of_bind h
    obtain rfl := Except.ok.inj h
    rw [Expr.declarations, List.append_subset] at listed
    rw [Expr.enclosing]
    rw [← f.length_compile hf] at listed ⊢
    have both := (f.lays hf sees listed.1).append (compileAll_lays arguments hvalues sees listed.2)
      nofun
    cases tail with
    | true => exact both.snoc (.last rfl φ φ)
    | false => exact both.snoc (.simple rfl φ)
  | method receiver name arguments =>
    obtain ⟨method, first, values, -, -, hfirst, hvalues, rfl⟩ := exists_of_compile_method h
    rw [Expr.declarations, List.append_subset] at listed
    rw [Expr.enclosing]
    rw [← receiver.length_compile hfirst] at listed ⊢
    have both := (receiver.lays hfirst sees listed.1).append
      (compileAll_lays arguments hvalues sees listed.2) nofun
    exact .returning (both.snoc (.simple method.isSimple φ)) tail
  | assign name value =>
    obtain ⟨p, code, hp, hcode, rfl⟩ := exists_of_compile_assign h
    exact .returning ((value.lays hcode sees listed).snoc
      (.one fun _ next => .assign (sees.names hp) next)) tail
  | function parameters body =>
    obtain ⟨code, hcode, h⟩ := exists_of_bind h
    obtain rfl := Except.ok.inj h
    have hbody : BodyLays table body := compileBody_lays body
    exact .returning (hbody.function hcode sees listed) tail
  | receive channel =>
    obtain ⟨code, hcode, h⟩ := exists_of_bind h
    obtain rfl := Except.ok.inj h
    exact .returning ((channel.lays hcode sees listed).snoc (.simple rfl φ)) tail

/-- Expressions leave the rooms as they are. -/
theorem compileAll_lays (es : List Expr) {c : Context} {base : Nat} {code : Code} {φ : Site}
    (h : compileAll c base es = .ok code) (sees : Sees c φ)
    (listed : declarationsAll base es ⊆ table) :
    Lays table false base code (enclosingAll base φ.loop es) φ φ := by
  cases es with
  | nil =>
    obtain rfl := Except.ok.inj h
    exact .nil base φ
  | cons e rest =>
    obtain ⟨first, hfirst, h⟩ := exists_of_bind h
    obtain ⟨others, hothers, h⟩ := exists_of_bind h
    obtain rfl := Except.ok.inj h
    rw [declarationsAll, List.append_subset] at listed
    rw [enclosingAll]
    rw [← e.length_compile hfirst] at listed ⊢
    exact (e.lays hfirst sees listed.1).append (compileAll_lays rest hothers sees listed.2) nofun

/-- A statement passes the name that it declares. -/
theorem Stmt.lays (s : Stmt) {c : Context} {base : Nat} {code : Code} {φ : Site} {start slot : Nat}
    (h : s.compile c base = .ok code) (sees : Sees c φ)
    (takes : Takes φ start slot s.declares?.toList)
    (listed : s.declarations start slot base ⊆ table) :
    Lays table c.inLoop base code (s.enclosing base φ.loop) φ
      (φ.advance s.declares?.toList.length) := by
  cases s with
  | expr e => exact ((e.lays h sees listed).mono nofun).still
  | var name type value =>
    unfold Stmt.compile at h
    cases value with
    | some e =>
      obtain ⟨code', hcode', h⟩ := exists_of_bind h
      rw [Stmt.declarations, List.append_subset] at listed
      rw [← e.length_compile hcode'] at listed
      exact (takes.declare sees (e.lays hcode' sees listed.1) h
        (listed.2 (List.mem_singleton.2 rfl))).mono nofun
    | none =>
      exact (takes.declare sees (.simple (isSimple_startValue type) φ) h
        (listed (List.mem_singleton.2 rfl))).mono nofun
  | const name value =>
    obtain ⟨code', hcode', h⟩ := exists_of_bind h
    rw [Stmt.declarations, List.append_subset] at listed
    rw [← value.length_compile hcode'] at listed
    exact (takes.declare sees (value.lays hcode' sees listed.1) h
      (listed.2 (List.mem_singleton.2 rfl))).mono nofun
  | function name parameters body =>
    obtain ⟨code', hcode', h⟩ := exists_of_bind h
    have hbody : BodyLays table body := compileBody_lays body
    have hlen := length_function (length_block (length_compileBody body)) hcode'
    rw [Stmt.declarations, List.append_subset, Nat.add_assoc, ← hlen] at listed
    exact (takes.declare sees (hbody.function hcode' sees listed.1) h
      (listed.2 (List.mem_singleton.2 rfl))).mono nofun
  | ret value =>
    obtain ⟨-, h⟩ := of_compile_ret h
    cases value with
    | none =>
      obtain rfl := h
      have hboth : Lays table c.inLoop base ([.constant .undefined] ++ [.ret])
          ([φ.loop] ++ [φ.loop]) φ φ :=
        (Lays.simple rfl φ).append (.last rfl φ φ) fun _ => .refl φ
      exact hboth.still
    | some e => exact ((e.lays h sees listed).mono nofun).still
  | cond test thenBody elseBody =>
    refine Lays.still ?_
    unfold Stmt.compile at h
    obtain ⟨testCode, ht, h⟩ := exists_of_bind h
    obtain ⟨thenCode, hthen, h⟩ := exists_of_bind h
    have hthenBody : BodyLays table thenBody := compileBody_lays thenBody
    have hlen := test.length_compile ht
    have hlen' := length_block (length_compileBody thenBody) hthen
    cases elseBody with
    | some body =>
      obtain ⟨elseCode, helse, h⟩ := exists_of_bind h
      obtain rfl := Except.ok.inj h
      rw [Stmt.declarations, List.append_subset, List.append_subset] at listed
      rw [Stmt.enclosing]
      rw [← hlen, ← hlen'] at listed ⊢
      obtain ⟨⟨tlisted, hlisted⟩, elisted⟩ := listed
      have helseBody : BodyLays table body := compileBody_lays body
      exact .branches (test.lays ht sees tlisted) (hthenBody.block hthen sees hlisted)
        (helseBody.block helse sees elisted)
    | none =>
      obtain rfl := Except.ok.inj h
      rw [Stmt.declarations, List.append_subset] at listed
      rw [Stmt.enclosing]
      rw [← hlen] at listed ⊢
      exact .branches (test.lays ht sees listed.1) (hthenBody.block hthen sees listed.2)
        (.simple rfl φ)
  | loop first test after body =>
    refine Lays.still ?_
    obtain ⟨s, c', hs, hc', firstCode, testCode, bodyCode, afterCode, parts, rfl⟩ :=
      exists_of_compile_loop h
    obtain ⟨rfl, rfl, nodup, -, hinside, -⟩ := sees.enter hs hc'
    obtain ⟨place, hplace, henclosing⟩ := parts.exists_place φ.loop
    have hstart : place.start = base := congrArg LoopPlace.start hplace
    simp only [Stmt.declarations, ← length_opening first parts.first, ← length_test test parts.test,
      ← length_block (length_compileBody body) parts.body, List.append_subset] at listed
    obtain ⟨⟨⟨flisted, tlisted⟩, blisted⟩, alisted⟩ := listed
    rw [henclosing]
    -- What comes first is the only part that declares a name in the room of the loop.
    obtain ⟨n, hn⟩ : ∃ n, n = (declared first.toList).length := ⟨_, rfl⟩
    have hknows := (hinside place).advance n
    have hloop : ((φ.enterLoop place (declared first.toList)).advance n).loop = some ⟨place, 0⟩ :=
      Site.loop_advance _ n
    have hfirst : Lays table true (base + 1) firstCode
        (firstEnclosing (base + 1) (some ⟨place, 0⟩) first)
        (φ.enterLoop place (declared first.toList))
        ((φ.enterLoop place (declared first.toList)).advance n) := by
      cases first with
      | none =>
        obtain rfl := parts.first
        exact hn ▸ (Lays.nil _ _).still
      | some first =>
        have hnames : declared (some first).toList = first.declares?.toList :=
          (declared_cons first []).trans (List.append_nil _)
        obtain ⟨code', hcode', rfl⟩ := parts.first
        rw [hnames] at hcode' hinside hn nodup hloop ⊢
        have takes' : Takes (φ.enterLoop place first.declares?.toList) place.start 0
            first.declares?.toList := .opened place.start nodup _ _
        rw [hstart] at takes'
        have hlays := first.lays hcode' (hinside place) takes' flisted
        rw [← hn] at hlays
        exact (hlays.mono fun _ => rfl).append (.pop hloop) fun _ => .refl _
    have hlisted : Lists table base (declared first.toList) := fun slot x hx => by
      cases first with
      | none => cases hx
      | some first =>
        obtain ⟨index, hindex⟩ := lists_body base [first] 0 (base + 1) slot x hx
        rw [bodyDeclarations, bodyDeclarations, List.append_nil, Nat.zero_add] at hindex
        exact ⟨index, flisted hindex⟩
    obtain ⟨ι, hι⟩ : ∃ ι, ι = (φ.enterLoop place (declared first.toList)).advance n := ⟨_, rfl⟩
    rw [← hι] at hfirst hknows hloop
    have htest : Lays.TestLays table (base + 1 + firstCode.length) testCode
        (partEnclosing (base + 1 + firstCode.length) (some ⟨place, 0⟩) test) ι := by
      cases test with
      | none =>
        obtain rfl := parts.test
        rfl
      | some test =>
        obtain ⟨code', hcode', rfl⟩ := parts.test
        refine ⟨_, test.lays hcode' hknows tlisted, ?_⟩
        rw [hloop]
        rfl
    have hbodyLays : BodyLays table body := compileBody_lays body
    have hbody := hbodyLays.block parts.body hknows blisted
    rw [hloop] at hbody
    have hafter : Lays table false
        (base + 1 + firstCode.length + testLength testCode + bodyCode.length + 1) afterCode
        (partEnclosing (base + 1 + firstCode.length + testLength testCode + bodyCode.length + 1)
          (some ⟨place, 0⟩) after) ι ι := by
      cases after with
      | none =>
        obtain rfl := parts.after
        exact .nil _ _
      | some after =>
        obtain ⟨code', hcode', rfl⟩ := parts.after
        have hlays := after.lays hcode' hknows alisted
        rw [hloop] at hlays
        exact hlays.snoc (.pop hloop)
    subst hι
    exact .loop hplace hlisted hfirst htest hbody hafter
  | breakLoop =>
    obtain ⟨hin, rfl⟩ := of_compile_breakLoop h
    exact hin ▸ (Lays.breakLoop φ).still
  | continueLoop =>
    obtain ⟨hin, rfl⟩ := of_compile_continueLoop h
    exact hin ▸ (Lays.continueLoop φ).still
  | spawn e =>
    cases e with
    | call f arguments =>
      obtain ⟨function, hf, h⟩ := exists_of_bind h
      obtain ⟨values, hvalues, h⟩ := exists_of_bind h
      obtain rfl := Except.ok.inj h
      rw [Stmt.declarations, List.append_subset] at listed
      rw [Stmt.enclosing]
      rw [← f.length_compile hf] at listed ⊢
      have both := (f.lays hf sees listed.1).append
        (compileAll_lays arguments hvalues sees listed.2) nofun
      exact ((both.append (.spawn arguments.length φ) nofun).mono nofun).still
    | _ => cases h
  | send channel value =>
    obtain ⟨first, hfirst, h⟩ := exists_of_bind h
    obtain ⟨second, hsecond, h⟩ := exists_of_bind h
    obtain rfl := Except.ok.inj h
    rw [Stmt.declarations, List.append_subset] at listed
    rw [Stmt.enclosing]
    rw [← channel.length_compile hfirst] at listed ⊢
    have both := (channel.lays hfirst sees listed.1).append (value.lays hsecond sees listed.2) nofun
    exact ((both.snoc (.simple rfl φ)).mono nofun).still
  | block body =>
    have hbody : BodyLays table body := compileBody_lays body
    exact (hbody.block h sees listed).still

/-- The statements of a body pass the names that they declare. -/
theorem compileBody_lays (body : List Stmt) {c : Context} {base : Nat} {code : Code} {φ : Site}
    {start slot : Nat} (h : compileBody c base body = .ok code) (sees : Sees c φ)
    (takes : Takes φ start slot (declared body))
    (listed : bodyDeclarations start slot base body ⊆ table) :
    Lays table c.inLoop base code (bodyEnclosing base φ.loop body) φ
      (φ.advance (declared body).length) := by
  match body with
  | [] =>
    obtain rfl := Except.ok.inj h
    exact (Lays.simple rfl φ).still
  | [s] =>
    rw [declared_cons] at takes ⊢
    rw [bodyDeclarations, List.append_subset] at listed
    have hnil : s.declares?.toList ++ declared [] = s.declares?.toList := List.append_nil _
    rw [hnil]
    exact s.lays h sees takes.left listed.1
  | s :: s' :: rest =>
    obtain ⟨first, hfirst, h⟩ := exists_of_bind h
    obtain ⟨others, hothers, h⟩ := exists_of_bind h
    obtain rfl := Except.ok.inj h
    rw [declared_cons] at takes ⊢
    rw [bodyDeclarations, List.append_subset] at listed
    have hlen := s.length_compile hfirst
    obtain ⟨n, hn⟩ : ∃ n, n = s.declares?.toList.length := ⟨_, rfl⟩
    have hleft := s.lays hfirst sees takes.left listed.1
    have htakes := takes.right
    rw [← hn] at hleft htakes listed
    rw [← hlen] at listed
    have hrest := compileBody_lays (s' :: rest) hothers (sees.advance n) htakes listed.2
    rw [List.length_append, ← hn, ← Site.advance_advance]
    rw [Site.loop_advance] at hrest
    have hboth := hleft.append ((Lays.pop (φ.loop_advance n)).append hrest
      fun _ => Site.ahead_advance _ _)
      fun _ => Site.ahead_advance _ _
    rw [hlen] at hboth
    exact hboth

end

end

/-! ## Modules -/

/-- The rooms at the start of a program. -/
def Site.start : Site := ⟨[.builtins], none⟩

/-- A layout of a program: the rooms at the start are known, each instruction that has rooms leads on
from them, and the search for the end of a loop finds the loop around. -/
structure LaidOut (program : Program) (table : List Declaration) (layout : Layout) : Prop where
  /-- The rooms at the start. -/
  start : layout 0 = some .start
  /-- The instructions lead on. -/
  leads : ∀ pc φ, layout pc = some φ → ∃ i, program.at? pc = some i ∧ Leads layout table pc φ i
  /-- The end of a loop is found. -/
  search : ∀ pc φ i, layout pc = some φ → φ.loop = some i →
    program.at? pc = some .breakLoop ∨ program.at? pc = some .continueLoop →
    program.loopEndAfter pc = .found ⟨i.loop.marker, i.loop.next, i.scopes⟩

/-- A module that compiles has a layout with its declarations. -/
theorem Module.exists_layout {m : Module} {program : Program} (h : m.compile = .ok program) :
    ∃ layout, LaidOut program m.declarations layout := by
  obtain ⟨plan, -, haround, hfollows, hplanned⟩ := Module.exists_shapes h
  obtain ⟨code, hcode, h⟩ := exists_of_bind h
  obtain rfl := Except.ok.inj h
  have hbody : BodyLays m.declarations m.body := compileBody_lays m.body
  obtain ⟨sites, hlen, hloops, hhead, leading⟩ :=
    hbody.block (φ := .start) hcode rfl fun _ h => h
  have hleading : Leading (fun pc => (sites ++ [Site.start])[pc]?) m.declarations 0
      (code ++ [.halt]) (sites ++ [Site.start]) := by
    refine (leading _ ?_ nofun).append ⟨.last rfl, trivial⟩
    exact lies_of_getElem? _ _ fun i x hx => by rw [Nat.zero_add]; exact hx
  have hlen' : (sites ++ [Site.start]).length = (code ++ [Instruction.halt]).length := by
    simp [hlen]
  have hloop : ∀ pc : Nat, m.enclosing[pc]? = ((sites ++ [Site.start])[pc]?).map Site.loop := by
    intro pc
    rw [← List.getElem?_map, List.map_append, hloops]
    rfl
  refine ⟨fun pc => (sites ++ [Site.start])[pc]?, List.head?_eq_getElem?.symm.trans hhead,
    fun pc φ hφ => ?_, fun pc φ i hφ hinside hi => ?_⟩
  · have hi := List.getElem?_eq_getElem (hlen' ▸ (List.getElem?_eq_some_iff.1 hφ).1)
    have hleads := hleading.leads hi hφ
    rw [Nat.zero_add] at hleads
    exact ⟨_, List.getElem?_toArray.trans hi, hleads⟩
  · -- The plan of the program sees what the search finds.
    have hσ : ∀ σ, plan pc = some σ → σ.loop = some i := by
      intro σ hσ
      have hboth := (hloop pc).symm.trans (haround pc)
      rw [hφ, hσ] at hboth
      exact (Option.some.inj hboth).symm.trans hinside
    rcases hi with hi | hi
    · obtain ⟨σ, hplan⟩ := hplanned pc _ hi
      obtain ⟨i', hi', hfollows⟩ := hfollows pc σ hplan
      obtain rfl := Option.some.inj (hi.symm.trans hi')
      cases hfollows with
      | plain takes => cases takes
      | breakLoop _ inside finds =>
        obtain rfl := Option.some.inj (inside.symm.trans (hσ σ hplan))
        exact finds.search
    · obtain ⟨σ, hplan⟩ := hplanned pc _ hi
      obtain ⟨i', hi', hfollows⟩ := hfollows pc σ hplan
      obtain rfl := Option.some.inj (hi.symm.trans hi')
      cases hfollows with
      | plain takes => cases takes
      | continueLoop _ inside finds =>
        obtain rfl := Option.some.inj (inside.symm.trans (hσ σ hplan))
        exact finds.search

end ChannelMachine.Source

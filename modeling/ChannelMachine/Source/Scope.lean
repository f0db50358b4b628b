import ChannelMachine.Code.Builtin
import ChannelMachine.Source.Syntax

/-!
# Scopes

The compiler knows the frames of the environment that the machine will have at each point: one
scope for each frame, the builtins outermost.  A name is looked for from the inside out, so the
innermost declaration counts, and its position is that of its scope and its slot.
-/

namespace ChannelMachine.Source

/-- Why a module is refused. -/
inductive Error where
  /-- A name is declared nowhere around. -/
  | undefinedIdentifier (name : String)
  /-- The target of an assignment is no variable. -/
  | assignToConstant (name : String)
  /-- A block declares a name twice. -/
  | redeclared (name : String)
  /-- A break stands in no loop. -/
  | breakOutsideLoop
  /-- A continue stands in no loop. -/
  | continueOutsideLoop
  /-- A return stands in no function. -/
  | returnOutsideFunction
  /-- A block declares more names than a frame has slots. -/
  | tooManyLocals (count limit : Nat)
  /-- There are more scopes around than an environment has frames. -/
  | scopeTooDeep (limit : Nat)
  /-- No method has this name. -/
  | unknownMethod (method : String)
  /-- A method is called with a wrong number of arguments. -/
  | methodArity (method : String) (expected got : Nat)
  /-- A new thread is to execute something else than a call. -/
  | spawnWithoutCall
deriving DecidableEq, Repr

/-- The wording of an error. -/
def Error.message : Error → String
  | undefinedIdentifier name => "undefined identifier: " ++ name
  | assignToConstant name => "cannot assign to constant " ++ name
  | redeclared name => name ++ " redeclared in this block"
  | breakOutsideLoop => "break is not in a loop"
  | continueOutsideLoop => "continue is not in a loop"
  | returnOutsideFunction => "return outside of a function"
  | tooManyLocals count limit =>
      "too many locals in one scope: " ++ toString count ++ " (limit " ++ toString limit ++ ")"
  | scopeTooDeep limit => "scopes nested too deeply (limit " ++ toString limit ++ ")"
  | unknownMethod method => "unknown method " ++ method
  | methodArity method expected got =>
      method ++ " expects " ++ toString expected ++ " argument(s), got " ++ toString got
  | spawnWithoutCall => "expression in go must be a function call"

/-- The names of one frame, in slot order. -/
abbrev Scope := List (String × Binding)

namespace Scope

/-- The first name that stands in front of itself, or among those seen before. -/
def repeated? (seen : List String) : Scope → Option String
  | [] => none
  | (name, _) :: rest => if name ∈ seen then some name else repeated? (name :: seen) rest

/-- The scope of some declarations, if they fit a frame and no name is declared twice. -/
def ofNames (names : List (String × Binding)) : Except Error Scope :=
  if maxSlots < names.length then .error (.tooManyLocals names.length maxSlots)
  else
    match repeated? [] names with
    | some name => .error (.redeclared name)
    | none => .ok names

/-- The scope of the builtins. -/
def builtins : Scope := Builtin.all.map fun b => (b.name, .builtin)

/-- The slot of a name and what it was declared as. -/
def find? (s : Scope) (name : String) : Option (Nat × Binding) :=
  match s.findIdx? (·.1 = name) with
  | some slot => s[slot]?.map fun (_, binding) => (slot, binding)
  | none => none

end Scope

/-- Where a piece of code stands. -/
structure Context where
  /-- The scopes around it, the innermost first. -/
  scopes : List Scope
  /-- Whether a loop of the same function is around it. -/
  inLoop : Bool
  /-- Whether a function is around it. -/
  inFunction : Bool
deriving Repr, Inhabited

namespace Context

/-- Where a module stands. -/
def top : Context := ⟨[Scope.builtins], false, false⟩

/-- The inside of a scope. -/
def enter (c : Context) (s : Scope) : Except Error Context :=
  if maxSlots ≤ c.scopes.length then .error (.scopeTooDeep maxSlots)
  else .ok { c with scopes := s :: c.scopes }

/-- The body of a function. -/
def asFunction (c : Context) : Context := { c with inLoop := false, inFunction := true }

/-- The body of a loop. -/
def asLoop (c : Context) : Context := { c with inLoop := true }

/-- The position of a name among scopes and what it was declared as. -/
def find? (name : String) : List Scope → Option (Position × Binding)
  | [] => none
  | s :: outer =>
      match s.find? name with
      | some (slot, binding) => some (⟨outer.length, slot⟩, binding)
      | none => find? name outer

/-- The position of a name and what it was declared as. -/
def resolve (c : Context) (name : String) : Except Error (Position × Binding) :=
  match find? name c.scopes with
  | some found => .ok found
  | none => .error (.undefinedIdentifier name)

end Context

end ChannelMachine.Source

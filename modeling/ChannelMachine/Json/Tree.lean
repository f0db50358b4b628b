import ChannelMachine.Json.Lexeme

/-!
# JSON trees

A `Json` is the tree of a JSON text.  Strings and numbers stay lexemes, so a number keeps the
sign of its zero, and a part that nobody asks for may hold a lexeme without a value.

The second half reads two shapes off a tree.  A *record* is an object with named fields, or an
array of all of them in order.  A *variant* is one of several named cases: its name alone, or an
object whose only field has that name and holds the content.
-/

namespace ChannelMachine

/-- The tree of a JSON text. -/
inductive Json where
  /-- The value `null`. -/
  | null
  /-- A boolean. -/
  | bool (value : Bool)
  /-- A number, as it is written. -/
  | number (lexeme : List Char)
  /-- A string, as it is written between its quotes. -/
  | string (lexeme : List Char)
  /-- An array. -/
  | array (items : List Json)
  /-- An object: its fields in order, each name as it is written. -/
  | object (fields : List (List Char × Json))
deriving Inhabited

namespace Json

/-! ## Making trees -/

/-- The string with a given text. -/
def ofText (text : String) : Json := .string (escape text.toList)

/-- The natural number `n`. -/
def ofNat (n : Nat) : Json := .number (Nat.toDigits 10 n)

/-- A double, or `null` if it is not finite. -/
def ofNumber (x : Number) : Json :=
  match lexemeOf? x with
  | some lexeme => .number lexeme
  | none => .null

/-- The object with the given fields. -/
def ofFields (fields : List (String × Json)) : Json :=
  .object (fields.map fun (name, value) => (escape name.toList, value))

/-- A variant with content. -/
def ofVariant (name : String) (content : Json) : Json := ofFields [(name, content)]

/-! ## Reading values -/

/-- The text of a string. -/
def text? : Json → Option String
  | .string lexeme => (unescape? lexeme).map String.ofList
  | _ => none

/-- The boolean of a boolean. -/
def bool? : Json → Option Bool
  | .bool b => some b
  | _ => none

/-- The natural number of a number that has no sign, point or exponent. -/
def natural? : Json → Option Nat
  | .number lexeme => naturalOf? lexeme
  | _ => none

/-- The double nearest to a number. -/
def double? : Json → Option Number
  | .number lexeme => numberOf? lexeme
  | _ => none

/-- The text of a field name. -/
def nameOf? (lexeme : List Char) : Option String := (unescape? lexeme).map String.ofList

/-- The value of the first field of a name. -/
def field? (name : String) : Json → Option Json
  | .object fields => (fields.find? fun (key, _) => nameOf? key == some name).map (·.2)
  | _ => none

mutual

/-- How many arrays and objects are nested in a tree at most. -/
def nesting : Json → Nat
  | .array items => nestingOfItems items + 1
  | .object fields => nestingOfFields fields + 1
  | _ => 0

/-- The deepest nesting among the items of an array. -/
def nestingOfItems : List Json → Nat
  | [] => 0
  | j :: rest => max j.nesting (nestingOfItems rest)

/-- The deepest nesting among the fields of an object. -/
def nestingOfFields : List (List Char × Json) → Nat
  | [] => 0
  | (_, j) :: rest => max j.nesting (nestingOfFields rest)

end

/-! ## Records and variants -/

/-- The fields of a record.  In an object every field name has a text, a known name stands at
most once, and unknown fields are passed over.  In an array all fields are there. -/
def record? (names : List String) : Json → Option (List (Option Json))
  | .object fields =>
      match fields.mapM fun (key, value) => (nameOf? key).map (·, value) with
      | none => none
      | some fields =>
          names.mapM fun name =>
            match fields.filter (·.1 = name) with
            | [] => some none
            | [(_, value)] => some (some value)
            | _ => none
  | .array items => if items.length = names.length then some (items.map some) else none
  | _ => none

/-- The content of a field that has to be there. -/
def required? {α : Type} (read : Json → Option α) : Option Json → Option α
  | some j => read j
  | none => none

/-- The content of a field that may be missing or `null`. -/
def optional? {α : Type} (read : Json → Option α) : Option Json → Option (Option α)
  | none | some .null => some none
  | some j => (read j).map some

/-- The items of an array, all of one form. -/
def itemsOf? {α : Type} (read : Json → Option α) : Json → Option (List α)
  | .array items => items.mapM read
  | _ => none

/-- The name of a variant and its content, if it has one. -/
def variant? : Json → Option (String × Option Json)
  | .string lexeme => (nameOf? lexeme).map (·, none)
  | .object [(key, content)] => (nameOf? key).map (·, some content)
  | _ => none

/-- The name of a variant without content: the name alone, or with content `null` in one
object more. -/
def plain? (limit : Nat) (j : Json) : Option String :=
  match j.variant? with
  | some (name, none) => some name
  | some (name, some .null) => if limit = 0 then none else some name
  | _ => none

end Json

end ChannelMachine

import ChannelMachine.Number

/-!
# Values

A `Value` is what the host sees of a heap value.  Numbers, booleans and texts are seen in full;
of the composite kinds only the kind is seen, and of a builtin its name.
-/

namespace ChannelMachine

/-- A value as the host sees it. -/
inductive Value where
  /-- A number. -/
  | number (value : Number)
  /-- A boolean. -/
  | bool (value : Bool)
  /-- A text. -/
  | text (value : String)
  /-- The value `null`. -/
  | null
  /-- The value `undefined`. -/
  | undefined
  /-- What a variable holds before it is assigned. -/
  | unassigned
  /-- A function of the program. -/
  | closure
  /-- A builtin function. -/
  | builtin (name : String)
  /-- A channel. -/
  | channel
  /-- A wait-group. -/
  | waitGroup
deriving DecidableEq, Repr, Inhabited

/-- The text that `print` shows. -/
def Value.display : Value → String
  | .number x => x.display
  | .bool true => "true"
  | .bool false => "false"
  | .text s => s
  | .null => "null"
  | .undefined => "undefined"
  | .unassigned => "<unassigned>"
  | .closure => "<closure>"
  | .builtin name => "<builtin " ++ name ++ ">"
  | .channel => "<channel>"
  | .waitGroup => "<waitgroup>"

end ChannelMachine

/-!
# Builtin functions

The functions that every program finds in its outermost frame, in slot order.  The compiler
resolves a name to its slot and the machine knows a builtin by that slot.
-/

namespace ChannelMachine

/-- A builtin function. -/
inductive Builtin where
  /-- Prints a value and a line end. -/
  | println
  /-- Prints a value. -/
  | print
  /-- The length of a text in bytes, or how many values a channel buffers. -/
  | len
  /-- The magnitude of a number. -/
  | abs
  /-- The smaller of two numbers. -/
  | min
  /-- The larger of two numbers. -/
  | max
  /-- The text that `print` shows. -/
  | string
deriving DecidableEq, Repr, Inhabited

namespace Builtin

/-- All builtins in slot order. -/
def all : List Builtin := [println, print, len, abs, min, max, string]

/-- The name a program uses. -/
def name : Builtin → String
  | println => "println"
  | print => "print"
  | len => "len"
  | abs => "abs"
  | min => "min"
  | max => "max"
  | string => "string"

/-- How many arguments a call passes. -/
def arity : Builtin → Nat
  | min | max => 2
  | _ => 1

/-- The builtin of a name. -/
def ofName? (n : String) : Option Builtin := all.find? (·.name = n)

/-- The slot of a name. -/
def slotOf? (n : String) : Option Nat := all.findIdx? (·.name = n)

end Builtin

end ChannelMachine

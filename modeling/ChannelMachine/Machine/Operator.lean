import ChannelMachine.Heap.Boxing
import ChannelMachine.Machine.Action

/-!
# Operators

Arithmetic works on two numbers, `add` also joins two texts, and the orderings compare two
numbers or two texts.  Equality compares any two values.
-/

namespace ChannelMachine

namespace BinaryOp

/-- What arithmetic makes of two numbers; orderings and equality make no number. -/
def onNumbers (op : BinaryOp) (x y : Number) : Number :=
  match op with
  | .add => x.add y
  | .sub => x.sub y
  | .mul => x.mul y
  | .div => x.div y
  | _ => x.remainder y

/-- How an ordering compares two numbers.  None of the four holds if one of them is NaN. -/
def comparesNumbers (op : BinaryOp) (x y : Number) : Bool :=
  match op with
  | .lt => x.less y
  | .le => x.atMost y
  | .gt => y.less x
  | _ => y.atMost x

/-- How an ordering compares two texts: by their characters from the left. -/
def comparesTexts (op : BinaryOp) (s t : String) : Bool :=
  match op with
  | .lt => s < t
  | .le => !(t < s)
  | .gt => t < s
  | _ => !(s < t)

end BinaryOp

/-- Two operands that an operation tells apart. -/
inductive Operands where
  /-- Two numbers. -/
  | numbers (x y : Number)
  /-- Two texts. -/
  | texts (s t : String)
  /-- Anything else. -/
  | other

namespace Heap

/-- What two nodes are to an operation. -/
def operands (h : Heap) (a b : Address) : Operands :=
  match h.number? a, h.number? b with
  | some x, some y => .numbers x y
  | _, _ =>
      match h.text? a, h.text? b with
      | some s, some t => .texts s t
      | _, _ => .other

/-- The fault of an operation that does not apply to two nodes. -/
def badOperands (h : Heap) (op : BinaryOp) (a b : Address) : Fault :=
  .type (.badOperands op (h.tag a) (h.tag b))

/-- The node of the result of an operation on one node. -/
def applyUnary (op : UnaryOp) (a : Address) (roots : Roots) : Action Address := do
  match op with
  | .neg =>
      match (← get).number? a with
      | some x => newNumber x.neg roots
      | none => throw (.type (.notNumber ((← get).tag a)))
  | .not =>
      match (← get).bool? a with
      | some b => return boolean (!b)
      | none => throw (.type (.notBool ((← get).tag a)))

/-- The node of the result of an operation on two nodes. -/
def applyBinary (op : BinaryOp) (a b : Address) (roots : Roots) : Action Address := do
  match op with
  | .eq => return boolean ((← get).sameValue a b)
  | .ne => return boolean (!(← get).sameValue a b)
  | .lt | .le | .gt | .ge =>
      match (← get).operands a b with
      | .numbers x y => return boolean (op.comparesNumbers x y)
      | .texts s t => return boolean (op.comparesTexts s t)
      | .other => throw ((← get).badOperands op a b)
  | .add =>
      match (← get).operands a b with
      | .numbers x y => newNumber (x.add y) roots
      | .texts s t => newString (s ++ t) roots
      | .other => throw ((← get).badOperands op a b)
  | .sub | .mul | .div | .mod =>
      match (← get).operands a b with
      | .numbers x y => newNumber (op.onNumbers x y) roots
      | _ => throw ((← get).badOperands op a b)

end Heap

namespace Machine

/-- Applies an operation to the operand on top. -/
def unary (op : UnaryOp) : Action Unit := do
  let a ← peek 0
  let result ← onHeap (Heap.applyUnary op a)
  replace 1 result
  advance

/-- Applies an operation to the two operands on top. -/
def binary (op : BinaryOp) : Action Unit := do
  let right ← peek 0
  let left ← peek 1
  let result ← onHeap (Heap.applyBinary op left right)
  replace 2 result
  advance

end Machine

end ChannelMachine

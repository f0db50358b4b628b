import ChannelMachine.Heap.Boxing
import ChannelMachine.Heap.Channel
import ChannelMachine.Machine.Action

/-!
# What the builtins do

A builtin takes the nodes of its arguments, which are still on the stack while it runs, and
gives the node of its result.
-/

namespace ChannelMachine

namespace Heap

/-- The number of a node. -/
def needNumber (h : Heap) (a : Address) : Except Fault Number :=
  match h.number? a with
  | some x => .ok x
  | none => .error (.type (.notNumber (h.tag a)))

/-- The numbers of two nodes. -/
def needNumbers (h : Heap) (a b : Address) : Except Fault (Number × Number) :=
  match h.needNumber a, h.needNumber b with
  | .error fault, _ => .error fault
  | _, .error fault => .error fault
  | .ok x, .ok y => .ok (x, y)

/-- The length of a text in bytes, or how many values a channel buffers. -/
def lengthOf (h : Heap) (a : Address) : Except Fault Nat :=
  match h.tag a with
  | .string => .ok (((h.text? a).map String.utf8ByteSize).getD 0)
  | .channel => .ok (h.channelLength a)
  | t => .error (.type (.notString t))

end Heap

namespace Machine

/-- Looks something up in the heap that may be a fault. -/
def need {α : Type} (f : Heap → Except Fault α) : Action α := do
  match ← readHeap f with
  | .ok x => return x
  | .error fault => throw fault

/-- Prints a text. -/
def print (text : String) : Action Unit := update fun m => { m with output := m.output ++ text }

/-- Prints values one after the other. -/
def printAll : List Address → Action Unit
  | [] => pure ()
  | a :: rest => do
      print (← readHeap (·.display a))
      printAll rest

/-- Runs a builtin. -/
def runBuiltin (b : Builtin) (arguments : List Address) : Action Address := do
  match b, arguments with
  | .print, as =>
      printAll as
      return Heap.undefined
  | .println, as =>
      printAll as
      print "\n"
      return Heap.undefined
  | .len, a :: _ =>
      let n ← need (·.lengthOf a)
      onHeap (Heap.newNumber (.ofNat n))
  | .abs, a :: _ =>
      let x ← need (·.needNumber a)
      onHeap (Heap.newNumber x.abs)
  | .min, a :: b :: _ =>
      let (x, y) ← need (·.needNumbers a b)
      onHeap (Heap.newNumber (x.least y))
  | .max, a :: b :: _ =>
      let (x, y) ← need (·.needNumbers a b)
      onHeap (Heap.newNumber (x.greatest y))
  | .string, a :: _ =>
      let text ← readHeap (·.display a)
      onHeap (Heap.newString text)
  | b, as => throw (.arity b.arity as.length)

end Machine

end ChannelMachine

import ChannelMachine.Code.Builtin
import ChannelMachine.Heap.Allocation

/-!
# Values in the heap

`Heap.box` puts a value of the host into the heap and `Heap.unbox` shows it again.  The values
that exist only in the machine cannot be boxed, and are shown by their kind.
-/

namespace ChannelMachine.Heap

/-- The node of a value. -/
def box (value : Value) (roots : Roots) : Action Address := do
  match value with
  | .number x => newNumber x roots
  | .text s => newString s roots
  | .bool b => return boolean b
  | .null => return null
  | .undefined => return undefined
  | .unassigned => return unassigned
  | other => throw (.type (.unboxable other))

/-- The value at a node. -/
def unbox (h : Heap) (a : Address) : Value :=
  match h.tag a with
  | .number => .number ((h.number? a).getD .zero)
  | .true => .bool true
  | .false => .bool false
  | .string => .text ((h.text? a).getD "")
  | .null => .null
  | .unassigned => .unassigned
  | .closure => .closure
  | .builtin => .builtin ((Builtin.all[(h.payload a).toNat]?.map Builtin.name).getD "")
  | .channel => .channel
  | .waitGroup => .waitGroup
  | .undefined | .free | .frame | .environment | .blockframe | .callframe => .undefined

/-- The text that `print` shows for a node. -/
def display (h : Heap) (a : Address) : String := (h.unbox a).display

/-- Whether two nodes are the same value: the same number, or the same node.  A text has one
node only. -/
def sameValue (h : Heap) (a b : Address) : Bool :=
  if a = b then true
  else
    match h.number? a, h.number? b with
    | some x, some y => x.same y
    | _, _ => false

end ChannelMachine.Heap

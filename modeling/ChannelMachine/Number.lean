import ChannelMachine.Decimal.Layout

/-!
# Numbers

The numbers of a program are doubles.  A `Number` holds the bits of one.  Memory holds bits, too,
and there a NaN is told apart from another by its bits, so nothing is lost on the way in or out.

The arithmetic that rounds is that of `Float`.  What does not round works on the bits: the sign,
the comparisons, the two bounds, the remainder, and the text that `print` shows.
-/

namespace ChannelMachine

/-- A double, by its bits. -/
structure Number where
  /-- The sign, the exponent and the mantissa. -/
  bits : UInt64
deriving DecidableEq, Repr, Inhabited

namespace Number

open Decimal

/-! ## Kinds of numbers -/

/-- The number of a float. -/
def ofFloat (x : Float) : Number := ⟨x.toBits⟩

/-- The float of a number. -/
def toFloat (x : Number) : Float := Float.ofBits x.bits

/-- A natural number, rounded to a double. -/
def ofNat (n : Nat) : Number := ofFloat (Float.ofNat n)

/-- Zero. -/
def zero : Number := ⟨0⟩

/-- Minus one. -/
def minusOne : Number := ⟨0xbff0000000000000⟩

/-- The NaN of undefined results. -/
def nan : Number := ⟨0x7ff8000000000000⟩

/-- The bit of the sign. -/
def signBit : UInt64 := 0x8000000000000000

/-- The bits of positive infinity.  Those of NaNs are larger, if the sign is left out. -/
def infinity : UInt64 := 0x7ff0000000000000

/-- Whether the sign is set.  Zero has one, too. -/
def isNegative (x : Number) : Bool := signBit ≤ x.bits

/-- The number without its sign. -/
def abs (x : Number) : Number := ⟨x.bits &&& 0x7fffffffffffffff⟩

/-- The number with the other sign. -/
def neg (x : Number) : Number := ⟨x.bits ^^^ signBit⟩

/-- Whether a number is NaN. -/
def isNaN (x : Number) : Bool := infinity < x.abs.bits

/-- The exact value of a number; infinities and NaN have none. -/
def binary? (x : Number) : Option Binary := Binary.ofBits? x.bits

/-! ## Arithmetic -/

/-- The sum. -/
def add (x y : Number) : Number := ofFloat (x.toFloat + y.toFloat)

/-- The difference. -/
def sub (x y : Number) : Number := ofFloat (x.toFloat - y.toFloat)

/-- The product. -/
def mul (x y : Number) : Number := ofFloat (x.toFloat * y.toFloat)

/-- The quotient. -/
def div (x y : Number) : Number := ofFloat (x.toFloat / y.toFloat)

/-- The remainder of the truncating division, computed without rounding.  It has the sign of
the dividend, whose value it keeps if the divisor is infinite.  An infinite dividend and a zero
divisor give NaN. -/
def remainder (x y : Number) : Number :=
  match x.binary?, y.binary? with
  | some a, some b =>
      if b.mantissa = 0 then nan
      else
        let unit := min a.exponent b.exponent
        let dividend := a.mantissa <<< (a.exponent - unit).toNat
        let divisor := b.mantissa <<< (b.exponent - unit).toNat
        ⟨((Ratio.scaled (dividend % divisor) 2 unit).toBits? a.negative).getD 0⟩
  | some _, none => if y.isNaN then y else x
  | none, _ => nan

/-! ## Comparisons -/

/-- The numbers that are not NaN are ordered as these keys.  Both zeros have the same one. -/
def key (x : Number) : UInt64 := if x.isNegative then 0 - x.bits else x.bits + signBit

/-- Whether both are the same number.  NaN is no number's equal. -/
def same (x y : Number) : Bool := !x.isNaN && !y.isNaN && x.key == y.key

/-- Whether the first is less.  NaN is neither less nor greater than any number. -/
def less (x y : Number) : Bool := !x.isNaN && !y.isNaN && x.key < y.key

/-- Whether the first is less or the same. -/
def atMost (x y : Number) : Bool := !x.isNaN && !y.isNaN && x.key ≤ y.key

/-- The smaller of two numbers.  NaN counts only if both are NaN, and of two equal numbers the
second is taken, which matters for the sign of zero. -/
def least (x y : Number) : Number := if x.isNaN || y.atMost x then y else x

/-- The larger of two numbers.  NaN counts only if both are NaN, and of two equal numbers the
second is taken, which matters for the sign of zero. -/
def greatest (x y : Number) : Number := if x.isNaN || x.atMost y then y else x

theorem same_eq (x y : Number) : x.same y = (x.atMost y && y.atMost x) := by
  have hkey : (x.key == y.key) = (decide (x.key ≤ y.key) && decide (y.key ≤ x.key)) := by
    rw [Bool.eq_iff_iff, beq_iff_eq, Bool.and_eq_true, decide_eq_true_eq, decide_eq_true_eq]
    exact ⟨fun h => h ▸ ⟨UInt64.le_refl _, UInt64.le_refl _⟩, fun h => UInt64.le_antisymm h.1 h.2⟩
  rw [same, atMost, atMost, hkey]
  cases x.isNaN <;> cases y.isNaN <;> simp

/-! ## Text -/

/-- Shown numbers: a point down to `0.00001` and up to sixteen places, no sign on a positive
exponent, and the even neighbour of two. -/
def shown : Layout := ⟨-4, 16, false, .even⟩

/-- Whole numbers below this bound are shown without a point. -/
def wholeLimit : Nat := 1000000000000000

/-- The text of a number.  A whole number is shown as an integer, so the sign of zero is
lost. -/
def display (x : Number) : String :=
  match x.binary? with
  | none => if x.isNaN then "NaN" else if x.isNegative then "-Inf" else "+Inf"
  | some b =>
      match b.natural? with
      | some n =>
          if n < wholeLimit then
            .ofList (Layout.integer (if b.negative then -(n : Int) else n))
          else shown.write b
      | none => shown.write b

/-! ## Tests -/

example : display (ofFloat 3.0) = "3" := by decide +kernel
example : display (ofFloat (-12.0)) = "-12" := by decide +kernel
example : display (ofFloat (-0.0)) = "0" := by decide +kernel
example : display (ofFloat 1.5) = "1.5" := by decide +kernel
example : display (ofFloat 1e15) = "1000000000000000.0" := by decide +kernel
example : display (ofFloat 1e16) = "1e16" := by decide +kernel
example : display (ofFloat 1e-5) = "0.00001" := by decide +kernel
example : display (ofFloat 1e-6) = "1e-6" := by decide +kernel
example : display (ofFloat 1.5e-7) = "1.5e-7" := by decide +kernel
example : display ⟨infinity⟩ = "+Inf" := by decide +kernel
example : remainder (ofFloat 5.5) (ofFloat 2.0) = ofFloat 1.5 := by decide +kernel
example : remainder (ofFloat (-6.0)) (ofFloat 2.0) = ofFloat (-0.0) := by decide +kernel
example : least zero (ofFloat (-0.0)) = ofFloat (-0.0) := by decide +kernel
example : least nan (ofFloat 1.0) = ofFloat 1.0 := by decide +kernel
example : greatest (ofFloat 1.0) nan = ofFloat 1.0 := by decide +kernel
example : (ofFloat (-1.0)).less zero = true := by decide +kernel
example : nan.same nan = false := by decide +kernel

end Number

end ChannelMachine

/-!
# Doubles as exact binary numbers

A finite double is `± mantissa * 2 ^ exponent` with natural mantissa.  This module reads that
form off the 64 bits of a double and goes back: `Ratio.nearest` rounds any nonnegative ratio
to the double next to it, ties to the even mantissa.  Both directions are exact arithmetic on
natural numbers, so what is printed, read or divided elsewhere never depends on rounding in
between.
-/

namespace ChannelMachine.Decimal

/-- A finite double: `mantissa * 2 ^ exponent`, negated if `negative`. -/
structure Binary where
  /-- The sign.  Zero has one, too. -/
  negative : Bool
  /-- The integral mantissa. -/
  mantissa : Nat
  /-- The power of two of its unit. -/
  exponent : Int
deriving DecidableEq, Repr, Inhabited

/-- The exponent of the smallest double. -/
def leastExponent : Int := -1074

/-- The unit of the exponent field, worth the leading bit that a mantissa does not store. -/
def hiddenBit : Nat := 0x10000000000000

/-- The sign of a double among its bits. -/
def negativeBit : Nat := 0x8000000000000000

/-- The bits of positive infinity; the finite doubles lie below. -/
def infinityBits : Nat := 2047 * hiddenBit

namespace Binary

/-- The exact value of a double from its bits; infinities and NaN have none. -/
def ofBits? (bits : UInt64) : Option Binary :=
  let b : Nat := bits.toNat
  let fraction : Nat := b % hiddenBit
  let biased : Nat := b / hiddenBit % 2048
  let negative := decide (negativeBit ≤ b)
  if biased = 2047 then none
  else if biased = 0 then some ⟨negative, fraction, leastExponent⟩
  else some ⟨negative, hiddenBit + fraction, (biased : Int) - 1075⟩

/-- The magnitude as a natural number, if it is one. -/
def natural? (x : Binary) : Option Nat :=
  match x.exponent with
  | .ofNat e => some (x.mantissa <<< e)
  | .negSucc e =>
      let whole := x.mantissa >>> (e + 1)
      if whole <<< (e + 1) = x.mantissa then some whole else none

end Binary

/-- A nonnegative ratio of natural numbers. -/
structure Ratio where
  /-- The numerator. -/
  num : Nat
  /-- The denominator. -/
  den : Nat
deriving DecidableEq, Repr, Inhabited

namespace Ratio

/-- `n * base ^ e` for an exponent of either sign. -/
def scaled (n base : Nat) (e : Int) : Ratio :=
  match e with
  | .ofNat e => ⟨n * Nat.pow base e, 1⟩
  | .negSucc e => ⟨n, Nat.pow base (e + 1)⟩

/-- `r / 2 ^ e`. -/
def unscale (r : Ratio) (e : Int) : Ratio :=
  match e with
  | .ofNat e => ⟨r.num, r.den <<< e⟩
  | .negSucc e => ⟨r.num <<< (e + 1), r.den⟩

/-- The integer next to a ratio, the even one of two equally near. -/
def roundEven (r : Ratio) : Nat :=
  let floor := r.num / r.den
  let rest := r.num % r.den
  if 2 * rest < r.den ∨ 2 * rest = r.den ∧ floor % 2 = 0 then floor else floor + 1

/-- The exponent of the unit in which a ratio has 53 binary digits, but not below the least
exponent. -/
def unitExponent (r : Ratio) : Int :=
  let guess : Int := r.num.log2 - r.den.log2 - 52
  let small := r.unscale guess
  max leastExponent (if small.num < small.den * hiddenBit then guess - 1 else guess)

/-- The bits of the double nearest to a ratio, ties to the even mantissa; at or above
`infinityBits` if the ratio is too large for a double.  The mantissa carries into the exponent
field when it rounds up to `2 ^ 53`, and a subnormal number has exponent field zero, so one
sum serves all three cases. -/
def nearest (r : Ratio) : Nat :=
  if r.num = 0 then 0
  else
    let e := r.unitExponent
    (e - leastExponent).toNat * hiddenBit + (r.unscale e).roundEven

/-- The bits of the double nearest to `± r`, if it is finite. -/
def toBits? (negative : Bool) (r : Ratio) : Option UInt64 :=
  let bits := r.nearest
  if bits < infinityBits then some (UInt64.ofNat (if negative then negativeBit + bits else bits))
  else none

end Ratio

example : (Ratio.nearest ⟨1, 10⟩) = 0x3fb999999999999a := by decide +kernel
example : (Ratio.nearest ⟨3, 1⟩) = 0x4008000000000000 := by decide +kernel
/-- The value halfway between zero and the least double goes to zero. -/
example : Ratio.nearest ⟨1, 2 ^ 1075⟩ = 0 := by decide +kernel
example : Ratio.nearest ⟨3, 2 ^ 1075⟩ = 2 := by decide +kernel
/-- All mantissa bits set and half a unit more is infinite. -/
example : Ratio.nearest ⟨2 ^ 1024 - 2 ^ 970, 1⟩ = infinityBits := by decide +kernel

end ChannelMachine.Decimal

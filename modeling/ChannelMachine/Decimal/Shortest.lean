import ChannelMachine.Decimal.Binary

/-!
# The shortest numeral that reads back

The reals that round to a double form an interval around it, whose ends belong to it exactly
if the mantissa is even.  `Binary.shortest` looks for the coarsest decimal grid with a point in
that interval.  On each grid only the two neighbours of the double can be the nearest point,
so two tests a grid are enough, and all of them are comparisons of natural numbers.
-/

namespace ChannelMachine.Decimal

/-- A decimal numeral, worth `digits * 10 ^ exponent`. -/
structure Numeral where
  /-- All digits, read as one number. -/
  digits : Nat
  /-- The power of ten of the last digit. -/
  exponent : Int
deriving DecidableEq, Repr, Inhabited

/-- Which of two shortest numerals at the same distance is written. -/
inductive Tie where
  /-- The one with an even last digit. -/
  | even
  /-- The larger one. -/
  | up
deriving DecidableEq, Repr

/-- The value of a numeral as a ratio. -/
def Numeral.ratio (d : Numeral) : Ratio := .scaled d.digits 10 d.exponent

/-- How many digits a natural number has; one for zero. -/
def digitCount (n : Nat) : Nat := (Nat.toDigits 10 n).length

/-- The bits of the double nearest to `± d`, if it is finite.  The two tests in front decide
numbers far outside the range without computing their powers of ten. -/
def Numeral.toBits? (negative : Bool) (d : Numeral) : Option UInt64 :=
  let top := digitCount d.digits + d.exponent
  if d.digits = 0 ∨ top < -330 then Ratio.toBits? negative ⟨0, 1⟩
  else if 310 < top then none
  else d.ratio.toBits? negative

namespace Binary

/-- A decimal grid laid over a double, both in a common unit: grid points are the multiples of
`step`, and a quarter of the double's last place is `quarter`. -/
structure Grid where
  /-- The distance of two grid points. -/
  step : Nat
  /-- A quarter of the unit in the last place. -/
  quarter : Nat
deriving DecidableEq, Repr

/-- The grid of the multiples of `10 ^ k` at a double with the given exponent. -/
def gridAt (exponent k : Int) : Grid where
  step := Nat.pow 10 k.toNat <<< (2 - exponent).toNat
  quarter := Nat.pow 10 (-k).toNat <<< (exponent - 2).toNat

/-- The lower end of the interval that rounds to a double, in quarters of the last place.  Just
above a power of two the doubles below lie twice as dense. -/
def lowQuarters (x : Binary) : Nat :=
  4 * x.mantissa - (if x.mantissa = hiddenBit ∧ x.exponent ≠ leastExponent then 1 else 2)

/-- The upper end of the interval that rounds to a double, in quarters of the last place. -/
def highQuarters (x : Binary) : Nat := 4 * x.mantissa + 2

/-- Whether the grid point `n * g.step` rounds to the double. -/
def holds (x : Binary) (g : Grid) (n : Nat) : Bool :=
  let low := x.lowQuarters * g.quarter
  let high := x.highQuarters * g.quarter
  let point := n * g.step
  if x.mantissa % 2 = 0 then low ≤ point && point ≤ high else low < point && point < high

/-- The grid point nearest to the double among those that round to it. -/
def pointOn? (x : Binary) (tie : Tie) (g : Grid) : Option Nat :=
  let value := 4 * x.mantissa * g.quarter
  let below := value / g.step
  let rest := value % g.step
  match x.holds g below, x.holds g (below + 1) with
  | false, false => none
  | true, false => some below
  | false, true => some (below + 1)
  | true, true =>
      if 2 * rest < g.step then some below
      else if g.step < 2 * rest then some (below + 1)
      else match tie with
        | .even => some (below + below % 2)
        | .up => some (below + 1)

/-- Every finite double has a numeral: a negative power of two is a power of five over one of
ten. -/
def exact (x : Binary) : Numeral :=
  match x.exponent with
  | .ofNat e => ⟨x.mantissa <<< e, 0⟩
  | .negSucc e => ⟨x.mantissa * Nat.pow 5 (e + 1), .negSucc e⟩

/-- The first hit on the grids `10 ^ k`, `10 ^ (k - 1)`, and so on; after the last one the
exact numeral. -/
def search (x : Binary) (tie : Tie) : Nat → Int → Numeral
  | 0, _ => x.exact
  | n + 1, k =>
      match x.pointOn? tie (gridAt x.exponent k) with
      | some digits => ⟨digits, k⟩
      | none => x.search tie n (k - 1)

/-- A power of ten above the double: three tenths is just under the decimal logarithm of two. -/
def topExponent (x : Binary) : Int := (x.mantissa.log2 + x.exponent) * 30103 / 100000 + 2

/-- The shortest numeral that rounds to a double; among the shortest, the nearest.  Seventeen
digits always suffice, and the search starts at most three grids above the first digit. -/
def shortest (x : Binary) (tie : Tie) : Numeral := x.search tie 21 x.topExponent

end Binary

/-- One tenth. -/
example : (Binary.mk false 0x1999999999999a (-56)).shortest .even = ⟨1, -1⟩ := by decide +kernel
/-- The least double. -/
example : (Binary.mk false 1 leastExponent).shortest .even = ⟨5, -324⟩ := by decide +kernel
/-- Two numerals of the same length and distance. -/
example : (Binary.mk false (2 ^ 53 - 3) (-2)).shortest .even = ⟨22517998136852472, -1⟩ := by
  decide +kernel
example : (Binary.mk false (2 ^ 53 - 3) (-2)).shortest .up = ⟨22517998136852473, -1⟩ := by
  decide +kernel

end ChannelMachine.Decimal

import ChannelMachine.Decimal.Shortest

/-!
# Writing a numeral down

A `Layout` says when a number is written with a point alone and when with a power of ten.  The
digits themselves are those of `Binary.shortest`.  Every text that `Layout.write` makes holds a
point or an exponent.
-/

namespace ChannelMachine.Decimal

/-- How the digits of a double become text. -/
structure Layout where
  /-- The least place of the point, counted from the first digit, that is written without an
  exponent: `0.01` has its point at place `-1`. -/
  leastPoint : Int
  /-- The greatest such place: `10.0` has its point at place `2`. -/
  greatestPoint : Int
  /-- Whether a positive exponent carries a sign. -/
  plus : Bool
  /-- Which of two equally near numerals is taken. -/
  tie : Tie
deriving Repr

namespace Layout

/-- The decimal digits of a natural number. -/
def digitsOf (n : Nat) : List Char := Nat.toDigits 10 n

/-- A decimal integer, with a minus sign if it is negative. -/
def integer (n : Int) : List Char :=
  if n < 0 then '-' :: digitsOf n.natAbs else digitsOf n.natAbs

/-- Digits with the point inside or next to them.  The point is at place `point`, zeros fill
up on either side, and one zero follows a point at the end. -/
def positional (digits : List Char) (point : Int) : List Char :=
  if point ≤ 0 then
    '0' :: '.' :: List.replicate (-point).toNat '0' ++ digits
  else if digits.length ≤ point.toNat then
    digits ++ List.replicate (point.toNat - digits.length) '0' ++ ['.', '0']
  else
    digits.take point.toNat ++ '.' :: digits.drop point.toNat

/-- One digit, the others behind a point, and the exponent of the first. -/
def scientific (plus : Bool) (digits : List Char) (point : Int) : List Char :=
  let exponent := point - 1
  let sign := if plus && 0 < exponent then ['+'] else []
  let mantissa :=
    match digits with
    | first :: second :: rest => first :: '.' :: second :: rest
    | digits => digits
  mantissa ++ 'e' :: sign ++ integer exponent

/-- The text of a numeral. -/
def numeral (l : Layout) (d : Numeral) : List Char :=
  let digits := digitsOf d.digits
  let point := digits.length + d.exponent
  if l.leastPoint ≤ point ∧ point ≤ l.greatestPoint then positional digits point
  else scientific l.plus digits point

/-- The text of a finite double. -/
def write (l : Layout) (x : Binary) : String :=
  let body :=
    if x.mantissa = 0 then ['0', '.', '0'] else l.numeral (x.shortest l.tie)
  .ofList (if x.negative then '-' :: body else body)

end Layout

end ChannelMachine.Decimal

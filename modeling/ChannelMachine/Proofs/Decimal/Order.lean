import Mathlib.Order.WithBot
import ChannelMachine.Proofs.Decimal.Shortest

/-!
# The order of doubles

A number that is not NaN has a value, which is a rational number or one of the two infinities
(`Number.value?`).  The keys by which numbers are compared are in the order of the values, so the
comparisons are those of the values, and none of them holds where NaN is involved.
-/

namespace ChannelMachine

open Decimal

/-! ## Finite doubles -/

namespace Decimal.Binary

variable {x y : Binary}

/-- The value with its sign. -/
def signed (x : Binary) : ℚ := if x.negative then -x.value else x.value

theorem value_nonneg (x : Binary) : 0 ≤ x.value := by
  unfold value
  positivity

/-- Magnitudes with an exponent less have less bits and a smaller value. -/
theorem Proper.lt_of_exponent (hx : x.Proper) (hy : y.Proper) (h : x.exponent < y.exponent) :
    x.magnitudeBits < y.magnitudeBits ∧ x.value < y.value := by
  have hnormal := hy.normal (lt_of_le_of_lt hx.least h)
  have hlt := hx.lt
  constructor
  · obtain ⟨n, hn⟩ : ∃ n, (y.exponent - leastExponent).toNat =
        (x.exponent - leastExponent).toNat + 1 + n :=
      ⟨(y.exponent - x.exponent).toNat - 1, by have := hx.least; omega⟩
    unfold magnitudeBits
    rw [hn, Nat.add_mul, Nat.add_mul, Nat.one_mul]
    have := Nat.zero_le (n * hiddenBit)
    omega
  · have hmantissa : (x.mantissa : ℚ) < 2 * hiddenBit := by exact_mod_cast hlt
    have hhidden : (hiddenBit : ℚ) ≤ y.mantissa := by exact_mod_cast hnormal
    have hpow : (2 : ℚ) ^ (x.exponent + 1) ≤ 2 ^ y.exponent :=
      zpow_le_zpow_right₀ one_le_two (by omega)
    have htwo : (0 : ℚ) < 2 ^ x.exponent := by positivity
    calc x.value < 2 * hiddenBit * 2 ^ x.exponent := mul_lt_mul_of_pos_right hmantissa htwo
      _ = hiddenBit * 2 ^ (x.exponent + 1) := by rw [zpow_add_one₀ two_ne_zero]; ring
      _ ≤ y.mantissa * 2 ^ y.exponent := mul_le_mul hhidden hpow (by positivity) (by positivity)

/-- The bits of magnitudes are in the order of their values. -/
theorem Proper.value_lt_iff (hx : x.Proper) (hy : y.Proper) :
    x.value < y.value ↔ x.magnitudeBits < y.magnitudeBits := by
  rcases lt_trichotomy x.exponent y.exponent with h | h | h
  · obtain ⟨hbits, hvalue⟩ := hx.lt_of_exponent hy h
    exact iff_of_true hvalue hbits
  · have htwo : (0 : ℚ) < 2 ^ y.exponent := by positivity
    unfold value magnitudeBits
    rw [h, mul_lt_mul_iff_of_pos_right htwo, Nat.cast_lt, Nat.add_lt_add_iff_left]
  · obtain ⟨hbits, hvalue⟩ := hy.lt_of_exponent hx h
    exact iff_of_false (lt_asymm hvalue) (lt_asymm hbits)

/-- The bits of the magnitude, with the sign. -/
def rank (x : Binary) : ℤ := if x.negative then -(x.magnitudeBits : ℤ) else x.magnitudeBits

/-- Only zero has no bits in its magnitude. -/
theorem Proper.value_eq_zero_iff (hx : x.Proper) : x.value = 0 ↔ x.magnitudeBits = 0 := by
  have hzero : Proper ⟨false, 0, leastExponent⟩ :=
    ⟨by decide, le_rfl, by decide, fun h => absurd h (lt_irrefl _)⟩
  have hiff := hzero.value_lt_iff hx
  have hbits : magnitudeBits ⟨false, 0, leastExponent⟩ = 0 := by
    unfold magnitudeBits
    simp
  have hvalue : value ⟨false, 0, leastExponent⟩ = 0 := by
    unfold value
    simp
  rw [hbits, hvalue, Nat.pos_iff_ne_zero, (x.value_nonneg).lt_iff_ne', not_iff_not] at hiff
  exact hiff

/-- So they are with the signs. -/
theorem Proper.signed_lt_iff (hx : x.Proper) (hy : y.Proper) : x.signed < y.signed ↔ x.rank < y.rank := by
  have hle := x.value_nonneg
  have hle' := y.value_nonneg
  have hzero := hx.value_eq_zero_iff
  have hzero' := hy.value_eq_zero_iff
  unfold signed rank
  cases x.negative <;> cases y.negative
  · simpa using hx.value_lt_iff hy
  · refine iff_of_false ?_ ?_
    · simp only [Bool.false_eq_true, if_false, if_true, not_lt]
      linarith
    · simp only [Bool.false_eq_true, if_false, if_true, not_lt]
      omega
  · -- Both zeros are the same number.
    simp only [Bool.false_eq_true, if_false, if_true]
    constructor
    · intro h
      by_contra hnot
      have := hzero.2 (by omega)
      have := hzero'.2 (by omega)
      linarith
    · intro h
      by_contra hnot
      have := hzero.1 (by linarith)
      have := hzero'.1 (by linarith)
      omega
  · simpa using hy.value_lt_iff hx

end Decimal.Binary

/-! ## Numbers -/

namespace Number

variable {x y : Number} {p q : WithBot (WithTop ℚ)}

/-- The value of a number on the line with its two ends.  NaN has none. -/
def value? (x : Number) : Option (WithBot (WithTop ℚ)) :=
  if x.isNaN then none
  else
    match x.binary? with
    | some b => some ((b.signed : WithTop ℚ) : WithBot (WithTop ℚ))
    | none => some (if x.isNegative then ⊥ else ⊤)

theorem value?_eq_none : x.value? = none ↔ x.isNaN = true := by
  unfold value?
  split
  next h => exact iff_of_true rfl h
  next h => split <;> exact iff_of_false nofun h

theorem exists_value? (h : x.isNaN = false) : ∃ p, x.value? = some p :=
  Option.ne_none_iff_exists'.1 fun hnone => by rw [value?_eq_none.1 hnone] at h; cases h

/-- The bits of a number with its sign: what its key is, measured from that of zero. -/
def rank (x : Number) : ℤ :=
  if x.isNegative then negativeBit - x.bits.toNat else x.bits.toNat

theorem isNegative_iff : x.isNegative = true ↔ negativeBit ≤ x.bits.toNat := by
  unfold isNegative
  rw [decide_eq_true_eq, UInt64.le_iff_toNat_le]
  rfl

theorem key_eq (x : Number) : (x.key.toNat : ℤ) = negativeBit + x.rank := by
  have hlt := x.bits.toNat_lt
  have hsign : signBit.toNat = negativeBit := rfl
  have hnegative := isNegative_iff (x := x)
  unfold key rank
  unfold negativeBit at *
  split
  next h =>
    have hle := hnegative.1 h
    rw [UInt64.toNat_sub, UInt64.toNat_zero]
    omega
  next h =>
    have hnot := mt hnegative.2 h
    rw [UInt64.toNat_add, hsign]
    omega

theorem key_lt_iff : x.key < y.key ↔ x.rank < y.rank := by
  have hx := x.key_eq
  have hy := y.key_eq
  rw [UInt64.lt_iff_toNat_lt]
  omega

theorem isNaN_iff : x.isNaN = true ↔ infinityBits < x.bits.toNat % negativeBit := by
  have habs : x.abs.bits.toNat = x.bits.toNat % negativeBit :=
    (UInt64.toNat_and ..).trans (Nat.and_two_pow_sub_one_eq_mod x.bits.toNat 63)
  unfold isNaN
  rw [decide_eq_true_eq, UInt64.lt_iff_toNat_lt, habs]
  rfl

/-- A finite number has the rank of its exact value, and its bits are below those of infinity. -/
theorem rank_of_finite {b : Binary} (h : x.binary? = some b) :
    b.Proper ∧ x.rank = b.rank ∧ -(infinityBits : ℤ) < x.rank ∧ x.rank < infinityBits := by
  obtain ⟨proper, hbits⟩ := Binary.of_ofBits? h
  have hlt := proper.magnitudeBits_lt
  have hnat : x.bits.toNat = b.allBits := by
    have hall : b.allBits < 2 ^ 64 := by
      unfold Binary.allBits infinityBits hiddenBit negativeBit at *
      split <;> omega
    rw [← hbits, UInt64.toNat_ofNat_of_lt' hall]
  have hnegative := isNegative_iff (x := x)
  have hrank : x.rank = b.rank := by
    unfold rank Binary.rank
    rw [hnat] at hnegative ⊢
    unfold Binary.allBits infinityBits hiddenBit negativeBit at *
    cases hb : b.negative with
    | false =>
      rw [hb, if_neg Bool.false_ne_true] at hnegative
      rw [if_neg Bool.false_ne_true, if_neg Bool.false_ne_true, if_neg (mt hnegative.1 (by omega))]
    | true =>
      rw [hb, if_pos rfl] at hnegative
      rw [if_pos rfl, if_pos rfl, if_pos (hnegative.2 (by omega))]
      omega
  refine ⟨proper, hrank, ?_⟩
  rw [hrank]
  unfold Binary.rank
  split <;> omega

/-- A number that is neither finite nor NaN is at one of the two ends. -/
theorem rank_of_infinite (h : x.binary? = none) (hnan : x.isNaN = false) :
    x.rank = if x.isNegative then -(infinityBits : ℤ) else infinityBits := by
  have hle : ¬ infinityBits < x.bits.toNat % negativeBit := by
    rw [← isNaN_iff, hnan]
    exact Bool.false_ne_true
  have hfield : x.bits.toNat / hiddenBit % 2048 = 2047 := by
    by_contra hne
    unfold binary? Binary.ofBits? at h
    simp only [hne, if_false] at h
    split at h <;> cases h
  have hnegative := isNegative_iff (x := x)
  have hlt := x.bits.toNat_lt
  unfold rank
  unfold infinityBits hiddenBit negativeBit at *
  split
  next hneg =>
    have hle := hnegative.1 hneg
    omega
  next hneg =>
    have hnot := mt hnegative.2 hneg
    omega

/-- A value is that of a finite number, or one of the two ends. -/
theorem value?_cases (h : x.value? = some p) :
    (∃ b, x.binary? = some b ∧ p = ((b.signed : WithTop ℚ) : WithBot (WithTop ℚ))) ∨
    (x.rank = -(infinityBits : ℤ) ∧ p = ⊥) ∨ (x.rank = infinityBits ∧ p = ⊤) := by
  cases hnan : x.isNaN with
  | true => rw [value?_eq_none.2 hnan] at h; cases h
  | false =>
    unfold value? at h
    rw [hnan, if_neg Bool.false_ne_true] at h
    cases hb : x.binary? with
    | some b =>
      rw [hb] at h
      exact .inl ⟨b, rfl, (Option.some.inj h).symm⟩
    | none =>
      rw [hb] at h
      have hrank := rank_of_infinite hb hnan
      right
      cases hneg : x.isNegative with
      | true =>
        rw [hneg] at h hrank
        exact .inl ⟨hrank, (Option.some.inj h).symm⟩
      | false =>
        rw [hneg] at h hrank
        exact .inr ⟨hrank, (Option.some.inj h).symm⟩

/-- Numbers are in the order of their values. -/
theorem rank_lt_iff (hx : x.value? = some p) (hy : y.value? = some q) : x.rank < y.rank ↔ p < q := by
  rcases value?_cases hx with ⟨b, hb, rfl⟩ | ⟨hrx, rfl⟩ | ⟨hrx, rfl⟩ <;>
    rcases value?_cases hy with ⟨c, hc, rfl⟩ | ⟨hry, rfl⟩ | ⟨hry, rfl⟩
  · obtain ⟨proper, hrank, -⟩ := rank_of_finite hb
    obtain ⟨proper', hrank', -⟩ := rank_of_finite hc
    rw [hrank, hrank', WithBot.coe_lt_coe, WithTop.coe_lt_coe, proper.signed_lt_iff proper']
  · obtain ⟨-, -, hlow, -⟩ := rank_of_finite hb
    exact iff_of_false (by omega) not_lt_bot
  · obtain ⟨-, -, -, hhigh⟩ := rank_of_finite hb
    exact iff_of_true (by omega) (WithBot.coe_lt_coe.2 (WithTop.coe_lt_top _))
  · obtain ⟨-, -, hlow, -⟩ := rank_of_finite hc
    exact iff_of_true (by omega) (WithBot.bot_lt_coe _)
  · exact iff_of_false (by omega) (lt_irrefl _)
  · exact iff_of_true (by rw [hrx, hry]; decide) bot_lt_top
  · obtain ⟨-, -, -, hhigh⟩ := rank_of_finite hc
    exact iff_of_false (by omega) not_top_lt
  · exact iff_of_false (by rw [hrx, hry]; decide) not_top_lt
  · exact iff_of_false (by omega) (lt_irrefl _)

theorem key_lt_iff_of_value? (hx : x.value? = some p) (hy : y.value? = some q) :
    x.key < y.key ↔ p < q := key_lt_iff.trans (rank_lt_iff hx hy)

/-! ## Comparisons -/

/-- NaN takes no part in a comparison. -/
theorem unordered (h : x.isNaN = true ∨ y.isNaN = true) :
    x.less y = false ∧ x.atMost y = false ∧ x.same y = false := by
  unfold less atMost same
  rcases h with h | h <;> simp [h]

section

variable (hx : x.value? = some p) (hy : y.value? = some q)
include hx hy

theorem isNaN_of_value? : x.isNaN = false ∧ y.isNaN = false := by
  constructor
  · by_contra h
    rw [value?_eq_none.2 (Bool.of_not_eq_false h)] at hx
    cases hx
  · by_contra h
    rw [value?_eq_none.2 (Bool.of_not_eq_false h)] at hy
    cases hy

/-- The smaller number has the smaller value. -/
theorem less_iff : x.less y = true ↔ p < q := by
  obtain ⟨hnan, hnan'⟩ := isNaN_of_value? hx hy
  rw [less, hnan, hnan', Bool.not_false, Bool.true_and, Bool.true_and, decide_eq_true_eq,
    key_lt_iff_of_value? hx hy]

theorem atMost_iff : x.atMost y = true ↔ p ≤ q := by
  obtain ⟨hnan, hnan'⟩ := isNaN_of_value? hx hy
  rw [atMost, hnan, hnan', Bool.not_false, Bool.true_and, Bool.true_and, decide_eq_true_eq,
    ← UInt64.not_lt, key_lt_iff_of_value? hy hx, not_lt]

/-- The same number has the same value, which the two zeros have. -/
theorem same_iff : x.same y = true ↔ p = q := by
  rw [same_eq, Bool.and_eq_true, atMost_iff hx hy, atMost_iff hy hx, le_antisymm_iff]

end

end Number

end ChannelMachine

import ChannelMachine.Number
import ChannelMachine.Proofs.Decimal.Rounding

/-!
# Shortest numerals read back

The numeral that is written for a double rounds to it (`Binary.rounds_shortest`), and any numeral of a
value that rounds to a double is read as the bits of it (`Numeral.toBits?_of_rounds`).  The two tests by
which a numeral is read as zero or refused without computing it never meet such a numeral.
-/

namespace ChannelMachine.Decimal

/-! ## Grids -/

namespace Binary

variable {x : Binary} {n : Nat} {k : Int} {tie : Tie}

/-- The units of a grid in a common scale. -/
theorem exists_scale (e k : Int) : ∃ s : ℚ, 0 < s ∧ ((gridAt e k).step : ℚ) = 10 ^ k * s ∧
    ((gridAt e k).quarter : ℚ) = 2 ^ (e - 2) * s := by
  refine ⟨10 ^ (-k).toNat * 2 ^ (2 - e).toNat, by positivity, ?_, ?_⟩
  · have hpow : (10 : ℚ) ^ k * 10 ^ (-k).toNat = 10 ^ k.toNat := by
      rw [← zpow_natCast, ← zpow_natCast, ← zpow_add₀ (by norm_num)]
      congr 1
      omega
    change ((10 ^ k.toNat <<< (2 - e).toNat : Nat) : ℚ) = _
    rw [Nat.shiftLeft_eq, ← mul_assoc, hpow]
    push_cast
    rfl
  · have hpow : (2 : ℚ) ^ (e - 2) * 2 ^ (2 - e).toNat = 2 ^ (e - 2).toNat := by
      rw [← zpow_natCast, ← zpow_natCast, ← zpow_add₀ two_ne_zero]
      congr 1
      omega
    change ((10 ^ (-k).toNat <<< (e - 2).toNat : Nat) : ℚ) = _
    rw [Nat.shiftLeft_eq, mul_left_comm, hpow]
    push_cast
    rfl

/-- The test of a grid point is the one whether it rounds to the double. -/
theorem rounds_of_holds (h : x.holds (gridAt x.exponent k) n = true) :
    x.Rounds (Numeral.mk n k).value := by
  obtain ⟨s, hs, hstep, hquarter⟩ := exists_scale x.exponent k
  have hle : ∀ q p : Nat, q * (gridAt x.exponent k).quarter ≤ p * (gridAt x.exponent k).step ↔
      (q * 2 ^ (x.exponent - 2) : ℚ) ≤ p * 10 ^ k := by
    intro q p
    rw [← Nat.cast_le (α := ℚ), Nat.cast_mul, Nat.cast_mul, hstep, hquarter, ← mul_assoc, ← mul_assoc,
      mul_le_mul_iff_left₀ hs]
  have hge : ∀ q p : Nat, p * (gridAt x.exponent k).step ≤ q * (gridAt x.exponent k).quarter ↔
      (p * 10 ^ k : ℚ) ≤ q * 2 ^ (x.exponent - 2) := by
    intro q p
    rw [← Nat.cast_le (α := ℚ), Nat.cast_mul, Nat.cast_mul, hstep, hquarter, ← mul_assoc, ← mul_assoc,
      mul_le_mul_iff_left₀ hs]
  unfold holds at h
  dsimp only at h
  split at h
  next heven =>
    rw [Bool.and_eq_true, decide_eq_true_eq, decide_eq_true_eq, hle, hge] at h
    exact ⟨h.1, h.2, fun hodd => by omega⟩
  next =>
    rw [Bool.and_eq_true, decide_eq_true_eq, decide_eq_true_eq, ← Nat.not_le, ← Nat.not_le, hle, hge,
      not_le, not_le] at h
    exact ⟨h.1.le, h.2.le, fun _ => h⟩

/-- The point that is taken on a grid rounds to the double. -/
theorem rounds_of_pointOn? (h : x.pointOn? tie (gridAt x.exponent k) = some n) :
    x.Rounds (Numeral.mk n k).value := by
  unfold pointOn? at h
  dsimp only at h
  split at h
  next => cases h
  next hbelow _ =>
    obtain rfl := Option.some.inj h
    exact rounds_of_holds hbelow
  next _ habove =>
    obtain rfl := Option.some.inj h
    exact rounds_of_holds habove
  next hbelow habove =>
    have hor : n = 4 * x.mantissa * (gridAt x.exponent k).quarter / (gridAt x.exponent k).step ∨
        n = 4 * x.mantissa * (gridAt x.exponent k).quarter / (gridAt x.exponent k).step + 1 := by
      split at h
      · exact .inl (Option.some.inj h).symm
      · split at h
        · exact .inr (Option.some.inj h).symm
        · cases tie with
          | even =>
            have heq := Option.some.inj h
            omega
          | up => exact .inr (Option.some.inj h).symm
    rcases hor with rfl | rfl
    · exact rounds_of_holds hbelow
    · exact rounds_of_holds habove

/-- The exact numeral is worth as much as the double. -/
theorem value_exact (x : Binary) : x.exact.value = x.value := by
  unfold exact Numeral.value Binary.value
  split
  next e he =>
    rw [he, Nat.shiftLeft_eq]
    change ((x.mantissa * 2 ^ e : Nat) : ℚ) * 10 ^ (0 : ℤ) = x.mantissa * 2 ^ (e : ℤ)
    rw [zpow_natCast, zpow_zero]
    push_cast
    ring
  next e he =>
    rw [he]
    change ((x.mantissa * 5 ^ (e + 1) : Nat) : ℚ) * 10 ^ (Int.negSucc e) =
      x.mantissa * 2 ^ (Int.negSucc e)
    rw [zpow_negSucc, zpow_negSucc, show (10 : ℚ) = 2 * 5 by norm_num, mul_pow]
    push_cast
    field_simp

/-- A double rounds to itself. -/
theorem rounds_value (hpos : 0 < x.mantissa) : x.Rounds x.value := by
  have htwo : (0 : ℚ) < 2 ^ x.exponent := by positivity
  have hdiv : x.value / 2 ^ x.exponent = x.mantissa := by
    unfold Binary.value
    rw [mul_div_assoc, div_self htwo.ne', mul_one]
  have hlow : (x.lowQuarters : ℚ) < 4 * x.mantissa := by
    rw [lowQuarters_eq hpos]
    split <;> linarith
  have hhigh : (4 * x.mantissa : ℚ) < x.highQuarters := by
    rw [highQuarters_eq]
    linarith
  rw [rounds_iff, hdiv]
  exact ⟨by linarith, by linarith, fun _ => ⟨by linarith, by linarith⟩⟩

theorem rounds_search (hpos : 0 < x.mantissa) (tie : Tie) (n : Nat) :
    ∀ k, x.Rounds (x.search tie n k).value := by
  induction n with
  | zero =>
    intro k
    rw [search, value_exact]
    exact rounds_value hpos
  | succ n ih =>
    intro k
    rw [search]
    split
    next digits h => exact rounds_of_pointOn? h
    next => exact ih _

/-- The numeral that is written rounds to the double. -/
theorem rounds_shortest (hpos : 0 < x.mantissa) (tie : Tie) : x.Rounds (x.shortest tie).value :=
  rounds_search hpos tie 21 _

/-! ## Bits -/

/-- The bits of a double with its sign. -/
def allBits (x : Binary) : Nat := if x.negative then negativeBit + x.magnitudeBits else x.magnitudeBits

theorem Proper.magnitudeBits_lt (proper : x.Proper) : x.magnitudeBits < infinityBits := by
  have hlt := proper.lt
  have hgreatest := proper.greatest
  have hle : (x.exponent - leastExponent).toNat ≤ 2045 := by
    unfold leastExponent
    omega
  have hmul := Nat.mul_le_mul_right hiddenBit hle
  unfold magnitudeBits infinityBits
  unfold hiddenBit at *
  omega

/-- What is read off the bits of a double has these bits. -/
theorem of_ofBits? {bits : UInt64} (h : ofBits? bits = some x) :
    x.Proper ∧ UInt64.ofNat x.allBits = bits := by
  have hbits := bits.toNat_lt
  unfold ofBits? at h
  dsimp only at h
  suffices hx : x.Proper ∧ x.allBits = bits.toNat by
    refine ⟨hx.1, ?_⟩
    rw [hx.2, UInt64.ofNat_toNat]
  generalize bits.toNat = b at *
  split at h
  next => cases h
  next hinfinite =>
    split at h
    next hzero =>
      obtain rfl := Option.some.inj h
      refine ⟨⟨?_, le_rfl, show leastExponent ≤ 971 by decide, fun h => absurd h (lt_irrefl _)⟩, ?_⟩
      · have := Nat.mod_lt b (show 0 < hiddenBit by decide)
        dsimp only
        unfold hiddenBit at *
        omega
      · unfold allBits magnitudeBits
        dsimp only
        rw [sub_self, Int.toNat_zero]
        unfold hiddenBit negativeBit at *
        simp only [decide_eq_true_eq]
        split <;> omega
    next hnormal =>
      obtain rfl := Option.some.inj h
      refine ⟨⟨?_, ?_, ?_, fun _ => Nat.le_add_right ..⟩, ?_⟩
      · have := Nat.mod_lt b (show 0 < hiddenBit by decide)
        dsimp only
        omega
      · unfold leastExponent
        dsimp only
        omega
      · dsimp only
        have := Nat.mod_lt (b / hiddenBit) (show 0 < 2048 by decide)
        omega
      · unfold allBits magnitudeBits leastExponent
        dsimp only
        have hbiased : (((b / hiddenBit % 2048 : Nat) : Int) - 1075 - -1074).toNat + 1 =
            b / hiddenBit % 2048 := by omega
        generalize (((b / hiddenBit % 2048 : Nat) : Int) - 1075 - -1074).toNat = biased at hbiased
        unfold hiddenBit negativeBit at *
        simp only [decide_eq_true_eq]
        split <;> omega

end Binary

/-! ## Reading a numeral -/

theorem lt_pow_digitCount (n : Nat) : n < 10 ^ digitCount n :=
  (Nat.length_toDigits_le_iff (by decide) Nat.length_toDigits_pos).1 le_rfl

theorem pow_pred_digitCount_le {n : Nat} (h : 0 < n) : 10 ^ (digitCount n - 1) ≤ n := by
  rcases Nat.eq_zero_or_pos (digitCount n - 1) with hzero | hpos
  · rw [hzero]
    exact h
  · by_contra hlt
    have hle := (Nat.length_toDigits_le_iff (by decide) hpos).2 (Nat.not_le.1 hlt)
    change digitCount n ≤ digitCount n - 1 at hle
    omega

namespace Numeral

variable {d : Numeral} {x : Binary}

/-- The power of ten above a numeral. -/
theorem value_lt (d : Numeral) : d.value < 10 ^ ((digitCount d.digits : ℤ) + d.exponent) := by
  rw [zpow_add₀ (by norm_num), zpow_natCast]
  unfold value
  gcongr
  exact_mod_cast lt_pow_digitCount d.digits

/-- The power of ten below a numeral. -/
theorem le_value (h : 0 < d.digits) :
    10 ^ ((digitCount d.digits : ℤ) + d.exponent - 1) ≤ d.value := by
  have hcount : 1 ≤ digitCount d.digits := Nat.length_toDigits_pos
  have heq : (digitCount d.digits : ℤ) + d.exponent - 1 =
      ((digitCount d.digits - 1 : Nat) : ℤ) + d.exponent := by omega
  rw [heq, zpow_add₀ (by norm_num), zpow_natCast]
  unfold value
  gcongr
  exact_mod_cast pow_pred_digitCount_le h

theorem digits_pos (h : 0 < d.value) : 0 < d.digits := by
  refine Nat.pos_of_ne_zero fun hzero => ?_
  rw [value, hzero] at h
  simp at h

theorem den_scaled_pos (n : Nat) (e : Int) : 0 < (Ratio.scaled n 10 e).den := by
  cases e with
  | ofNat e => exact Nat.one_pos
  | negSucc e => exact Nat.pow_pos (by decide)

/-- Half of the least double is far above the numerals that are read as zero untested. -/
theorem least_lt : (10 : ℚ) ^ (-331 : ℤ) < 2 ^ (-1075 : ℤ) := by
  have h : (2 : ℕ) ^ 1075 < 10 ^ 331 := by decide +kernel
  have hcast : (2 : ℚ) ^ 1075 < 10 ^ 331 := by exact_mod_cast h
  rw [zpow_neg, zpow_neg]
  exact inv_strictAnti₀ (by positivity) hcast

/-- The greatest double is far below the numerals that are refused untested. -/
theorem lt_greatest : (2 : ℚ) ^ (53 + 971 : ℤ) < 10 ^ (310 : ℤ) := by
  have h : (2 : ℕ) ^ 1024 < 10 ^ 310 := by decide +kernel
  have hcast : (2 : ℚ) ^ 1024 < 10 ^ 310 := by exact_mod_cast h
  calc (2 : ℚ) ^ (53 + 971 : ℤ) = 2 ^ 1024 := zpow_natCast 2 1024
    _ < 10 ^ 310 := hcast
    _ = 10 ^ (310 : ℤ) := (zpow_natCast 10 310).symm

/-- A numeral that rounds to a double is read as the double, with the sign in front of it. -/
theorem toBits?_of_rounds (proper : x.Proper) (hpos : 0 < x.mantissa) (h : x.Rounds d.value)
    (negative : Bool) : d.toBits? negative = some (UInt64.ofNat
      (if negative then negativeBit + x.magnitudeBits else x.magnitudeBits)) := by
  obtain ⟨hlow, hhigh, -⟩ := h.close hpos
  have hdigits := digits_pos (h.pos hpos)
  have htwo : (0 : ℚ) < 2 ^ x.exponent := by positivity
  rw [le_div_iff₀ htwo] at hlow
  rw [div_le_iff₀ htwo] at hhigh
  have hone : (1 : ℚ) ≤ x.mantissa := by exact_mod_cast hpos
  have hmantissa : (x.mantissa : ℚ) + 1 / 2 ≤ 2 ^ (53 : ℤ) := by
    have hlt := proper.lt
    unfold hiddenBit at hlt
    have hle : (x.mantissa : ℚ) ≤ 9007199254740991 := by exact_mod_cast Nat.le_pred_of_lt hlt
    norm_num
    linarith
  have hleast : ¬ (digitCount d.digits : ℤ) + d.exponent < -330 := by
    intro hlt
    have hpow : (10 : ℚ) ^ ((digitCount d.digits : ℤ) + d.exponent) ≤ 10 ^ (-331 : ℤ) :=
      zpow_le_zpow_right₀ (by norm_num) (by omega)
    have hbound : (10 : ℚ) ^ (-331 : ℤ) < 2 ^ (-1075 : ℤ) := least_lt
    have hunit : (2 : ℚ) ^ (-1074 : ℤ) ≤ 2 ^ x.exponent := zpow_le_zpow_right₀ one_le_two proper.least
    have hhalf : (2 : ℚ) ^ (-1075 : ℤ) = 1 / 2 * 2 ^ (-1074 : ℤ) := by
      rw [show (-1075 : ℤ) = -1074 - 1 from rfl, zpow_sub_one₀ two_ne_zero]
      ring
    have hvalue : 1 / 2 * (2 : ℚ) ^ x.exponent ≤ d.value :=
      le_trans (by gcongr; linarith) hlow
    have := d.value_lt
    linarith
  have hgreatest : ¬ 310 < (digitCount d.digits : ℤ) + d.exponent := by
    intro hlt
    have hpow : (10 : ℚ) ^ (310 : ℤ) ≤ 10 ^ ((digitCount d.digits : ℤ) + d.exponent - 1) :=
      zpow_le_zpow_right₀ (by norm_num) (by omega)
    have hbound : (2 : ℚ) ^ (53 + 971 : ℤ) < 10 ^ (310 : ℤ) := lt_greatest
    have hunit : (2 : ℚ) ^ x.exponent ≤ 2 ^ (971 : ℤ) := zpow_le_zpow_right₀ one_le_two proper.greatest
    have hproduct : ((x.mantissa : ℚ) + 1 / 2) * 2 ^ x.exponent ≤ 2 ^ (53 : ℤ) * 2 ^ (971 : ℤ) := by
      gcongr
    rw [← zpow_add₀ two_ne_zero] at hproduct
    have hle := (hpow.trans (le_value hdigits)).trans (hhigh.trans hproduct)
    exact absurd hle (not_le.2 hbound)
  have hratio : x.Rounds d.ratio.value := by
    rw [ratio, Ratio.value_scaled]
    exact h
  have hden : 0 < d.ratio.den := den_scaled_pos _ _
  unfold toBits?
  dsimp only
  rw [if_neg (not_or.2 ⟨Nat.ne_of_gt hdigits, hleast⟩), if_neg hgreatest, Ratio.toBits?,
    Ratio.nearest_of_rounds proper hpos hden hratio]
  exact if_pos proper.magnitudeBits_lt

/-- Zero is read as zero. -/
theorem toBits?_of_eq_zero (h : d.digits = 0) (negative : Bool) :
    d.toBits? negative = some (UInt64.ofNat (if negative then negativeBit else 0)) := by
  unfold toBits?
  dsimp only
  rw [if_pos (.inl h)]
  cases negative <;> rfl

end Numeral

end ChannelMachine.Decimal

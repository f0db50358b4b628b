import ChannelMachine.Proofs.Decimal.Order

/-!
# The nearest double

`Number.RoundsTo v x` says to which double a rational number is rounded, and not how that is found: no finite
double is nearer, of two that are equally near it is the one with the even mantissa, and it has the sign of
the rational number, also where it is zero.  There is one such double at most (`Number.RoundsTo.unique`).

The interval of `Binary.Rounds` goes half of the way to the neighbours on both sides, and so all that is in it
is rounded to the double (`Number.roundsTo_of_rounds`).
-/

namespace ChannelMachine

open Decimal

/-! ## Neighbours -/

namespace Decimal.Binary

variable {x y : Binary} {v : ℚ}

/-- The unit of the doubles just below.  Below a power of two it is half the unit of the power. -/
def unitBelow (x : Binary) : ℚ :=
  if x.mantissa = hiddenBit ∧ x.exponent ≠ leastExponent then 2 ^ (x.exponent - 1) else 2 ^ x.exponent

theorem unitBelow_le (x : Binary) : x.unitBelow ≤ 2 ^ x.exponent := by
  unfold unitBelow
  split
  · exact zpow_le_zpow_right₀ one_le_two (by omega)
  · exact le_rfl

theorem unitBelow_pos (x : Binary) : 0 < x.unitBelow := by
  unfold unitBelow
  split <;> positivity

/-- A unit above a double there is none in between. -/
theorem Proper.value_add_le (hx : x.Proper) (hy : y.Proper) (h : x.value < y.value) :
    x.value + 2 ^ x.exponent ≤ y.value := by
  have hsucc : x.value + 2 ^ x.exponent = (x.mantissa + 1 : ℚ) * 2 ^ x.exponent := by
    unfold value
    ring
  rw [hsucc]
  rcases lt_trichotomy x.exponent y.exponent with he | he | he
  · have hmantissa : (x.mantissa + 1 : ℚ) ≤ 2 * hiddenBit := by exact_mod_cast hx.lt
    have hhidden : (hiddenBit : ℚ) ≤ y.mantissa := by
      exact_mod_cast hy.normal (lt_of_le_of_lt hx.least he)
    have hpow : (2 : ℚ) ^ (x.exponent + 1) ≤ 2 ^ y.exponent := zpow_le_zpow_right₀ one_le_two (by omega)
    calc (x.mantissa + 1 : ℚ) * 2 ^ x.exponent
        ≤ 2 * hiddenBit * 2 ^ x.exponent := by gcongr
      _ = hiddenBit * 2 ^ (x.exponent + 1) := by rw [zpow_add_one₀ two_ne_zero]; ring
      _ ≤ y.mantissa * 2 ^ y.exponent := by gcongr
  · have htwo : (0 : ℚ) < 2 ^ y.exponent := by positivity
    unfold value at h ⊢
    rw [he, mul_lt_mul_iff_of_pos_right htwo, Nat.cast_lt] at h
    rw [he, mul_le_mul_iff_left₀ htwo]
    exact_mod_cast h
  · exact absurd h (lt_asymm (hy.lt_of_exponent hx he).2)

/-- Nor is there one in between in the unit below. -/
theorem Proper.add_unitBelow_le (hx : x.Proper) (hy : y.Proper) (h : y.value < x.value) :
    y.value + x.unitBelow ≤ x.value := by
  have hstep := hy.value_add_le hx h
  rcases lt_trichotomy y.exponent x.exponent with he | he | he
  · have hnormal := hx.normal (lt_of_le_of_lt hy.least he)
    have hmantissa : (y.mantissa + 1 : ℚ) ≤ 2 * hiddenBit := by exact_mod_cast hy.lt
    have hhalf : (2 : ℚ) ^ y.exponent ≤ 2 ^ (x.exponent - 1) := zpow_le_zpow_right₀ one_le_two (by omega)
    have hdouble : (2 : ℚ) ^ x.exponent = 2 * 2 ^ (x.exponent - 1) := by
      rw [zpow_sub_one₀ two_ne_zero]
      field_simp
    have hone : (1 : ℚ) ≤ hiddenBit := by exact_mod_cast (by decide : 1 ≤ hiddenBit)
    have hbelow : y.value ≤ (2 * hiddenBit - 1) * 2 ^ (x.exponent - 1) := by
      unfold value
      gcongr
      · linarith
      · linarith
    unfold unitBelow
    split
    next hpower =>
      unfold value at hbelow ⊢
      rw [hpower.1, hdouble]
      linarith
    next hnot =>
      have hsucc : (hiddenBit + 1 : ℚ) ≤ x.mantissa := by
        have hne : x.mantissa ≠ hiddenBit := fun heq =>
          hnot ⟨heq, (lt_of_le_of_lt hy.least he).ne'⟩
        exact_mod_cast Nat.lt_of_le_of_ne hnormal hne.symm
      have hvalue : (hiddenBit + 1 : ℚ) * 2 ^ x.exponent ≤ x.value := by
        unfold value
        gcongr
      have hpos : (0 : ℚ) < 2 ^ (x.exponent - 1) := by positivity
      rw [hdouble] at hvalue ⊢
      linarith
  · rw [he] at hstep
    exact le_trans (by gcongr; exact x.unitBelow_le) hstep
  · exact absurd h (lt_asymm (hx.lt_of_exponent hy he).2)

/-- The interval of a double is half of the way to its neighbours. -/
theorem Rounds.bounds (h : x.Rounds v) (hpos : 0 < x.mantissa) :
    x.value - x.unitBelow / 2 ≤ v ∧ v ≤ x.value + 2 ^ x.exponent / 2 ∧ (x.mantissa % 2 = 1 →
      x.value - x.unitBelow / 2 < v ∧ v < x.value + 2 ^ x.exponent / 2) := by
  have hquarter : (2 : ℚ) ^ x.exponent = 4 * 2 ^ (x.exponent - 2) := by
    rw [zpow_sub₀ two_ne_zero]
    norm_num
    ring
  have hhalf : (2 : ℚ) ^ (x.exponent - 1) = 2 * 2 ^ (x.exponent - 2) := by
    rw [show x.exponent - 1 = x.exponent - 2 + 1 by ring, zpow_add_one₀ two_ne_zero, mul_comm]
  have hlow : (x.lowQuarters : ℚ) * 2 ^ (x.exponent - 2) = x.value - x.unitBelow / 2 := by
    rw [lowQuarters_eq hpos]
    unfold value unitBelow
    split
    · rw [hhalf, hquarter]
      ring
    · rw [hquarter]
      ring
  have hhigh : (x.highQuarters : ℚ) * 2 ^ (x.exponent - 2) = x.value + 2 ^ x.exponent / 2 := by
    rw [highQuarters_eq]
    unfold value
    rw [hquarter]
    ring
  unfold Rounds at h
  rwa [hlow, hhigh] at h

theorem abs_signed (x : Binary) : |x.signed| = x.value := by
  unfold signed
  split
  · rw [abs_neg, abs_of_nonneg x.value_nonneg]
  · exact abs_of_nonneg x.value_nonneg

/-- Two doubles with one sign have different magnitudes if they have different values. -/
theorem value_ne_of_signed_ne (hsign : x.negative = y.negative) (h : x.signed ≠ y.signed) :
    x.value ≠ y.value := by
  intro heq
  unfold signed at h
  rw [hsign, heq] at h
  exact h rfl

/-- A double is as far from a value with its sign as their magnitudes are from each other. -/
theorem abs_sub_signed (h : x.negative = decide (v < 0)) : |v - x.signed| = |(|v| - x.value)| := by
  unfold signed
  rw [h]
  rcases lt_or_ge v 0 with hneg | hpos
  · rw [if_pos (decide_eq_true hneg), abs_of_neg hneg, ← abs_neg]
    ring_nf
  · rw [if_neg (by simpa using hpos), abs_of_nonneg hpos]

/-- The sum of the magnitudes is the distance if the signs differ. -/
theorem abs_sub_signed_of_ne (h : x.negative ≠ decide (v < 0)) : |v - x.signed| = |v| + x.value := by
  have hvalue := x.value_nonneg
  unfold signed
  rcases lt_or_ge v 0 with hneg | hpos
  · rw [decide_eq_true hneg] at h
    rw [if_neg h, abs_of_neg hneg, abs_of_nonpos (by linarith)]
    ring
  · rw [decide_eq_false (not_lt.2 hpos)] at h
    rw [if_pos (Bool.of_not_eq_false h), abs_of_nonneg hpos, abs_of_nonneg (by linarith)]
    ring

/-- Any other double is at least as far. -/
theorem abs_sub_value_le (x : Binary) (v : ℚ) : |(|v| - x.value)| ≤ |v - x.signed| := by
  rw [← x.abs_signed]
  exact abs_abs_sub_abs_le v x.signed

/-! ## Nearest -/

/-- No double is nearer to a value, and the mantissa is even if another one is as near. -/
structure Nearest (x : Binary) (v : ℚ) : Prop where
  /-- None is nearer. -/
  near : ∀ y : Binary, y.Proper → |v - x.signed| ≤ |v - y.signed|
  /-- Of two equally near ones this is the even one. -/
  even : ∀ y : Binary, y.Proper → y.signed ≠ x.signed → |v - y.signed| = |v - x.signed| →
    x.mantissa % 2 = 0

/-- Magnitudes in the interval of a double are not nearer to any other one. -/
theorem Rounds.abs_sub_le (h : x.Rounds v) (hpos : 0 < x.mantissa) (hx : x.Proper) (hy : y.Proper) :
    |v - x.value| ≤ |v - y.value| ∧
      (y.value ≠ x.value → |v - y.value| = |v - x.value| → x.mantissa % 2 = 0) := by
  obtain ⟨hlow, hhigh, hodd⟩ := h.bounds hpos
  have hparity : ¬ x.mantissa % 2 = 1 → x.mantissa % 2 = 0 := by omega
  have hunit : (0 : ℚ) < 2 ^ x.exponent := by positivity
  have hbelow := x.unitBelow_pos
  rcases lt_trichotomy x.value y.value with hlt | heq | hlt
  · have hgap := hx.value_add_le hy hlt
    have hdist : |v - y.value| = y.value - v := by
      rw [abs_sub_comm]
      exact abs_of_nonneg (by linarith)
    rw [hdist]
    refine ⟨abs_le.2 ⟨by linarith, by linarith⟩, fun _ htie => hparity fun h => ?_⟩
    obtain ⟨-, hhigh'⟩ := hodd h
    have hnearer : |v - x.value| < y.value - v := abs_lt.2 ⟨by linarith, by linarith⟩
    exact absurd htie hnearer.ne'
  · exact ⟨by rw [heq], fun hne => absurd heq.symm hne⟩
  · have hgap := hx.add_unitBelow_le hy hlt
    have hdist : |v - y.value| = v - y.value := abs_of_nonneg (by linarith)
    rw [hdist]
    refine ⟨abs_le.2 ⟨by linarith, by linarith⟩, fun _ htie => hparity fun h => ?_⟩
    obtain ⟨hlow', -⟩ := hodd h
    have hnearer : |v - x.value| < v - y.value := abs_lt.2 ⟨by linarith, by linarith⟩
    exact absurd htie hnearer.ne'

/-- A value whose magnitude is in the interval of a double has it as the nearest, if the signs agree. -/
theorem Rounds.nearest (h : x.Rounds |v|) (hpos : 0 < x.mantissa) (hx : x.Proper)
    (hsign : x.negative = decide (v < 0)) : x.Nearest v where
  near := by
    intro y hy
    rw [abs_sub_signed hsign]
    exact (h.abs_sub_le hpos hx hy).1.trans (y.abs_sub_value_le v)
  even := by
    intro y hy hne htie
    rw [abs_sub_signed hsign] at htie
    obtain ⟨hle, heven⟩ := h.abs_sub_le hpos hx hy
    refine heven (fun hvalue => ?_) (le_antisymm (htie ▸ y.abs_sub_value_le v) hle)
    -- The double with the other sign is farther.
    have hother : y.negative ≠ decide (v < 0) := fun heq =>
      value_ne_of_signed_ne (heq.trans hsign.symm) hne hvalue
    have hv := h.pos hpos
    have hx := (rounds_value hpos).pos hpos
    rw [abs_sub_signed_of_ne hother, hvalue] at htie
    rcases abs_cases (|v| - x.value) with ⟨heq, -⟩ | ⟨heq, -⟩ <;> linarith

theorem Proper.mantissa_eq (hx : x.Proper) (hy : y.Proper) (h : x.value = y.value) :
    x.mantissa = y.mantissa := by
  rcases lt_trichotomy x.exponent y.exponent with he | he | he
  · exact absurd h (hx.lt_of_exponent hy he).2.ne
  · have htwo : (0 : ℚ) < 2 ^ y.exponent := by positivity
    unfold value at h
    rw [he, mul_left_inj' htwo.ne'] at h
    exact_mod_cast h
  · exact absurd h (hy.lt_of_exponent hx he).2.ne'

/-- Two doubles are not the nearest ones both.  They would be even, and the odd one behind the smaller would be
nearer. -/
theorem Nearest.not_both (near : x.Nearest v) (near' : y.Nearest v) (hx : x.Proper) (hy : y.Proper)
    (hsign : x.negative = decide (v < 0)) (hsign' : y.negative = decide (v < 0))
    (h : x.value < y.value) : False := by
  have htie : |v - y.signed| = |v - x.signed| := le_antisymm (near'.near x hx) (near.near y hy)
  have hne : y.signed ≠ x.signed := fun heq => by
    rw [← x.abs_signed, ← y.abs_signed, heq] at h
    exact lt_irrefl _ h
  have heven := near.even y hy hne htie
  have heven' := near'.even x hx hne.symm htie.symm
  have hlt := hx.lt
  have hnext : Proper ⟨x.negative, x.mantissa + 1, x.exponent⟩ := by
    refine ⟨?_, hx.least, hx.greatest, fun h => le_trans (hx.normal h) (Nat.le_succ _)⟩
    unfold hiddenBit at *
    dsimp only
    omega
  have hvalue : value ⟨x.negative, x.mantissa + 1, x.exponent⟩ = x.value + 2 ^ x.exponent := by
    unfold value
    push_cast
    ring
  have hunit : (0 : ℚ) < 2 ^ x.exponent := by positivity
  have hnearer := near.near _ hnext
  rw [abs_sub_signed hsign, abs_sub_signed hsign'] at htie
  rw [abs_sub_signed hsign, abs_sub_signed (x := ⟨x.negative, x.mantissa + 1, x.exponent⟩) hsign,
    hvalue] at hnearer
  have hmiddle : |v| - x.value = y.value - |v| := by
    rcases abs_eq_abs.1 htie with heq | heq <;> linarith
  rcases lt_or_eq_of_le (hx.value_add_le hy h) with hbetween | hequal
  · have hclose : |(|v| - (x.value + 2 ^ x.exponent))| < |v| - x.value :=
      abs_lt.2 ⟨by linarith, by linarith⟩
    rw [abs_of_pos (by linarith)] at hnearer
    linarith
  · have hodd : x.mantissa + 1 = y.mantissa := hnext.mantissa_eq hy (hvalue.trans hequal)
    omega

/-- The value halfway between the greatest double and the next power of two.  From here on numbers are
rounded to infinity. -/
def overflow : ℚ := (2 ^ 54 - 1) * 2 ^ (970 : ℤ)

theorem Rounds.lt_overflow (h : x.Rounds v) (hpos : 0 < x.mantissa) (hx : x.Proper) : v < overflow := by
  obtain ⟨-, hhigh, hodd⟩ := h.close hpos
  have htwo : (0 : ℚ) < 2 ^ x.exponent := by positivity
  have hmantissa := hx.lt
  unfold hiddenBit at hmantissa
  have hlt : v / 2 ^ x.exponent < 2 ^ 53 - 1 / 2 := by
    rcases Nat.lt_or_ge (x.mantissa + 1) (2 ^ 53) with hsmall | hlarge
    · have hle : (x.mantissa : ℚ) + 2 ≤ 2 ^ 53 := by exact_mod_cast hsmall
      linarith
    -- The greatest mantissa is odd.
    · have heq : (x.mantissa : ℚ) + 1 = 2 ^ 53 := by
        exact_mod_cast (by omega : x.mantissa + 1 = 2 ^ 53)
      have hstrict := (hodd (by omega)).2
      linarith
  rw [div_lt_iff₀ htwo] at hlt
  calc v < (2 ^ 53 - 1 / 2) * 2 ^ x.exponent := hlt
    _ ≤ (2 ^ 53 - 1 / 2) * 2 ^ (970 + 1 : ℤ) :=
        mul_le_mul_of_nonneg_left (zpow_le_zpow_right₀ one_le_two hx.greatest) (by norm_num)
    _ = overflow := by
        rw [overflow, zpow_add_one₀ two_ne_zero]
        ring

end Decimal.Binary

/-! ## Rounding -/

namespace Number

variable {x y : Number} {v : ℚ}

/-- A rational number is rounded to a finite double. -/
structure RoundsTo (v : ℚ) (x : Number) : Prop where
  /-- It is not so large that it is rounded to infinity. -/
  small : |v| < Binary.overflow
  /-- The double is the nearest one and has the sign of the rational number. -/
  nearest : ∃ b, x.binary? = some b ∧ b.negative = decide (v < 0) ∧ b.Nearest v

/-- The magnitudes that are rounded to a double are in its interval. -/
theorem roundsTo_of_rounds {b : Binary} (hb : x.binary? = some b) (hpos : 0 < b.mantissa)
    (h : b.Rounds |v|) (hsign : b.negative = decide (v < 0)) : RoundsTo v x where
  small := h.lt_overflow hpos (rank_of_finite hb).1
  nearest := ⟨b, hb, hsign, h.nearest hpos (rank_of_finite hb).1 hsign⟩

theorem roundsTo_zero : RoundsTo 0 zero where
  small := by
    unfold Binary.overflow
    rw [abs_zero]
    norm_num
  nearest := by
    refine ⟨⟨false, 0, leastExponent⟩, rfl, rfl, fun y _ => ?_, fun _ _ _ _ => rfl⟩
    simp [Binary.signed, Binary.value]

/-- A double is known by its sign and its magnitude. -/
theorem eq_of_signed_eq {b c : Binary} (hb : x.binary? = some b) (hc : y.binary? = some c)
    (hsign : b.negative = c.negative) (h : b.value = c.value) : x = y := by
  obtain ⟨properB, hbitsB⟩ := Binary.of_ofBits? hb
  obtain ⟨properC, hbitsC⟩ := Binary.of_ofBits? hc
  have hle := mt (properB.value_lt_iff properC).2 h.not_lt
  have hge := mt (properC.value_lt_iff properB).2 h.not_gt
  have hmagnitude : b.magnitudeBits = c.magnitudeBits := by omega
  have hbits : b.allBits = c.allBits := by
    unfold Binary.allBits
    rw [hsign, hmagnitude]
  have heq : x.bits = y.bits := by rw [← hbitsB, ← hbitsC, hbits]
  exact congrArg mk heq

/-- A rational number is rounded to one double at most. -/
theorem RoundsTo.unique (hx : RoundsTo v x) (hy : RoundsTo v y) : x = y := by
  obtain ⟨b, hb, hsign, near⟩ := hx.nearest
  obtain ⟨c, hc, hsign', near'⟩ := hy.nearest
  have hsigns := hsign.trans hsign'.symm
  have proper := (rank_of_finite hb).1
  have proper' := (rank_of_finite hc).1
  rcases lt_trichotomy b.value c.value with h | h | h
  · exact (near.not_both near' proper proper' hsign hsign' h).elim
  · exact eq_of_signed_eq hb hc hsigns h
  · exact (near'.not_both near proper' proper hsign' hsign h).elim

end Number

end ChannelMachine

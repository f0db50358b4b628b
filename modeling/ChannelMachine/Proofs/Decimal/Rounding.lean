import Mathlib.Algebra.Order.Field.Power
import Mathlib.Tactic.FieldSimp
import Mathlib.Tactic.Linarith
import Mathlib.Tactic.Positivity
import Mathlib.Tactic.Ring
import ChannelMachine.Decimal.Layout

/-!
# Rounding to doubles

A finite double is known by its mantissa and its exponent.  The reals that round to it form an interval
(`Binary.Rounds`), and `Ratio.nearest` gives the bits of the double for every ratio in the interval,
however the ratio is written (`Ratio.nearest_of_rounds`).

The one hard place is just below a power of two, where the doubles lie twice as dense.  A ratio there has
a unit of half the size, its mantissa rounds up to `2 ^ 53`, and the carry into the exponent field makes
up for it.
-/

namespace ChannelMachine.Decimal

/-! ## Values -/

/-- The value of a ratio. -/
def Ratio.value (r : Ratio) : ℚ := r.num / r.den

/-- The magnitude of a double. -/
def Binary.value (x : Binary) : ℚ := x.mantissa * 2 ^ x.exponent

/-- The value of a numeral. -/
def Numeral.value (d : Numeral) : ℚ := d.digits * 10 ^ d.exponent

namespace Ratio

theorem value_scaled (n base : Nat) (e : Int) : (scaled n base e).value = n * (base : ℚ) ^ e := by
  cases e with
  | ofNat e =>
    change ((n * base ^ e : Nat) : ℚ) / (1 : Nat) = n * (base : ℚ) ^ (e : ℤ)
    rw [zpow_natCast]
    push_cast
    ring
  | negSucc e =>
    change (n : ℚ) / ((base ^ (e + 1) : Nat) : ℚ) = n * (base : ℚ) ^ (Int.negSucc e)
    rw [zpow_negSucc]
    push_cast
    rw [div_eq_mul_inv]

theorem value_unscale (r : Ratio) (e : Int) : (r.unscale e).value = r.value / 2 ^ e := by
  cases e with
  | ofNat e =>
    change (r.num : ℚ) / ((r.den <<< e : Nat) : ℚ) = r.num / r.den / 2 ^ (e : ℤ)
    rw [Nat.shiftLeft_eq, zpow_natCast]
    push_cast
    rw [div_div]
  | negSucc e =>
    change ((r.num <<< (e + 1) : Nat) : ℚ) / r.den = r.num / r.den / 2 ^ (Int.negSucc e)
    rw [Nat.shiftLeft_eq, zpow_negSucc]
    push_cast
    rw [div_inv_eq_mul]
    ring

theorem den_unscale_pos {r : Ratio} (h : 0 < r.den) (e : Int) : 0 < (r.unscale e).den := by
  cases e with
  | ofNat e =>
    change 0 < r.den <<< e
    rw [Nat.shiftLeft_eq]
    positivity
  | negSucc e => exact h

/-! ## The nearest integer -/

/-- A ratio rounds to an integer that is half a unit away at most, and even if it is just that. -/
theorem roundEven_eq {r : Ratio} (hden : 0 < r.den) {m : Nat} (hlow : (m : ℚ) - 1 / 2 ≤ r.value)
    (hhigh : r.value ≤ m + 1 / 2)
    (heven : m % 2 = 1 → (m : ℚ) - 1 / 2 < r.value ∧ r.value < m + 1 / 2) : r.roundEven = m := by
  have hden' : (0 : ℚ) < r.den := by exact_mod_cast hden
  -- The same with natural numbers.
  have hdiv := Nat.div_add_mod r.num r.den
  have hlt := Nat.mod_lt r.num hden
  unfold value at hlow hhigh heven
  have hlow' : 2 * m * r.den ≤ 2 * r.num + r.den := by
    rw [le_div_iff₀ hden'] at hlow
    have h : (2 * m * r.den : ℚ) ≤ 2 * r.num + r.den := by linarith
    exact_mod_cast h
  have hhigh' : 2 * r.num ≤ 2 * m * r.den + r.den := by
    rw [div_le_iff₀ hden'] at hhigh
    have h : (2 * r.num : ℚ) ≤ 2 * m * r.den + r.den := by linarith
    exact_mod_cast h
  have heven' : m % 2 = 1 → 2 * m * r.den < 2 * r.num + r.den ∧
      2 * r.num < 2 * m * r.den + r.den := by
    intro hodd
    obtain ⟨h₁, h₂⟩ := heven hodd
    rw [lt_div_iff₀ hden'] at h₁
    rw [div_lt_iff₀ hden'] at h₂
    have h₁' : (2 * m * r.den : ℚ) < 2 * r.num + r.den := by linarith
    have h₂' : (2 * r.num : ℚ) < 2 * m * r.den + r.den := by linarith
    exact ⟨by exact_mod_cast h₁', by exact_mod_cast h₂'⟩
  unfold roundEven
  dsimp only
  generalize r.num / r.den = q at hdiv
  generalize r.num % r.den = rest at hdiv hlt
  rw [← hdiv] at hlow' hhigh' heven'
  -- The floor is the integer or the one below.
  have hle : q ≤ m := by
    by_contra hgt
    have : r.den * (m + 1) ≤ r.den * q := Nat.mul_le_mul_left _ (by omega)
    nlinarith
  have hge : m ≤ q + 1 := by
    by_contra hgt
    have : r.den * (q + 2) ≤ r.den * m := Nat.mul_le_mul_left _ (by omega)
    nlinarith
  rcases Nat.lt_or_eq_of_le hle with hlt' | rfl
  · obtain rfl : m = q + 1 := by omega
    have hhalf : r.den ≤ 2 * rest := by nlinarith
    have hodd : 2 * rest = r.den → q % 2 = 1 := by
      intro htie
      by_contra hq
      have := (heven' (by omega)).1
      nlinarith
    rw [if_neg]
    omega
  · have hhalf : 2 * rest ≤ r.den := by nlinarith
    have htie : 2 * rest = r.den → q % 2 = 0 := by
      intro htie
      by_contra hq
      have := (heven' (by omega)).2
      nlinarith
    rw [if_pos]
    omega

/-! ## The unit -/

theorem pow_log2_le {n : Nat} (h : 0 < n) : (2 : ℚ) ^ (n.log2 : ℤ) ≤ n := by
  rw [zpow_natCast]
  exact_mod_cast Nat.log2_self_le (Nat.ne_of_gt h)

theorem lt_pow_log2 (n : Nat) : (n : ℚ) < 2 ^ (n.log2 + 1 : ℤ) := by
  have h := Nat.lt_log2_self (n := n)
  have hcast : (n : ℚ) < ((2 ^ (n.log2 + 1) : Nat) : ℚ) := by exact_mod_cast h
  rw [Nat.cast_pow] at hcast
  exact_mod_cast hcast

/-- A positive ratio has 53 binary digits in its unit, unless the unit is the least one. -/
theorem exists_unitExponent {r : Ratio} (hnum : 0 < r.num) (hden : 0 < r.den) :
    ∃ e, r.unitExponent = max leastExponent e ∧ (2 : ℚ) ^ (52 : ℤ) ≤ r.value / 2 ^ e ∧
      r.value / 2 ^ e < 2 ^ (53 : ℤ) := by
  have hden' : (0 : ℚ) < r.den := by exact_mod_cast hden
  unfold unitExponent
  dsimp only
  generalize hguess : (r.num.log2 : ℤ) - r.den.log2 - 52 = guess
  -- The guess is right or too large by one.
  have htwo : (0 : ℚ) < 2 ^ guess := by positivity
  have hlow : (2 : ℚ) ^ (51 : ℤ) ≤ r.value / 2 ^ guess := by
    rw [le_div_iff₀ htwo, ← zpow_add₀ two_ne_zero, value, le_div_iff₀ hden']
    calc (2 : ℚ) ^ (51 + guess) * r.den
        ≤ 2 ^ (51 + guess) * 2 ^ (r.den.log2 + 1 : ℤ) := by
          gcongr
          exact (lt_pow_log2 _).le
      _ = 2 ^ (r.num.log2 : ℤ) := by
          rw [← zpow_add₀ two_ne_zero]
          congr 1
          omega
      _ ≤ r.num := pow_log2_le hnum
  have hhigh : r.value / 2 ^ guess < 2 ^ (53 : ℤ) := by
    rw [div_lt_iff₀ htwo, ← zpow_add₀ two_ne_zero, value, div_lt_iff₀ hden']
    calc (r.num : ℚ) < 2 ^ (r.num.log2 + 1 : ℤ) := lt_pow_log2 _
      _ = 2 ^ (53 + guess) * 2 ^ (r.den.log2 : ℤ) := by
          rw [← zpow_add₀ two_ne_zero]
          congr 1
          omega
      _ ≤ 2 ^ (53 + guess) * r.den := by
          gcongr
          exact pow_log2_le hden
  have hsmall : (r.unscale guess).num < (r.unscale guess).den * hiddenBit ↔
      r.value / 2 ^ guess < 2 ^ (52 : ℤ) := by
    have hpos : (0 : ℚ) < (r.unscale guess).den := by exact_mod_cast den_unscale_pos hden guess
    rw [← value_unscale, value, div_lt_iff₀ hpos, mul_comm]
    unfold hiddenBit
    norm_cast
  split
  next h =>
    have hdouble : r.value / 2 ^ (guess - 1) = 2 * (r.value / 2 ^ guess) := by
      rw [zpow_sub_one₀ two_ne_zero]
      field_simp
    have hlt := hsmall.1 h
    refine ⟨guess - 1, rfl, ?_, ?_⟩
    · rw [hdouble, show (52 : ℤ) = 51 + 1 from rfl, zpow_add_one₀ two_ne_zero]
      linarith
    · rw [hdouble, show (53 : ℤ) = 52 + 1 from rfl, zpow_add_one₀ two_ne_zero]
      linarith
  next h => exact ⟨guess, rfl, not_lt.1 fun hlt => h (hsmall.2 hlt), hhigh⟩

end Ratio

/-! ## The interval of a double -/

/-- A finite double in the form in which it is read off its bits. -/
structure Binary.Proper (x : Binary) : Prop where
  /-- The mantissa has 53 binary digits at most. -/
  lt : x.mantissa < 2 * hiddenBit
  /-- The exponent is not below the least one. -/
  least : leastExponent ≤ x.exponent
  /-- The exponent is not above the greatest one. -/
  greatest : x.exponent ≤ 971
  /-- The leading digit is there unless the exponent is the least one. -/
  normal : leastExponent < x.exponent → hiddenBit ≤ x.mantissa

/-- A value rounds to a double. -/
def Binary.Rounds (x : Binary) (v : ℚ) : Prop :=
  x.lowQuarters * 2 ^ (x.exponent - 2) ≤ v ∧ v ≤ x.highQuarters * 2 ^ (x.exponent - 2) ∧
    (x.mantissa % 2 = 1 →
      x.lowQuarters * 2 ^ (x.exponent - 2) < v ∧ v < x.highQuarters * 2 ^ (x.exponent - 2))

namespace Binary

variable {x : Binary} {v : ℚ}

/-- The bits of the magnitude of a double. -/
def magnitudeBits (x : Binary) : Nat :=
  (x.exponent - leastExponent).toNat * hiddenBit + x.mantissa

theorem quarters (e : Int) (n : ℚ) : n * 2 ^ (e - 2) / 2 ^ e = n / 4 := by
  rw [zpow_sub₀ two_ne_zero]
  field_simp
  norm_num

/-- The interval in units of the last place. -/
theorem rounds_iff : x.Rounds v ↔ (x.lowQuarters : ℚ) / 4 ≤ v / 2 ^ x.exponent ∧
    v / 2 ^ x.exponent ≤ (x.highQuarters : ℚ) / 4 ∧ (x.mantissa % 2 = 1 →
      (x.lowQuarters : ℚ) / 4 < v / 2 ^ x.exponent ∧
        v / 2 ^ x.exponent < (x.highQuarters : ℚ) / 4) := by
  have hpos : (0 : ℚ) < 2 ^ x.exponent := by positivity
  have h : ∀ n : ℚ, n * 2 ^ (x.exponent - 2) = n / 4 * 2 ^ x.exponent := by
    intro n
    rw [← quarters x.exponent n, div_mul_cancel₀ _ hpos.ne']
  unfold Rounds
  rw [h, h, ← le_div_iff₀ hpos, ← div_le_iff₀ hpos, ← lt_div_iff₀ hpos, ← div_lt_iff₀ hpos]

theorem lowQuarters_eq (h : 0 < x.mantissa) : (x.lowQuarters : ℚ) = 4 * x.mantissa -
    if x.mantissa = hiddenBit ∧ x.exponent ≠ leastExponent then 1 else 2 := by
  unfold lowQuarters
  split
  · rw [Nat.cast_sub (by omega)]
    push_cast
    rfl
  · rw [Nat.cast_sub (by omega)]
    push_cast
    rfl

theorem highQuarters_eq : (x.highQuarters : ℚ) = 4 * x.mantissa + 2 := by
  unfold highQuarters
  push_cast
  rfl

/-- A value that rounds to a double is half a unit away at most. -/
theorem Rounds.close (h : x.Rounds v) (hpos : 0 < x.mantissa) :
    (x.mantissa : ℚ) - 1 / 2 ≤ v / 2 ^ x.exponent ∧ v / 2 ^ x.exponent ≤ x.mantissa + 1 / 2 ∧
      (x.mantissa % 2 = 1 → (x.mantissa : ℚ) - 1 / 2 < v / 2 ^ x.exponent ∧
        v / 2 ^ x.exponent < x.mantissa + 1 / 2) := by
  obtain ⟨hlow, hhigh, hodd⟩ := rounds_iff.1 h
  rw [lowQuarters_eq hpos] at hlow hodd
  rw [highQuarters_eq] at hhigh hodd
  have hle : (4 * x.mantissa - 2 : ℚ) ≤ 4 * x.mantissa -
      if x.mantissa = hiddenBit ∧ x.exponent ≠ leastExponent then 1 else 2 := by
    split <;> linarith
  refine ⟨by linarith, by linarith, fun h => ?_⟩
  obtain ⟨h₁, h₂⟩ := hodd h
  exact ⟨by linarith, by linarith⟩

theorem Rounds.pos (h : x.Rounds v) (hpos : 0 < x.mantissa) : 0 < v := by
  have hlow := (h.close hpos).1
  have hone : (1 : ℚ) ≤ x.mantissa := by exact_mod_cast hpos
  have htwo : (0 : ℚ) < 2 ^ x.exponent := by positivity
  have hdiv : 0 < v / 2 ^ x.exponent := by linarith
  exact (div_pos_iff_of_pos_right htwo).1 hdiv

end Binary

/-! ## The nearest double -/

/-- A larger unit gives at most half as many. -/
theorem two_mul_div_le {v : ℚ} (hv : 0 ≤ v) {e e' : Int} (h : e < e') :
    2 * (v / 2 ^ e') ≤ v / 2 ^ e := by
  have hle : (2 : ℚ) ^ (e + 1) ≤ 2 ^ e' := zpow_le_zpow_right₀ one_le_two h
  calc 2 * (v / 2 ^ e') ≤ 2 * (v / 2 ^ (e + 1)) := by gcongr
    _ = v / 2 ^ e := by
        rw [zpow_add_one₀ two_ne_zero]
        field_simp

/-- The unit in which a value has 53 binary digits. -/
theorem unit_unique {v : ℚ} {e e' : Int} (hlow : 2 ^ (52 : ℤ) ≤ v / 2 ^ e)
    (hhigh : v / 2 ^ e < 2 ^ (53 : ℤ)) (hlow' : 2 ^ (52 : ℤ) ≤ v / 2 ^ e')
    (hhigh' : v / 2 ^ e' < 2 ^ (53 : ℤ)) : e = e' := by
  have htwo : (0 : ℚ) < 2 ^ e := by positivity
  have hv : 0 ≤ v := by
    have hdiv : (0 : ℚ) ≤ v / 2 ^ e := le_trans (by positivity) hlow
    have hmul := mul_nonneg hdiv htwo.le
    rwa [div_mul_cancel₀ _ htwo.ne'] at hmul
  rw [show (53 : ℤ) = 52 + 1 from rfl, zpow_add_one₀ two_ne_zero] at hhigh hhigh'
  rcases lt_trichotomy e e' with h | h | h
  · have := two_mul_div_le hv h
    linarith
  · exact h
  · have := two_mul_div_le hv h
    linarith

namespace Ratio

variable {r : Ratio} {x : Binary}

/-- In the unit of a double a ratio that rounds to it gives its mantissa. -/
theorem roundEven_unscale (hden : 0 < r.den) (hpos : 0 < x.mantissa) (h : x.Rounds r.value) :
    (r.unscale x.exponent).roundEven = x.mantissa := by
  obtain ⟨hlow, hhigh, hodd⟩ := h.close hpos
  rw [← value_unscale] at hlow hhigh hodd
  exact roundEven_eq (den_unscale_pos hden _) hlow hhigh hodd

/-- A ratio that rounds to a double gives its bits. -/
theorem nearest_of_rounds (proper : x.Proper) (hpos : 0 < x.mantissa) (hden : 0 < r.den)
    (h : x.Rounds r.value) : r.nearest = x.magnitudeBits := by
  have hv := h.pos hpos
  have hnum : 0 < r.num := by
    refine Nat.pos_of_ne_zero fun hzero => ?_
    rw [value, hzero] at hv
    simp at hv
  obtain ⟨hlow, hhigh, -⟩ := Binary.rounds_iff.1 h
  rw [Binary.lowQuarters_eq hpos] at hlow
  rw [Binary.highQuarters_eq] at hhigh
  obtain ⟨e, hunit, hlowE, hhighE⟩ := exists_unitExponent hnum hden
  have hmantissa : (x.mantissa : ℚ) ≤ 2 ^ (53 : ℤ) - 1 := by
    have hlt := proper.lt
    unfold hiddenBit at hlt
    have hle : (x.mantissa : ℚ) ≤ (2 ^ 53 - 1 : Nat) := by exact_mod_cast Nat.le_pred_of_lt hlt
    norm_num at hle ⊢
    exact hle
  unfold nearest
  rw [if_neg (Nat.ne_of_gt hnum), hunit]
  dsimp only
  -- The unit is that of the double.
  have hsame : max leastExponent e = x.exponent →
      (max leastExponent e - leastExponent).toNat * hiddenBit +
        (r.unscale (max leastExponent e)).roundEven = x.magnitudeBits := by
    intro heq
    rw [heq, roundEven_unscale hden hpos h]
    rfl
  rcases le_or_gt ((2 : ℚ) ^ (52 : ℤ)) (r.value / 2 ^ x.exponent) with hlarge | hsmall
  · have heq : e = x.exponent := unit_unique hlowE hhighE hlarge (by linarith)
    exact hsame (by rw [heq, max_eq_right proper.least])
  · have hlt : e < x.exponent := by
      by_contra hge
      have hle : r.value / 2 ^ e ≤ r.value / 2 ^ x.exponent := by
        gcongr
        · exact one_le_two
        · exact not_lt.1 hge
      linarith
    rcases eq_or_lt_of_le proper.least with hleast | hleast
    · exact hsame (by rw [← hleast] at hlt ⊢; exact max_eq_left hlt.le)
    -- The ratio lies between a power of two and the double below.
    have hhidden : (hiddenBit : ℚ) = 2 ^ (52 : ℤ) := by
      unfold hiddenBit
      norm_num
    have hmin : x.mantissa = hiddenBit := by
      refine Nat.le_antisymm ?_ (proper.normal hleast)
      by_contra hgt
      have hge : (hiddenBit + 1 : ℚ) ≤ x.mantissa := by exact_mod_cast Nat.not_le.1 hgt
      rw [if_neg (fun h => hgt h.1.le)] at hlow
      linarith
    rw [if_pos ⟨hmin, hleast.ne'⟩, hmin, hhidden] at hlow
    have hdouble : r.value / 2 ^ (x.exponent - 1) = 2 * (r.value / 2 ^ x.exponent) := by
      rw [zpow_sub_one₀ two_ne_zero]
      field_simp
    have hpow : (2 : ℚ) ^ (53 : ℤ) = 2 * 2 ^ (52 : ℤ) := by norm_num
    have heq : e = x.exponent - 1 := by
      refine unit_unique hlowE hhighE ?_ ?_
      · rw [hdouble]
        norm_num at hlow ⊢
        linarith
      · rw [hdouble, hpow]
        linarith
    have hround : (r.unscale (x.exponent - 1)).roundEven = 2 * hiddenBit := by
      refine roundEven_eq (den_unscale_pos hden _) ?_ ?_ (fun hodd => ?_)
      · rw [value_unscale, hdouble]
        push_cast
        rw [hhidden]
        linarith
      · rw [value_unscale, hdouble]
        push_cast
        rw [hhidden]
        linarith
      · omega
    rw [heq, max_eq_right (by omega), hround, Binary.magnitudeBits, hmin]
    have hsucc : (x.exponent - leastExponent).toNat = (x.exponent - 1 - leastExponent).toNat + 1 := by
      omega
    rw [hsucc]
    ring

end Ratio

end ChannelMachine.Decimal

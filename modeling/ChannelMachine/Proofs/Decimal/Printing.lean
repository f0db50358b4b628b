import ChannelMachine.Proofs.Decimal.Nearest
import ChannelMachine.Proofs.Json.Numerals

/-!
# Printed numbers

A text denotes a rational number if it is made of digits, with a sign, a fraction and an exponent where they
are needed (`Denotes`).  The text of a finite number denotes one that is rounded to the number again
(`Number.exists_denotes_display`).  Only the sign of a zero is lost.

There are two ways to write a number: whole numbers below a bound are written as integers, and all others
with their shortest digits.  Nevertheless two finite numbers have the same text only if they are the same
(`Number.display_eq_iff`), because no text denotes two numbers and no rational number is rounded to two
doubles.
-/

namespace ChannelMachine

open Decimal Json

/-! ## Texts of rational numbers -/

/-- The rational number that the parts of a lexeme denote. -/
def Json.NumberForm.value (f : NumberForm) : ℚ := if f.negative then -f.numeral.value else f.numeral.value

/-- A text denotes a rational number. -/
def Denotes (text : String) (v : ℚ) : Prop :=
  ∃ f : NumberForm, f.Proper ∧ f.text = text.toList ∧ f.value = v

namespace Denotes

variable {text : String} {v w : ℚ}

/-- It denotes one at most. -/
theorem unique (hv : Denotes text v) (hw : Denotes text w) : v = w := by
  obtain ⟨f, proper, htext, rfl⟩ := hv
  obtain ⟨g, proper', htext', rfl⟩ := hw
  have hread := NumberForm.numeralOf_text proper
  rw [htext, ← htext', NumberForm.numeralOf_text proper'] at hread
  obtain ⟨hnegative, hnumeral⟩ := Prod.mk.inj hread
  rw [NumberForm.value, NumberForm.value, hnegative, hnumeral]

/-- It is a number lexeme. -/
theorem number? (h : Denotes text v) : Json.number? text.toList = some (text.toList, []) := by
  obtain ⟨f, proper, htext, -⟩ := h
  have htake : Json.number? (f.text ++ []) = some (f.text, []) := NumberForm.number?_text proper nofun
  rwa [List.append_nil, htext] at htake

/-- The names of what is no number denote nothing. -/
theorem not_name (h : Denotes text v) : text ∉ ["NaN", "+Inf", "-Inf"] := by
  intro hmem
  have hnone : ∀ name ∈ ["NaN", "+Inf", "-Inf"], Json.number? name.toList = none := by decide
  cases h.number?.symm.trans (hnone text hmem)

end Denotes

/-! ## Whole numbers -/

/-- The natural number that a magnitude is. -/
theorem Decimal.Binary.value_of_natural? {b : Binary} {n : Nat} (h : b.natural? = some n) : b.value = n := by
  unfold Binary.natural? at h
  unfold Binary.value
  split at h
  next e he =>
    obtain rfl := Option.some.inj h
    rw [he, Nat.shiftLeft_eq, Int.ofNat_eq_natCast, zpow_natCast]
    push_cast
    rfl
  next e he =>
    dsimp only at h
    split at h
    next heq =>
      obtain rfl := Option.some.inj h
      generalize b.mantissa >>> (e + 1) = whole at heq ⊢
      rw [Nat.shiftLeft_eq] at heq
      rw [he, zpow_negSucc, ← heq]
      push_cast
      field_simp
    next => cases h

theorem Decimal.Binary.natural?_of_mantissa {b : Binary} (h : b.mantissa = 0) : b.natural? = some 0 := by
  unfold Binary.natural?
  rw [h]
  split
  · rw [Nat.zero_shiftLeft]
  · dsimp only
    rw [Nat.zero_shiftRight, Nat.zero_shiftLeft, if_pos rfl]

/-- The parts of an integer with a sign in front. -/
def Json.integerForm (negative : Bool) (n : Nat) : NumberForm := { naturalForm n with negative }

theorem Json.integerForm_proper (negative : Bool) (n : Nat) : (integerForm negative n).Proper :=
  ⟨(naturalForm_proper n).whole, (naturalForm_proper n).zero, (naturalForm_proper n).fraction,
    (naturalForm_proper n).exponent⟩

theorem Json.integerForm_text (negative : Bool) {n : Nat} (hpos : 0 < n) :
    (integerForm negative n).text = Layout.integer (if negative then -(n : Int) else n) := by
  have htext : (integerForm negative n).text =
      (if negative then ['-'] else []) ++ (naturalForm n).text := by
    cases negative <;> rfl
  rw [htext, naturalForm_text, Layout.integer]
  cases negative with
  | true =>
    rw [if_pos rfl, if_pos rfl, if_pos (by omega), Int.natAbs_neg]
    rfl
  | false =>
    rw [if_neg Bool.false_ne_true, if_neg Bool.false_ne_true, if_neg (by omega)]
    rfl

theorem Json.integerForm_numeral (negative : Bool) (n : Nat) :
    (integerForm negative n).numeral.value = n := by
  change ((digitsValue (Nat.toDigits 10 n ++ []) : Nat) : ℚ) * 10 ^ ((0 : Int) - 0) = n
  rw [List.append_nil, digitsValue_toDigits, sub_self, zpow_zero, mul_one]

/-! ## Finite numbers -/

namespace Number

variable {x y : Number} {b : Binary}

/-- Whether a number is neither infinite nor NaN. -/
def IsFinite (x : Number) : Prop := x.binary? ≠ none

/-- The number itself, but positive zero for negative zero. -/
def plain (x : Number) : Number := if x = zero.neg then zero else x

theorem IsFinite.isNaN (h : x.IsFinite) : x.isNaN = false := by
  obtain ⟨b, hb⟩ := Option.ne_none_iff_exists'.1 h
  obtain ⟨-, -, hlow, hhigh⟩ := rank_of_finite hb
  have hlt := x.bits.toNat_lt
  have hnegative := isNegative_iff (x := x)
  refine Bool.of_not_eq_true fun hnan => ?_
  have habove := isNaN_iff.1 hnan
  unfold rank at hlow hhigh
  unfold infinityBits hiddenBit negativeBit at *
  split at hlow
  next h =>
    rw [if_pos h] at hhigh
    have hle := hnegative.1 h
    omega
  next h =>
    rw [if_neg h] at hhigh
    omega

theorem plain_of_mantissa (hb : x.binary? = some b) (h : b.mantissa = 0) : x.plain = zero := by
  have hvalue : b.value = 0 := by
    unfold Binary.value
    rw [h, Nat.cast_zero, zero_mul]
  have hzero (negative : Bool) : Binary.value ⟨negative, 0, leastExponent⟩ = 0 := by
    unfold Binary.value
    rw [Nat.cast_zero, zero_mul]
  cases hsign : b.negative with
  | true => exact if_pos (eq_of_signed_eq hb (rfl : zero.neg.binary? = _) hsign (hvalue.trans (hzero _).symm))
  | false =>
    obtain rfl : x = zero := eq_of_signed_eq hb (rfl : zero.binary? = _) hsign (hvalue.trans (hzero _).symm)
    exact if_neg (by decide)

theorem plain_of_pos (hb : x.binary? = some b) (h : 0 < b.mantissa) : x.plain = x := by
  refine if_neg ?_
  rintro rfl
  obtain rfl := Option.some.inj (hb.symm.trans (rfl : zero.neg.binary? = some ⟨true, 0, leastExponent⟩))
  exact lt_irrefl _ h

theorem display_of_mantissa (hb : x.binary? = some b) (h : b.mantissa = 0) : x.display = "0" := by
  unfold display
  rw [hb]
  dsimp only
  rw [Binary.natural?_of_mantissa h]
  cases b.negative <;> rfl

/-- The text of a number that is not zero has the sign of the number and, behind it, a numeral that rounds
to the number. -/
theorem exists_form_display (hb : x.binary? = some b) (hpos : 0 < b.mantissa) :
    ∃ f : NumberForm, f.Proper ∧ f.text = x.display.toList ∧ f.negative = b.negative ∧
      b.Rounds f.numeral.value := by
  have hwritten : ∃ f : NumberForm, f.Proper ∧ f.text = (shown.write b).toList ∧
      f.negative = b.negative ∧ b.Rounds f.numeral.value :=
    ⟨formOf shown b, formOf_proper shown b, formOf_text shown b, formOf_negative shown b,
      formOf_value shown hpos ▸ Binary.rounds_shortest hpos shown.tie⟩
  unfold display
  rw [hb]
  dsimp only
  split
  next n hn =>
    split
    next =>
      have hvalue := Binary.value_of_natural? hn
      have hround := Binary.rounds_value hpos
      have hn : 0 < n := by
        have := hround.pos hpos
        rw [hvalue] at this
        exact_mod_cast this
      refine ⟨integerForm b.negative n, integerForm_proper _ _, ?_, rfl, ?_⟩
      · rw [String.toList_ofList, integerForm_text _ hn]
      · rwa [integerForm_numeral, ← hvalue]
    next => exact hwritten
  next => exact hwritten

/-- The text of a finite number denotes a rational number that is rounded to the number again, or to
positive zero. -/
theorem exists_denotes_display (h : x.IsFinite) : ∃ v, Denotes x.display v ∧ RoundsTo v x.plain := by
  obtain ⟨b, hb⟩ := Option.ne_none_iff_exists'.1 h
  rcases Nat.eq_zero_or_pos b.mantissa with hzero | hpos
  · refine ⟨0, ⟨integerForm false 0, integerForm_proper _ _, ?_, ?_⟩, ?_⟩
    · rw [display_of_mantissa hb hzero]
      rfl
    · exact integerForm_numeral false 0
    · rw [plain_of_mantissa hb hzero]
      exact roundsTo_zero
  · obtain ⟨f, proper, htext, hsign, hrounds⟩ := exists_form_display hb hpos
    have hvalue := hrounds.pos hpos
    rw [plain_of_pos hb hpos]
    refine ⟨f.value, ⟨f, proper, htext, rfl⟩, roundsTo_of_rounds hb hpos ?_ ?_⟩
    · unfold NumberForm.value
      split
      · rwa [abs_neg, abs_of_pos hvalue]
      · rwa [abs_of_pos hvalue]
    · unfold NumberForm.value
      rw [hsign]
      cases b.negative with
      | true => exact (decide_eq_true (by simpa using hvalue)).symm
      | false => exact (decide_eq_false (by simpa using hvalue.le)).symm

/-! ## Equal texts -/

theorem display_plain (x : Number) : x.plain.display = x.display := by
  unfold plain
  split
  next h =>
    rw [h]
    exact (display_of_mantissa (x := zero) rfl rfl).trans (display_of_mantissa (x := zero.neg) rfl rfl).symm
  next => rfl

theorem rank_plain (x : Number) : x.plain.rank = x.rank := by
  unfold plain
  split
  next h =>
    rw [h]
    decide
  next => rfl

/-- The rank tells everything but the sign of a zero. -/
theorem plain_eq_of_rank_eq (h : x.rank = y.rank) : x.plain = y.plain := by
  -- Of two signs, one is that of a zero.
  have hzeros : ∀ {x y : Number}, x.rank = y.rank → x.isNegative = true → y.isNegative = false →
      x = zero.neg ∧ y = zero := by
    intro x y h hx hy
    have hle := isNegative_iff.1 hx
    unfold rank at h
    rw [hx, hy, if_pos rfl, if_neg Bool.false_ne_true] at h
    exact ⟨congrArg mk (UInt64.toNat.inj (by change _ = negativeBit; omega)),
      congrArg mk (UInt64.toNat.inj (by change _ = 0; omega))⟩
  cases hx : x.isNegative <;> cases hy : y.isNegative
  · unfold rank at h
    rw [hx, hy, if_neg Bool.false_ne_true, if_neg Bool.false_ne_true] at h
    exact congrArg (fun bits => plain ⟨bits⟩) (UInt64.toNat.inj (by omega))
  · obtain ⟨rfl, rfl⟩ := hzeros h.symm hy hx
    decide
  · obtain ⟨rfl, rfl⟩ := hzeros h hx hy
    decide
  · unfold rank at h
    rw [hx, hy, if_pos rfl, if_pos rfl] at h
    exact congrArg (fun bits => plain ⟨bits⟩) (UInt64.toNat.inj (by omega))

/-- Two numbers that are not NaN are the same if they do not differ but in the sign of a zero. -/
theorem same_iff_plain (hx : x.isNaN = false) (hy : y.isNaN = false) :
    x.same y = true ↔ x.plain = y.plain := by
  have hkey : x.key = y.key ↔ x.rank = y.rank := by
    have hx := x.key_eq
    have hy := y.key_eq
    rw [← UInt64.toNat_inj]
    omega
  rw [same, hx, hy, Bool.not_false, Bool.true_and, Bool.true_and, beq_iff_eq, hkey]
  refine ⟨plain_eq_of_rank_eq, fun h => ?_⟩
  rw [← rank_plain x, h, rank_plain]

/-- Two finite numbers have the same text where they are the same. -/
theorem display_eq_iff (hx : x.IsFinite) (hy : y.IsFinite) : x.display = y.display ↔ x.same y = true := by
  rw [same_iff_plain hx.isNaN hy.isNaN]
  constructor
  · intro h
    obtain ⟨v, hv, rounds⟩ := exists_denotes_display hx
    obtain ⟨w, hw, rounds'⟩ := exists_denotes_display hy
    rw [← h] at hw
    rw [hv.unique hw] at rounds
    exact rounds.unique rounds'
  · intro h
    rw [← display_plain x, h, display_plain]

end Number

end ChannelMachine

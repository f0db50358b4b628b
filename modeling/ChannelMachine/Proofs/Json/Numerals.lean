import ChannelMachine.Json.Reader
import ChannelMachine.Proofs.Decimal.Shortest
import Mathlib.Tactic.IntervalCases

/-!
# Number lexemes

A `NumberForm` is a number lexeme in its parts.  A reader takes just the lexeme off the text if what
follows cannot go on with it (`NumberForm.number?_text`), and the numeral that it denotes is told by the
parts (`NumberForm.numeralOf_text`).  Natural numbers and finite doubles are written in such forms, and
both are read back as what they were (`naturalOf?_toDigits`, `numberOf?_of_lexemeOf?`).
-/

namespace ChannelMachine.Json

open Decimal

/-! ## Digits -/

/-- All characters are digits. -/
def AllDigits (l : List Char) : Prop := ∀ c ∈ l, isDigit c = true

theorem allDigits_nil : AllDigits [] := nofun

theorem AllDigits.append {l m : List Char} (hl : AllDigits l) (hm : AllDigits m) :
    AllDigits (l ++ m) := fun c hc => (List.mem_append.1 hc).elim (hl c) (hm c)

theorem AllDigits.sublist {l m : List Char} (hm : AllDigits m) (h : l.Sublist m) : AllDigits l :=
  fun c hc => hm c (h.subset hc)

theorem allDigits_zeros (n : Nat) : AllDigits (List.replicate n '0') := by
  intro c hc
  rw [List.eq_of_mem_replicate hc]
  rfl

theorem allDigits_toDigits (n : Nat) : AllDigits (Nat.toDigits 10 n) := fun _ hc =>
  Nat.isDigit_of_mem_toDigits (by decide) (by decide) hc

theorem digitsValue_append (l m : List Char) :
    digitsValue (l ++ m) = 10 ^ m.length * digitsValue l + digitsValue m := by
  change Nat.ofDigitChars 10 (l ++ m) 0 = _
  rw [Nat.ofDigitChars_append, Nat.ofDigitChars_eq_ofDigitChars_zero]
  rfl

theorem digitsValue_zeros (n : Nat) : digitsValue (List.replicate n '0') = 0 :=
  Nat.ofDigitChars_replicate_zero.trans (Nat.mul_zero _)

theorem digitsValue_toDigits (n : Nat) : digitsValue (Nat.toDigits 10 n) = n :=
  Nat.ofDigitChars_ten_toDigits

/-- No digit stands in front of the first one that counts. -/
theorem head?_toDigits {n : Nat} (h : 0 < n) : (Nat.toDigits 10 n).head? ≠ some '0' := by
  induction n using Nat.strongRecOn with
  | ind n ih =>
    by_cases hlt : n < 10
    · rw [Nat.toDigits_of_lt_base hlt]
      clear ih
      interval_cases n <;> decide
    · rw [Nat.toDigits_of_base_le (by decide) (Nat.not_lt.1 hlt), List.head?_append]
      have hdiv : 0 < n / 10 := Nat.div_pos (Nat.not_lt.1 hlt) (by decide)
      have hhead := ih (n / 10) (Nat.div_lt_self h (by decide)) hdiv
      cases hdigits : Nat.toDigits 10 (n / 10) with
      | nil => exact absurd hdigits Nat.toDigits_ne_nil
      | cons c rest =>
        rw [hdigits] at hhead
        exact hhead

/-- A text that a number does not go on with. -/
def Ends (rest : List Char) : Prop :=
  ∀ c, rest.head? = some c → isDigit c = false ∧ c ≠ '.' ∧ c ≠ 'e' ∧ c ≠ 'E'

theorem takeWhile_digits {l rest : List Char} (hl : AllDigits l)
    (hrest : ∀ c, rest.head? = some c → isDigit c = false) :
    (l ++ rest).takeWhile isDigit = l ∧ (l ++ rest).dropWhile isDigit = rest := by
  rw [List.takeWhile_append_of_pos hl, List.dropWhile_append_of_pos hl]
  cases rest with
  | nil => exact ⟨List.append_nil l, rfl⟩
  | cons c rest =>
    have hc := hrest c rfl
    rw [List.takeWhile_cons, List.dropWhile_cons, hc]
    exact ⟨List.append_nil l, rfl⟩

/-! ## Forms -/

/-- The sign of an exponent. -/
inductive ExponentSign where
  /-- No sign. -/
  | none
  /-- A plus sign. -/
  | plus
  /-- A minus sign. -/
  | minus

/-- How a sign is written. -/
def ExponentSign.text : ExponentSign → List Char
  | none => []
  | plus => ['+']
  | minus => ['-']

/-- What the sign does to a number. -/
def ExponentSign.apply : ExponentSign → Nat → Int
  | minus, n => -n
  | _, n => n

/-- The parts of a number lexeme. -/
structure NumberForm where
  /-- Whether there is a minus sign in front. -/
  negative : Bool
  /-- The digits in front of the point. -/
  whole : List Char
  /-- The digits behind the point.  Without digits there is no point. -/
  fraction : List Char
  /-- The sign and the digits of the exponent. -/
  exponent : Option (ExponentSign × List Char)

namespace NumberForm

/-- The text behind the whole part. -/
def fractionText (f : NumberForm) : List Char := if f.fraction = [] then [] else '.' :: f.fraction

/-- The text behind the fraction. -/
def exponentText (f : NumberForm) : List Char :=
  match f.exponent with
  | none => []
  | some (sign, digits) => 'e' :: sign.text ++ digits

/-- The lexeme. -/
def text (f : NumberForm) : List Char :=
  (if f.negative then ['-'] else []) ++ f.whole ++ f.fractionText ++ f.exponentText

/-- The value of the exponent. -/
def power (f : NumberForm) : Int :=
  match f.exponent with
  | none => 0
  | some (sign, digits) => sign.apply (digitsValue digits)

/-- The parts make a number. -/
structure Proper (f : NumberForm) : Prop where
  /-- There are digits in front of the point. -/
  whole : AllDigits f.whole ∧ f.whole ≠ []
  /-- A zero in front stands alone. -/
  zero : f.whole.head? = some '0' → f.whole = ['0']
  /-- The fraction has digits. -/
  fraction : AllDigits f.fraction
  /-- The exponent has digits. -/
  exponent : ∀ sign digits, f.exponent = some (sign, digits) → AllDigits digits ∧ digits ≠ []

variable {f : NumberForm} {rest : List Char}

theorem head?_exponentText (hrest : Ends rest) {c : Char}
    (hc : (f.exponentText ++ rest).head? = some c) : isDigit c = false ∧ c ≠ '.' := by
  unfold exponentText at hc
  split at hc
  next => exact ⟨(hrest c hc).1, (hrest c hc).2.1⟩
  next =>
    obtain rfl := Option.some.inj hc
    exact ⟨rfl, by decide⟩

theorem head?_fractionText (hrest : Ends rest) {c : Char}
    (hc : (f.fractionText ++ (f.exponentText ++ rest)).head? = some c) : isDigit c = false := by
  unfold fractionText at hc
  split at hc
  next => exact (head?_exponentText hrest hc).1
  next =>
    obtain rfl := Option.some.inj hc
    rfl

theorem exponent?_text (proper : f.Proper) (hrest : Ends rest) :
    exponent? (f.exponentText ++ rest) = some (f.exponentText, rest) := by
  unfold exponentText
  split
  next =>
    cases rest with
    | nil => rfl
    | cons c rest =>
      obtain ⟨-, -, he, hE⟩ := hrest c rfl
      exact if_neg (not_or.2 ⟨he, hE⟩)
  next sign digits hexponent =>
    obtain ⟨hdigits, hne⟩ := proper.exponent sign digits hexponent
    obtain ⟨htake, hdrop⟩ := takeWhile_digits hdigits fun c hc => (hrest c hc).1
    have hsign : exponentSign (sign.text ++ (digits ++ rest)) = (sign.text, digits ++ rest) := by
      cases sign with
      | plus => rfl
      | minus => rfl
      | none =>
        obtain ⟨c, cs, rfl⟩ := List.exists_cons_of_ne_nil hne
        have hc := hdigits c (List.mem_cons_self ..)
        unfold exponentSign
        split
        next heq =>
          obtain ⟨rfl, -⟩ := List.cons.inj heq
          cases hc
        next heq =>
          obtain ⟨rfl, -⟩ := List.cons.inj heq
          cases hc
        next => rfl
    have hempty : digits.isEmpty = false := by simpa using hne
    rw [List.append_assoc, List.cons_append, exponent?, if_pos (.inl rfl), hsign]
    dsimp only
    rw [htake, hdrop, hempty]
    rfl

theorem fraction?_text (proper : f.Proper) (hrest : Ends rest) :
    fraction? (f.fractionText ++ (f.exponentText ++ rest)) =
      some (f.fractionText, f.exponentText ++ rest) := by
  unfold fractionText
  split
  next =>
    cases hbehind : f.exponentText ++ rest with
    | nil => rfl
    | cons c cs =>
      have hc : c ≠ '.' := (head?_exponentText hrest (by rw [hbehind]; rfl)).2
      unfold fraction?
      split
      next heq => exact absurd (List.cons.inj heq).1 hc
      next => rfl
  next hne =>
    obtain ⟨htake, hdrop⟩ := takeWhile_digits proper.fraction fun c hc =>
      (head?_exponentText (f := f) hrest hc).1
    have hempty : f.fraction.isEmpty = false := by simpa using hne
    rw [List.cons_append, fraction?]
    rw [htake, hdrop, hempty]
    rfl

theorem whole?_text (proper : f.Proper) {after : List Char}
    (hafter : ∀ c, after.head? = some c → isDigit c = false) :
    whole? (f.whole ++ after) = some (f.whole, after) := by
  obtain ⟨hdigits, hne⟩ := proper.whole
  obtain ⟨htake, hdrop⟩ := takeWhile_digits hdigits hafter
  unfold whole?
  split
  next cs heq =>
    obtain ⟨c, digits, hwhole⟩ := List.exists_cons_of_ne_nil hne
    rw [hwhole, List.cons_append] at heq
    obtain ⟨rfl, rfl⟩ := List.cons.inj heq
    have hzero := proper.zero (by rw [hwhole]; rfl)
    rw [hwhole] at hzero
    obtain rfl := (List.cons.inj hzero).2
    rw [hwhole]
    rfl
  next =>
    have hempty : f.whole.isEmpty = false := by simpa using hne
    dsimp only
    rw [htake, hdrop, hempty]
    rfl

/-- A sign is never taken for a digit. -/
theorem whole_ne_minus (proper : f.Proper) {after cs : List Char} : f.whole ++ after ≠ '-' :: cs := by
  obtain ⟨hdigits, hne⟩ := proper.whole
  obtain ⟨c, digits, hwhole⟩ := List.exists_cons_of_ne_nil hne
  intro heq
  rw [hwhole, List.cons_append] at heq
  have hc := hdigits c (by rw [hwhole]; exact List.mem_cons_self ..)
  obtain rfl := (List.cons.inj heq).1
  cases hc

/-- The lexeme is taken off the text in front of a rest that cannot go on with it. -/
theorem number?_text (proper : f.Proper) (hrest : Ends rest) :
    number? (f.text ++ rest) = some (f.text, rest) := by
  have hwhole := whole?_text proper fun c hc => head?_fractionText (f := f) hrest hc
  unfold text
  cases hnegative : f.negative with
  | true =>
    rw [if_pos rfl, List.append_assoc, List.append_assoc, List.append_assoc, List.cons_append,
      List.nil_append, number?]
    rw [hwhole]
    dsimp only
    rw [fraction?_text proper hrest]
    dsimp only
    rw [exponent?_text proper hrest]
  | false =>
    rw [if_neg nofun, List.append_assoc, List.append_assoc, List.append_assoc, List.nil_append, number?]
    · rw [hwhole]
      dsimp only
      rw [fraction?_text proper hrest]
      dsimp only
      rw [exponent?_text proper hrest]
    · exact fun _ heq => absurd heq (whole_ne_minus proper)

theorem exponentValue_text (proper : f.Proper) : exponentValue f.exponentText = f.power := by
  unfold exponentText power
  split
  next => rfl
  next sign digits hexponent =>
    obtain ⟨hdigits, hne⟩ := proper.exponent sign digits hexponent
    cases sign with
    | plus => rfl
    | minus => rfl
    | none =>
      obtain ⟨c, cs, rfl⟩ := List.exists_cons_of_ne_nil hne
      have hc := hdigits c (List.mem_cons_self ..)
      change exponentValue.signed (c :: cs) = _
      unfold exponentValue.signed
      split
      next heq =>
        obtain ⟨rfl, -⟩ := List.cons.inj heq
        cases hc
      next heq =>
        obtain ⟨rfl, -⟩ := List.cons.inj heq
        cases hc
      next => rfl

/-- The numeral that the parts denote. -/
def numeral (f : NumberForm) : Numeral :=
  ⟨digitsValue (f.whole ++ f.fraction), f.power - f.fraction.length⟩

/-- Behind the whole part a point comes in front of the fraction only. -/
theorem eq_of_point {cs : List Char} (h : f.fractionText ++ f.exponentText = '.' :: cs) :
    cs = f.fraction ++ f.exponentText := by
  unfold fractionText at h
  split at h
  next =>
    have hends : Ends [] := nofun
    have hhead : (f.exponentText ++ []).head? = some '.' := by
      rw [List.append_nil, ← List.nil_append f.exponentText, h]
      rfl
    exact absurd rfl (head?_exponentText hends hhead).2
  next => exact (List.cons.inj h).2.symm

theorem fraction_eq_nil (h : ∀ cs, f.fractionText ++ f.exponentText ≠ '.' :: cs) :
    f.fraction = [] := by
  by_contra hne
  unfold fractionText at h
  rw [if_neg hne] at h
  exact h _ rfl

/-- The lexeme is read as the numeral of its parts. -/
theorem numeralOf_text (proper : f.Proper) : numeralOf f.text = (f.negative, f.numeral) := by
  have hends : Ends [] := nofun
  obtain ⟨htake, hdrop⟩ := takeWhile_digits proper.whole.1
    fun c (hc : (f.fractionText ++ f.exponentText).head? = some c) =>
      head?_fractionText (f := f) hends (by rwa [List.append_nil])
  obtain ⟨hbehind, hlast⟩ := takeWhile_digits proper.fraction
    fun c (hc : f.exponentText.head? = some c) => (head?_exponentText (f := f) hends (by rwa [List.append_nil])).1
  have hpoint : ∀ cs, f.fractionText ++ f.exponentText = '.' :: cs →
      Numeral.mk (digitsValue (f.whole ++ cs.takeWhile isDigit))
        (exponentValue (cs.dropWhile isDigit) - (cs.takeWhile isDigit).length) = f.numeral := by
    intro cs h
    rw [eq_of_point h, hbehind, hlast, exponentValue_text proper]
    rfl
  have hnone : (∀ cs, f.fractionText ++ f.exponentText ≠ '.' :: cs) →
      Numeral.mk (digitsValue f.whole) (exponentValue (f.fractionText ++ f.exponentText)) =
        f.numeral := by
    intro h
    have hfraction := fraction_eq_nil h
    rw [numeral, hfraction, List.append_nil, fractionText, if_pos hfraction, List.nil_append,
      exponentValue_text proper, List.length_nil, Int.natCast_zero, sub_zero]
  unfold text
  cases hnegative : f.negative with
  | true =>
    rw [if_pos rfl, List.append_assoc, List.append_assoc, List.cons_append, List.nil_append, numeralOf,
      htake, hdrop]
    split
    next cs heq => exact congrArg (Prod.mk true) (hpoint cs heq)
    next hne => exact congrArg (Prod.mk true) (hnone hne)
  | false =>
    rw [if_neg nofun, List.append_assoc, List.append_assoc, List.nil_append, numeralOf, htake, hdrop]
    · split
      next cs heq => exact congrArg (Prod.mk false) (hpoint cs heq)
      next hne => exact congrArg (Prod.mk false) (hnone hne)
    · exact fun _ heq => absurd heq (whole_ne_minus proper)

theorem text_of_fraction (hfraction : f.fraction ≠ []) (hexponent : f.exponent = none) :
    f.text = (if f.negative then ['-'] else []) ++ (f.whole ++ '.' :: f.fraction) := by
  rw [text, fractionText, exponentText, if_neg hfraction, hexponent, List.append_nil,
    List.append_assoc]

end NumberForm

/-! ## Natural numbers -/

/-- The parts of a natural number. -/
def naturalForm (n : Nat) : NumberForm := ⟨false, Nat.toDigits 10 n, [], none⟩

theorem naturalForm_text (n : Nat) : (naturalForm n).text = Nat.toDigits 10 n := by
  change ([] ++ Nat.toDigits 10 n) ++ [] ++ [] = _
  rw [List.append_nil, List.append_nil, List.nil_append]

theorem toDigits_zero_head {n : Nat} (h : (Nat.toDigits 10 n).head? = some '0') :
    Nat.toDigits 10 n = ['0'] := by
  rcases Nat.eq_zero_or_pos n with rfl | hpos
  · rfl
  · exact absurd h (head?_toDigits hpos)

theorem naturalForm_proper (n : Nat) : (naturalForm n).Proper where
  whole := ⟨allDigits_toDigits n, Nat.toDigits_ne_nil⟩
  zero := toDigits_zero_head
  fraction := allDigits_nil
  exponent := nofun

/-- A natural number that fits a field is read back. -/
theorem naturalOf?_toDigits {n : Nat} (h : n < naturalLimit) :
    naturalOf? (Nat.toDigits 10 n) = some n := by
  have hall : (Nat.toDigits 10 n).all isDigit = true := List.all_eq_true.2 (allDigits_toDigits n)
  rw [naturalOf?, if_pos hall]
  dsimp only
  rw [digitsValue_toDigits, if_pos h]

/-! ## Doubles -/

section

/-- The parts of a numeral with its point inside the digits or next to them. -/
def positionalForm (negative : Bool) (digits : List Char) (point : Int) : NumberForm :=
  if point ≤ 0 then
    ⟨negative, ['0'], List.replicate (-point).toNat '0' ++ digits, none⟩
  else if digits.length ≤ point.toNat then
    ⟨negative, digits ++ List.replicate (point.toNat - digits.length) '0', ['0'], none⟩
  else
    ⟨negative, digits.take point.toNat, digits.drop point.toNat, none⟩

/-- The parts of a numeral with one digit in front of the point. -/
def scientificForm (plus negative : Bool) (digits : List Char) (point : Int) : NumberForm :=
  ⟨negative, digits.take 1, digits.drop 1, some
    (if point - 1 < 0 then .minus else if plus && 0 < point - 1 then .plus else .none,
      Nat.toDigits 10 (point - 1).natAbs)⟩

variable {plus negative : Bool} {n : Nat} {e : Int}

theorem positionalForm_proper (hpos : 0 < n) (point : Int) :
    (positionalForm negative (Nat.toDigits 10 n) point).Proper := by
  have hdigits := allDigits_toDigits n
  have hhead := head?_toDigits hpos
  obtain ⟨c, cs, hcons⟩ := List.exists_cons_of_ne_nil (Nat.toDigits_ne_nil (n := n) (b := 10))
  unfold positionalForm
  split
  next =>
    exact ⟨⟨allDigits_zeros 1, nofun⟩, fun _ => rfl, (allDigits_zeros _).append hdigits, nofun⟩
  next hpoint =>
    split
    next =>
      refine ⟨⟨hdigits.append (allDigits_zeros _), ?_⟩, fun hzero => absurd ?_ hhead,
        allDigits_zeros 1, nofun⟩
      · dsimp only
        rw [hcons]
        nofun
      · dsimp only at hzero
        rw [hcons] at hzero ⊢
        exact hzero
    next hlt =>
      obtain ⟨k, hk⟩ := Nat.exists_eq_succ_of_ne_zero (show point.toNat ≠ 0 by omega)
      refine ⟨⟨hdigits.sublist (List.take_sublist ..), ?_⟩, fun hzero => absurd ?_ hhead,
        hdigits.sublist (List.drop_sublist ..), nofun⟩
      · dsimp only
        rw [hcons, hk]
        nofun
      · dsimp only at hzero
        rw [hcons, hk] at hzero
        rw [hcons]
        exact hzero

theorem positionalForm_text (point : Int) :
    (positionalForm negative (Nat.toDigits 10 n) point).text =
      (if negative then ['-'] else []) ++ Layout.positional (Nat.toDigits 10 n) point := by
  have hne : Nat.toDigits 10 n ≠ [] := Nat.toDigits_ne_nil
  unfold positionalForm Layout.positional
  split
  next =>
    rw [NumberForm.text_of_fraction (fun h => hne (List.append_eq_nil_iff.1 h).2) rfl]
    rfl
  next hpoint =>
    split
    next => exact NumberForm.text_of_fraction nofun rfl
    next hlt =>
      refine NumberForm.text_of_fraction (fun h => hlt ?_) rfl
      exact List.drop_eq_nil_iff.1 h

/-- A point alone leaves the value as it is. -/
theorem positionalForm_value (n : Nat) (e : Int) :
    (positionalForm negative (Nat.toDigits 10 n) ((Nat.toDigits 10 n).length + e)).numeral.value =
      (Numeral.mk n e).value := by
  have hvalue := digitsValue_toDigits n
  generalize Nat.toDigits 10 n = digits at hvalue
  unfold positionalForm
  split
  next hpoint =>
    have heq : NumberForm.numeral ⟨negative, ['0'],
        List.replicate (-((digits.length : Int) + e)).toNat '0' ++ digits, none⟩ = ⟨n, e⟩ := by
      rw [NumberForm.numeral, Numeral.mk.injEq, digitsValue_append, digitsValue_append,
        digitsValue_zeros, hvalue, List.length_append, List.length_replicate]
      refine ⟨?_, ?_⟩
      · rw [Nat.mul_zero, Nat.zero_add]
        change _ * 0 + n = n
        rw [Nat.mul_zero, Nat.zero_add]
      · change (0 : Int) - _ = e
        omega
    rw [heq]
  next hpoint =>
    split
    next hle =>
      obtain ⟨k, rfl⟩ : ∃ k : Nat, e = k := ⟨e.toNat, by omega⟩
      have hzeros : ((digits.length : Int) + k).toNat - digits.length = k := by omega
      rw [NumberForm.numeral, hzeros, digitsValue_append, digitsValue_append, digitsValue_zeros, hvalue,
        List.length_replicate, Numeral.value, Numeral.value]
      change ((10 ^ 1 * (10 ^ k * n + 0) + 0 : Nat) : ℚ) * 10 ^ (0 - 1 : ℤ) = n * 10 ^ (k : ℤ)
      rw [zpow_natCast]
      push_cast
      norm_num
      ring
    next hlt =>
      have heq : NumberForm.numeral ⟨negative, digits.take ((digits.length : Int) + e).toNat,
          digits.drop ((digits.length : Int) + e).toNat, none⟩ = ⟨n, e⟩ := by
        rw [NumberForm.numeral, Numeral.mk.injEq, List.take_append_drop, hvalue, List.length_drop]
        refine ⟨rfl, ?_⟩
        change (0 : Int) - _ = e
        omega
      rw [heq]

theorem scientificForm_proper (hpos : 0 < n) (point : Int) :
    (scientificForm plus negative (Nat.toDigits 10 n) point).Proper := by
  have hdigits := allDigits_toDigits n
  have hhead := head?_toDigits hpos
  obtain ⟨c, cs, hcons⟩ := List.exists_cons_of_ne_nil (Nat.toDigits_ne_nil (n := n) (b := 10))
  refine ⟨⟨hdigits.sublist (List.take_sublist ..), ?_⟩, fun hzero => absurd ?_ hhead,
    hdigits.sublist (List.drop_sublist ..), ?_⟩
  · change (Nat.toDigits 10 n).take 1 ≠ []
    rw [hcons]
    nofun
  · change ((Nat.toDigits 10 n).take 1).head? = _ at hzero
    rw [hcons] at hzero ⊢
    exact hzero
  · intro sign digits h
    obtain rfl := (Prod.mk.inj (Option.some.inj h)).2
    exact ⟨allDigits_toDigits _, Nat.toDigits_ne_nil⟩

theorem scientificForm_text (point : Int) :
    (scientificForm plus negative (Nat.toDigits 10 n) point).text =
      (if negative then ['-'] else []) ++ Layout.scientific plus (Nat.toDigits 10 n) point := by
  obtain ⟨c, cs, hcons⟩ := List.exists_cons_of_ne_nil (Nat.toDigits_ne_nil (n := n) (b := 10))
  have hexponent : ExponentSign.text
        (if point - 1 < 0 then .minus else if plus && 0 < point - 1 then .plus else .none) ++
        Nat.toDigits 10 (point - 1).natAbs =
      (if plus && 0 < point - 1 then ['+'] else []) ++ Layout.integer (point - 1) := by
    unfold Layout.integer
    split
    next hlt =>
      rw [if_neg (by rw [Bool.and_eq_true, decide_eq_true_eq]; omega)]
      rfl
    next hge => split <;> rfl
  unfold Layout.scientific scientificForm NumberForm.text NumberForm.fractionText
    NumberForm.exponentText
  dsimp only
  rw [hcons, List.cons_append, hexponent, List.append_assoc, List.append_assoc]
  cases cs <;> simp only [List.append_assoc, List.cons_append] <;> rfl

theorem scientificForm_numeral (n : Nat) (e : Int) :
    (scientificForm plus negative (Nat.toDigits 10 n) ((Nat.toDigits 10 n).length + e)).numeral =
      Numeral.mk n e := by
  have hlength : 0 < (Nat.toDigits 10 n).length := Nat.length_toDigits_pos
  have hvalue := digitsValue_toDigits n
  generalize Nat.toDigits 10 n = digits at hvalue hlength
  have hpower : ∀ p : Int, ExponentSign.apply
      (if p < 0 then .minus else if plus && 0 < p then .plus else .none)
      (digitsValue (Nat.toDigits 10 p.natAbs)) = p := by
    intro p
    rw [digitsValue_toDigits]
    split
    next hlt => exact show -(p.natAbs : Int) = p by omega
    next hge =>
      split
      next => exact show (p.natAbs : Int) = p by omega
      next => exact show (p.natAbs : Int) = p by omega
  rw [NumberForm.numeral, Numeral.mk.injEq]
  refine ⟨?_, ?_⟩
  · change digitsValue (digits.take 1 ++ digits.drop 1) = n
    rw [List.take_append_drop, hvalue]
  · change ExponentSign.apply _ (digitsValue _) - ((digits.drop 1).length : Int) = e
    rw [hpower, List.length_drop]
    omega

end

/-- The parts of a double that is laid out. -/
def formOf (l : Layout) (x : Binary) : NumberForm :=
  if x.mantissa = 0 then ⟨x.negative, ['0'], ['0'], none⟩
  else
    let d := x.shortest l.tie
    let digits := Nat.toDigits 10 d.digits
    let point : Int := digits.length + d.exponent
    if l.leastPoint ≤ point ∧ point ≤ l.greatestPoint then positionalForm x.negative digits point
    else scientificForm l.plus x.negative digits point

section

variable {x : Binary}

theorem shortest_pos (hpos : 0 < x.mantissa) (tie : Tie) : 0 < (x.shortest tie).digits :=
  Numeral.digits_pos ((Binary.rounds_shortest hpos tie).pos hpos)

theorem formOf_proper (l : Layout) (x : Binary) : (formOf l x).Proper := by
  unfold formOf
  split
  next => exact ⟨⟨allDigits_zeros 1, nofun⟩, fun _ => rfl, allDigits_zeros 1, nofun⟩
  next hne =>
    have hpos := shortest_pos (Nat.pos_of_ne_zero hne) l.tie
    dsimp only
    split
    next => exact positionalForm_proper hpos _
    next => exact scientificForm_proper hpos _

theorem formOf_negative (l : Layout) (x : Binary) : (formOf l x).negative = x.negative := by
  unfold formOf positionalForm scientificForm
  dsimp only
  split_ifs <;> rfl

theorem formOf_text (l : Layout) (x : Binary) : (formOf l x).text = (l.write x).toList := by
  have hsign : ∀ body : List Char, (String.ofList (if x.negative then '-' :: body else body)).toList =
      (if x.negative then ['-'] else []) ++ body := by
    intro body
    rw [String.toList_ofList]
    cases x.negative <;> rfl
  unfold formOf Layout.write
  dsimp only
  rw [hsign]
  split
  next => exact NumberForm.text_of_fraction nofun rfl
  next hne =>
    unfold Layout.numeral
    dsimp only
    split
    next h => exact (positionalForm_text _).trans (congrArg _ (if_pos h).symm)
    next h => exact (scientificForm_text _).trans (congrArg _ (if_neg h).symm)

/-- However a finite double is laid out, the numeral is the shortest one. -/
theorem formOf_value (l : Layout) (hpos : 0 < x.mantissa) :
    (formOf l x).numeral.value = (x.shortest l.tie).value := by
  unfold formOf
  rw [if_neg (Nat.ne_of_gt hpos)]
  dsimp only
  split
  next => exact positionalForm_value ..
  next => rw [scientificForm_numeral]

/-- The text of a finite double is read as the double. -/
theorem toBits?_formOf (l : Layout) (proper : x.Proper) :
    (formOf l x).numeral.toBits? x.negative = some (UInt64.ofNat x.allBits) := by
  rcases Nat.eq_zero_or_pos x.mantissa with hzero | hpos
  · have hexponent : x.exponent = leastExponent :=
      le_antisymm (not_lt.1 fun hlt => absurd (proper.normal hlt) (by rw [hzero]; decide)) proper.least
    unfold formOf
    rw [if_pos hzero]
    refine (Numeral.toBits?_of_eq_zero rfl _).trans ?_
    rw [Binary.allBits, Binary.magnitudeBits, hzero, hexponent, sub_self, Int.toNat_zero, Nat.zero_mul]
    rfl
  · refine Numeral.toBits?_of_rounds proper hpos ?_ _
    rw [formOf_value l hpos]
    exact Binary.rounds_shortest hpos l.tie

end

/-- However a finite double is laid out, it is read back, with the sign of a zero. -/
theorem numberOf?_write (l : Layout) {x : Number} {b : Binary} (h : x.binary? = some b) :
    numberOf? (l.write b).toList = some x := by
  obtain ⟨proper, hbits⟩ := Binary.of_ofBits? h
  have hnumeral := NumberForm.numeralOf_text (formOf_proper l b)
  rw [formOf_text] at hnumeral
  rw [numberOf?, hnumeral]
  dsimp only
  rw [formOf_negative, toBits?_formOf l proper, hbits]
  rfl

/-- The lexeme of a finite double is a number lexeme. -/
theorem exists_form {x : Number} {lexeme : List Char} (h : lexemeOf? x = some lexeme) :
    ∃ f : NumberForm, f.Proper ∧ f.text = lexeme := by
  obtain ⟨b, -, rfl⟩ := Option.map_eq_some_iff.1 h
  exact ⟨formOf written b, formOf_proper written b, formOf_text written b⟩

/-- A finite double is read back from its lexeme. -/
theorem numberOf?_of_lexemeOf? {x : Number} {lexeme : List Char} (h : lexemeOf? x = some lexeme) :
    numberOf? lexeme = some x := by
  obtain ⟨b, hb, rfl⟩ := Option.map_eq_some_iff.1 h
  exact numberOf?_write written hb

end ChannelMachine.Json

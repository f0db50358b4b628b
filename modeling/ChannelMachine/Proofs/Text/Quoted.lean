import ChannelMachine.Proofs.Json.Strings
import ChannelMachine.Text.Quoted

/-!
# Reading quoted text

What is quoted can be read back character by character (`unquoteChar?_quoteChar`): an escape tells by its
second character what it stands for, and a code point ends at its brace.  So no two texts are quoted alike
(`quote_injective`).  A quoted text has no line break, whatever characters the text has.
-/

namespace ChannelMachine.Text

/-! ## Code points -/

/-- The number that hexadecimal digits denote. -/
def hexNumber (digits : List Char) : Nat :=
  digits.foldl (fun n c => 16 * n + (Json.hexValue? c).getD 0) 0

theorem hexNumber_toDigits (n : Nat) : hexNumber (Nat.toDigits 16 n) = n := by
  induction n using Nat.strongRecOn with
  | ind n ih =>
    by_cases hlt : n < 16
    · rw [Nat.toDigits_of_lt_base hlt, hexNumber, List.foldl_cons, List.foldl_nil,
        Json.hexValue?_digitChar hlt]
      exact Nat.zero_add n
    · have hle := Nat.not_lt.1 hlt
      have hdiv : hexNumber (Nat.toDigits 16 (n / 16)) = n / 16 :=
        ih (n / 16) (Nat.div_lt_self (by omega) (by decide))
      rw [hexNumber] at hdiv
      rw [Nat.toDigits_of_base_le (by decide) hle, hexNumber, List.foldl_append, hdiv,
        List.foldl_cons, List.foldl_nil, Json.hexValue?_digitChar (Nat.mod_lt n (by decide))]
      exact Nat.div_add_mod n 16

/-- A digit is written by one of sixteen characters. -/
theorem exists_digitChar {n : Nat} {c : Char} (hc : c ∈ Nat.toDigits 16 n) :
    ∃ d < 16, c = Nat.digitChar d := by
  induction n using Nat.strongRecOn with
  | ind n ih =>
    by_cases hlt : n < 16
    · rw [Nat.toDigits_of_lt_base hlt, List.mem_singleton] at hc
      exact ⟨n, hlt, hc⟩
    · have hle := Nat.not_lt.1 hlt
      rw [Nat.toDigits_of_base_le (by decide) hle, List.mem_append, List.mem_singleton] at hc
      rcases hc with hc | rfl
      · exact ih (n / 16) (Nat.div_lt_self (by omega) (by decide)) hc
      · exact ⟨n % 16, Nat.mod_lt n (by decide), rfl⟩

/-- A character that is no hexadecimal digit is not among them. -/
theorem not_mem_toDigits {c : Char} (hc : ∀ d < 16, c ≠ Nat.digitChar d) (n : Nat) :
    c ∉ Nat.toDigits 16 n := fun hin =>
  have ⟨d, hd, heq⟩ := exists_digitChar hin
  hc d hd heq

/-! ## Characters -/

/-- Reads a character of a quoted text.  A quote ends the text. -/
def unquoteChar? : List Char → Option (Char × List Char)
  | '\\' :: '0' :: rest => some (Char.ofNat 0, rest)
  | '\\' :: 't' :: rest => some ('\t', rest)
  | '\\' :: 'r' :: rest => some ('\r', rest)
  | '\\' :: 'n' :: rest => some ('\n', rest)
  | '\\' :: '"' :: rest => some ('"', rest)
  | '\\' :: '\\' :: rest => some ('\\', rest)
  | '\\' :: 'u' :: '\x7b' :: rest =>
      some (Char.ofNat (hexNumber (rest.takeWhile (· ≠ '\x7d'))), (rest.dropWhile (· ≠ '\x7d')).tail)
  | '"' :: _ => none
  | c :: rest => some (c, rest)
  | [] => none

/-- A character is read back. -/
theorem unquoteChar?_quoteChar (c : Char) (rest : List Char) :
    unquoteChar? (quoteChar c ++ rest) = some (c, rest) := by
  unfold quoteChar
  split_ifs with hnull htab hreturn hline hquote hbackslash hhidden
  · subst hnull; rfl
  · subst htab; rfl
  · subst hreturn; rfl
  · subst hline; rfl
  · subst hquote; rfl
  · subst hbackslash; rfl
  · have hbrace : ∀ d ∈ Nat.toDigits 16 c.toNat, decide (d ≠ '\x7d') = true := fun d hd =>
      decide_eq_true fun heq => not_mem_toDigits (by decide) _ (heq ▸ hd)
    rw [List.append_assoc, List.cons_append, List.cons_append, List.cons_append, unquoteChar?,
      List.takeWhile_append_of_pos hbrace, List.dropWhile_append_of_pos hbrace]
    change some (Char.ofNat (hexNumber (_ ++ [])), rest) = _
    rw [List.append_nil, hexNumber_toDigits, Char.ofNat_toNat]
  · rw [List.cons_append, List.nil_append, unquoteChar?]
    all_goals first | exact hquote | exact fun _ h => absurd h hbackslash

/-- No two texts are quoted alike. -/
theorem quoteChars_injective {l m : List Char} (h : l.flatMap quoteChar = m.flatMap quoteChar) :
    l = m := by
  have hnil : ∀ c rest, ([] : List Char) ≠ quoteChar c ++ rest := by
    intro c rest heq
    have hread := unquoteChar?_quoteChar c rest
    rw [← heq] at hread
    cases hread
  induction l generalizing m with
  | nil =>
    cases m with
    | nil => rfl
    | cons d m => exact absurd h (hnil d _)
  | cons c l ih =>
    cases m with
    | nil => exact absurd h.symm (hnil c _)
    | cons d m =>
      rw [List.flatMap_cons, List.flatMap_cons] at h
      have hread := congrArg unquoteChar? h
      rw [unquoteChar?_quoteChar, unquoteChar?_quoteChar, Option.some.injEq, Prod.mk.injEq] at hread
      obtain ⟨rfl, hrest⟩ := hread
      rw [ih hrest]

theorem toList_quote (s : String) : (quote s).toList = '"' :: s.toList.flatMap quoteChar ++ ['"'] :=
  String.toList_ofList

theorem quote_injective {s t : String} (h : quote s = quote t) : s = t := by
  have hlist := congrArg String.toList h
  rw [toList_quote, toList_quote, List.cons_append, List.cons_append, List.cons.injEq,
    List.append_cancel_right_eq] at hlist
  exact String.toList_inj.1 (quoteChars_injective hlist.2)

/-! ## Lines -/

/-- No character is written with a line break. -/
theorem not_mem_quoteChar (c : Char) : '\n' ∉ quoteChar c := by
  unfold quoteChar
  split_ifs with hnull htab hreturn hline hquote hbackslash hhidden
  · decide
  · decide
  · decide
  · decide
  · decide
  · decide
  · have hdigits : '\n' ∉ Nat.toDigits 16 c.toNat := not_mem_toDigits (by decide) _
    simpa using hdigits
  · rw [List.mem_singleton]
    exact fun h => hline h.symm

/-- A quoted text stays on its line. -/
theorem not_mem_quote (s : String) : '\n' ∉ (quote s).toList := by
  rw [toList_quote]
  intro hin
  rcases List.mem_append.1 hin with hin | hin
  · rcases List.mem_cons.1 hin with hin | hin
    · cases hin
    · obtain ⟨c, -, hc⟩ := List.mem_flatMap.1 hin
      exact not_mem_quoteChar c hc
  · cases List.mem_singleton.1 hin

end ChannelMachine.Text

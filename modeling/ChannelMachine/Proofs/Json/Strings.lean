import ChannelMachine.Json.Reader
import Mathlib.Tactic.IntervalCases

/-!
# String lexemes

Every text has a lexeme.  A reader takes just the lexeme off the text up to the quote behind it
(`stringOnto?_escape`), and the text of the lexeme is the one that it was written for
(`unescape?_escape`), control characters and all others included.
-/

namespace ChannelMachine.Json

theorem hexValue?_digitChar {n : Nat} (h : n < 16) : hexValue? n.digitChar = some n := by
  interval_cases n <;> rfl

/-- The four digits of an escaped control character. -/
theorem unit?_control {n : Nat} (h : n < 32) :
    unit? '0' '0' (n / 16).digitChar (n % 16).digitChar = some n := by
  have hzero : hexValue? '0' = some 0 := rfl
  rw [unit?, hzero, hexValue?_digitChar (by omega), hexValue?_digitChar (Nat.mod_lt n (by decide))]
  exact congrArg some (by omega)

/-- A character inside a lexeme is passed over as a whole. -/
theorem stringOnto?_escapeChar (read : List Char) (c : Char) (rest : List Char) :
    stringOnto? read (escapeChar c ++ rest) = stringOnto? ((escapeChar c).reverse ++ read) rest := by
  unfold escapeChar
  split_ifs with hquote hbackslash hbackspace hfeed hline hreturn htab hcontrol
  · rfl
  · rfl
  · rfl
  · rfl
  · rfl
  · rfl
  · rfl
  · rw [List.cons_append, List.cons_append, List.cons_append, List.cons_append, List.cons_append,
      List.cons_append, List.nil_append, stringOnto?, unit?_control hcontrol]
    rfl
  · rw [List.cons_append, List.nil_append, stringOnto?]
    · rw [if_neg (not_or.2 ⟨hbackslash, hcontrol⟩)]
      rfl
    · exact hquote
    · exact fun _ _ _ _ _ h _ => hbackslash h
    · exact fun _ _ h _ => hbackslash h

theorem stringOnto?_flatMap (text read rest : List Char) :
    stringOnto? read (escape text ++ rest) = stringOnto? ((escape text).reverse ++ read) rest := by
  induction text generalizing read with
  | nil => rfl
  | cons c text ih =>
    rw [escape, List.flatMap_cons, List.append_assoc, stringOnto?_escapeChar]
    exact (ih _).trans (by rw [List.reverse_append, List.append_assoc]; rfl)

/-- The lexeme of a text is taken off up to the quote behind it. -/
theorem stringOnto?_escape (text rest : List Char) :
    stringOnto? [] (escape text ++ '"' :: rest) = some (escape text, rest) := by
  rw [stringOnto?_flatMap, List.append_nil, stringOnto?, List.reverse_reverse]

/-- An escaped character is read as itself. -/
theorem unescapeOnto?_escapeChar (read : List Char) (c : Char) (rest : List Char) :
    unescapeOnto? read (escapeChar c ++ rest) = unescapeOnto? (c :: read) rest := by
  unfold escapeChar
  split_ifs with hquote hbackslash hbackspace hfeed hline hreturn htab hcontrol
  · subst hquote; rfl
  · subst hbackslash; rfl
  · subst hbackspace; rfl
  · subst hfeed; rfl
  · subst hline; rfl
  · subst hreturn; rfl
  · subst htab; rfl
  · rw [List.cons_append, List.cons_append, List.cons_append, List.cons_append, List.cons_append,
      List.cons_append, List.nil_append, unescapeOnto?, unit?_control hcontrol]
    dsimp only
    rw [if_pos (.inl (by omega)), Char.ofNat_toNat]
  · rw [List.cons_append, List.nil_append, unescapeOnto?]
    · rw [if_neg hbackslash]
    · exact fun _ _ _ _ _ h _ => hbackslash h
    · exact fun _ _ h _ => hbackslash h

theorem unescapeOnto?_escape (text read : List Char) :
    unescapeOnto? read (escape text) = some (read.reverse ++ text) := by
  induction text generalizing read with
  | nil => rw [List.append_nil]; rfl
  | cons c text ih =>
    rw [escape, List.flatMap_cons, unescapeOnto?_escapeChar]
    exact (ih _).trans (by rw [List.reverse_cons, List.append_assoc]; rfl)

/-- The lexeme of a text is read as the text. -/
theorem unescape?_escape (text : List Char) : unescape? (escape text) = some text :=
  unescapeOnto?_escape text []

end ChannelMachine.Json

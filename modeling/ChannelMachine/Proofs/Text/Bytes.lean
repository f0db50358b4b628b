import Mathlib.Data.List.Lex
import Mathlib.Data.String.Basic
import Mathlib.Order.Monotone.Basic

/-!
# The bytes of a text

A text is ordered by its characters from the left.  That is the order of its bytes in UTF-8: of two
characters, the lesser one has the lesser byte where their encodings differ first, and neither
encoding starts the other.
-/

namespace ChannelMachine.Text

/-- The bytes of a character in UTF-8, as numbers. -/
def charOctets (c : Char) : List Nat := (String.utf8EncodeChar c).map UInt8.toNat

/-- The bytes of a text in UTF-8, as numbers. -/
def octets (s : String) : List Nat := s.toUTF8.data.toList.map UInt8.toNat

theorem octets_eq (s : String) : octets s = s.toList.flatMap charOctets := by
  have hbytes : s.toUTF8 = s.toList.utf8Encode := by
    rw [← String.toByteArray_ofList, String.ofList_toList]
    rfl
  unfold octets
  rw [hbytes, List.utf8Encode, List.data_toByteArray, List.map_flatMap]
  rfl

/-- The bytes of a character hold the digits of its number: the last seven bits, or six bits in each
byte but the first. -/
theorem charOctets_cases (c : Char) :
    (c.toNat ≤ 127 ∧ charOctets c = [c.toNat]) ∨
    (127 < c.toNat ∧ c.toNat ≤ 2047 ∧ charOctets c = [c.toNat / 64 + 192, c.toNat % 64 + 128]) ∨
    (2047 < c.toNat ∧ c.toNat ≤ 65535 ∧
      charOctets c = [c.toNat / 4096 + 224, c.toNat / 64 % 64 + 128, c.toNat % 64 + 128]) ∨
    (65535 < c.toNat ∧ charOctets c = [c.toNat / 262144 + 240, c.toNat / 4096 % 64 + 128,
      c.toNat / 64 % 64 + 128, c.toNat % 64 + 128]) := by
  have hmax : c.toNat < 0x110000 := by
    rcases c.valid with hc | hc
    · exact lt_trans hc (by decide)
    · exact hc.2
  have tail (k : Nat) : (k % 64 + 128) % 2 ^ 8 = k % 64 + 128 := by omega
  unfold charOctets String.utf8EncodeChar
  change c.val.toNat < _ at hmax
  unfold Char.toNat
  generalize c.val.toNat = n at *
  dsimp only
  split
  next h =>
    refine .inl ⟨h, ?_⟩
    rw [List.map_singleton, UInt8.toNat_ofNat', Nat.mod_eq_of_lt (by omega)]
  next h =>
    right
    split
    next h' =>
      refine .inl ⟨by omega, h', ?_⟩
      simp only [List.map_cons, List.map_nil, UInt8.toNat_ofNat', tail]
      rw [Nat.mod_eq_of_lt (by omega), Nat.mod_eq_of_lt (by omega)]
    next h' =>
      right
      split
      next h'' =>
        refine .inl ⟨by omega, h'', ?_⟩
        simp only [List.map_cons, List.map_nil, UInt8.toNat_ofNat', tail]
        rw [Nat.mod_eq_of_lt (by omega), Nat.mod_eq_of_lt (by omega)]
      next h'' =>
        refine .inr ⟨by omega, ?_⟩
        simp only [List.map_cons, List.map_nil, UInt8.toNat_ofNat', tail]
        rw [Nat.mod_eq_of_lt (by omega), Nat.mod_eq_of_lt (by omega)]

theorem charOctets_ne_nil (c : Char) : charOctets c ≠ [] := by
  unfold charOctets
  simp

/-- The lesser of two numbers has the lesser digit where their digits differ first.  Here they have
four digits, of which the last three are worth six bits. -/
theorem digits_lt {m n : Nat} (h : m < n) :
    m / 262144 < n / 262144 ∨ m / 262144 = n / 262144 ∧ (m / 4096 % 64 < n / 4096 % 64 ∨
      m / 4096 % 64 = n / 4096 % 64 ∧ (m / 64 % 64 < n / 64 % 64 ∨
        m / 64 % 64 = n / 64 % 64 ∧ m % 64 < n % 64)) := by
  have h₁ : m / 64 < n / 64 ∨ m / 64 = n / 64 ∧ m % 64 < n % 64 := by omega
  have h₂ : m / 4096 < n / 4096 ∨ m / 4096 = n / 4096 ∧ m / 64 % 64 < n / 64 % 64 ∨
      m / 64 = n / 64 := by omega
  omega

/-- The bytes of two characters differ, and the lesser one has the lesser byte where they do. -/
theorem charOctets_append_lt {c d : Char} (h : c < d) (u v : List Nat) :
    charOctets c ++ u < charOctets d ++ v := by
  have hlt : c.toNat < d.toNat := h
  have hdigits := digits_lt hlt
  rcases charOctets_cases c with ⟨hc, heq⟩ | ⟨hc, hc', heq⟩ | ⟨hc, hc', heq⟩ | ⟨hc, heq⟩ <;>
    rcases charOctets_cases d with ⟨hd, heq'⟩ | ⟨hd, hd', heq'⟩ | ⟨hd, hd', heq'⟩ | ⟨hd, heq'⟩ <;>
      rw [heq, heq'] <;>
      simp only [List.cons_append, List.nil_append, List.cons_lt_cons_iff] <;> omega

theorem flatMap_charOctets_strictMono : StrictMono (List.flatMap charOctets) := by
  intro l m h
  induction l generalizing m with
  | nil =>
    cases m with
    | nil => exact absurd h (lt_irrefl _)
    | cons d m =>
      obtain ⟨b, rest, hb⟩ := List.exists_cons_of_ne_nil (charOctets_ne_nil d)
      rw [List.flatMap_nil, List.flatMap_cons, hb]
      exact List.nil_lt_cons ..
  | cons c l ih =>
    cases m with
    | nil => exact absurd h (List.not_lt_nil _)
    | cons d m =>
      rw [List.flatMap_cons, List.flatMap_cons]
      rcases List.cons_lt_cons_iff.1 h with hlt | ⟨rfl, hlt⟩
      · exact charOctets_append_lt hlt _ _
      · exact List.append_left_lt (ih hlt)

/-- Texts are in the order of their bytes. -/
theorem octets_lt_iff {s t : String} : octets s < octets t ↔ s < t := by
  rw [octets_eq, octets_eq, flatMap_charOctets_strictMono.lt_iff_lt, String.lt_iff]

/-- The same bytes are the same text. -/
theorem octets_inj {s t : String} : octets s = octets t ↔ s = t := by
  rw [octets_eq, octets_eq, flatMap_charOctets_strictMono.injective.eq_iff, String.toList_inj]

end ChannelMachine.Text

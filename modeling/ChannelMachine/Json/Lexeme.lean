import ChannelMachine.Number

/-!
# The lexemes of JSON

A string of a JSON text is kept as it is written between its quotes, and a number as it is
written.  This module holds the two directions for each.  `escape` writes a text as a lexeme
and `unescape?` reads one; `lexemeOf?` writes a double and `numberOf?` reads one.

A lexeme may be well formed and yet have no value: a string with an unpaired surrogate escape
denotes no text, and a number may be too large for a double.
-/

namespace ChannelMachine.Json

open Decimal

/-! ## Strings -/

/-- The value of a hexadecimal digit. -/
def hexValue? (c : Char) : Option Nat :=
  if '0' ≤ c ∧ c ≤ '9' then some (c.toNat - '0'.toNat)
  else if 'a' ≤ c ∧ c ≤ 'f' then some (c.toNat - 'a'.toNat + 10)
  else if 'A' ≤ c ∧ c ≤ 'F' then some (c.toNat - 'A'.toNat + 10)
  else none

/-- The code unit that four hexadecimal digits name. -/
def unit? (a b c d : Char) : Option Nat :=
  match hexValue? a, hexValue? b, hexValue? c, hexValue? d with
  | some a, some b, some c, some d => some (((a * 16 + b) * 16 + c) * 16 + d)
  | _, _, _, _ => none

/-- The character behind a one-letter escape. -/
def shortEscape? : Char → Option Char
  | '"' => some '"'
  | '\\' => some '\\'
  | '/' => some '/'
  | 'b' => some (Char.ofNat 8)
  | 'f' => some (Char.ofNat 12)
  | 'n' => some '\n'
  | 'r' => some '\r'
  | 't' => some '\t'
  | _ => none

/-- The text of a string lexeme, appended to what was read before it in reverse.  A code unit
above the surrogates or below them is a character; a high surrogate needs a low one right
behind it. -/
def unescapeOnto? (read : List Char) : List Char → Option (List Char)
  | [] => some read.reverse
  | '\\' :: 'u' :: a :: b :: c :: d :: rest =>
      match unit? a b c d with
      | none => none
      | some high =>
          if high < 0xd800 ∨ 0xdfff < high then unescapeOnto? (Char.ofNat high :: read) rest
          else if 0xdc00 ≤ high then none
          else
            match rest with
            | '\\' :: 'u' :: a :: b :: c :: d :: rest =>
                match unit? a b c d with
                | none => none
                | some low =>
                    if low < 0xdc00 ∨ 0xdfff < low then none
                    else
                      let code := 0x10000 + (high - 0xd800) * 0x400 + (low - 0xdc00)
                      unescapeOnto? (Char.ofNat code :: read) rest
            | _ => none
  | '\\' :: c :: rest =>
      match shortEscape? c with
      | none => none
      | some e => unescapeOnto? (e :: read) rest
  | c :: rest => if c = '\\' then none else unescapeOnto? (c :: read) rest

/-- The text of a string lexeme. -/
def unescape? (lexeme : List Char) : Option (List Char) := unescapeOnto? [] lexeme

/-- A character inside a string lexeme.  Quotes, backslashes and control characters are
escaped and all others stand for themselves. -/
def escapeChar (c : Char) : List Char :=
  if c = '"' then ['\\', '"']
  else if c = '\\' then ['\\', '\\']
  else if c = Char.ofNat 8 then ['\\', 'b']
  else if c = Char.ofNat 12 then ['\\', 'f']
  else if c = '\n' then ['\\', 'n']
  else if c = '\r' then ['\\', 'r']
  else if c = '\t' then ['\\', 't']
  else if c.toNat < 32 then
    ['\\', 'u', '0', '0', Nat.digitChar (c.toNat / 16), Nat.digitChar (c.toNat % 16)]
  else [c]

/-- The lexeme of a text. -/
def escape (text : List Char) : List Char := text.flatMap escapeChar

/-! ## Numbers -/

/-- Whether a character is a decimal digit. -/
def isDigit (c : Char) : Bool := '0' ≤ c && c ≤ '9'

/-- The number that decimal digits denote. -/
def digitsValue (digits : List Char) : Nat :=
  digits.foldl (fun n c => 10 * n + (c.toNat - '0'.toNat)) 0

/-- The exponent behind the mantissa of a number lexeme. -/
def exponentValue : List Char → Int
  | 'e' :: rest => signed rest
  | 'E' :: rest => signed rest
  | _ => 0
where
  /-- An integer with an optional sign. -/
  signed : List Char → Int
    | '-' :: digits => -(digitsValue digits : Int)
    | '+' :: digits => digitsValue digits
    | digits => digitsValue digits

/-- The sign and the magnitude of a number lexeme. -/
def numeralOf (lexeme : List Char) : Bool × Numeral :=
  let (negative, rest) :=
    match lexeme with
    | '-' :: rest => (true, rest)
    | rest => (false, rest)
  let whole := rest.takeWhile isDigit
  match rest.dropWhile isDigit with
  | '.' :: rest =>
      let fraction := rest.takeWhile isDigit
      (negative, ⟨digitsValue (whole ++ fraction),
        exponentValue (rest.dropWhile isDigit) - fraction.length⟩)
  | rest => (negative, ⟨digitsValue whole, exponentValue rest⟩)

/-- The double nearest to a number lexeme, if it is finite. -/
def numberOf? (lexeme : List Char) : Option Number :=
  let read := numeralOf lexeme
  (read.2.toBits? read.1).map Number.mk

/-- The natural numbers that fit a field are those below this bound. -/
def naturalLimit : Nat := 0x10000000000000000

/-- The natural number of a lexeme that has no sign, point or exponent. -/
def naturalOf? (lexeme : List Char) : Option Nat :=
  if lexeme.all isDigit then
    let n := digitsValue lexeme
    if n < naturalLimit then some n else none
  else none

/-- Written numbers: as shown ones, but with a sign on every exponent. -/
def written : Layout := ⟨-4, 16, true, .even⟩

/-- The lexeme of a finite double. -/
def lexemeOf? (x : Number) : Option (List Char) :=
  x.binary?.map fun b => (written.write b).toList

example : unescape? ['\\', 'u', '0', '0', 'e', '9'] = some ['é'] := by decide +kernel
example : unescape? "\\ud83d\\ude00".toList = some ['😀'] := by decide +kernel
/-- An unpaired surrogate. -/
example : unescape? "\\ud83d".toList = none := by decide +kernel
example : numberOf? "-0".toList = some ⟨0x8000000000000000⟩ := by decide +kernel
example : numberOf? "1e-400".toList = some .zero := by decide +kernel
example : numberOf? "1e400".toList = none := by decide +kernel
example : lexemeOf? (.ofFloat 1e16) = some "1e+16".toList := by decide +kernel

end ChannelMachine.Json

import ChannelMachine.Json.Tree

/-!
# Reading JSON

`Json.parse?` accepts exactly the JSON texts: one value, blanks around it, no comment, trailing
comma or byte order mark.  It checks the form of every lexeme and leaves its value open.

Each function takes the characters still to be read and returns the rest.  The counter of
`value`, `items` and `fields` bounds the calls; a call for an item or a field comes with at
least one character consumed since the call before it for the same array or object, so twice
the length of the text is enough.
-/

namespace ChannelMachine.Json

/-- The characters that may stand between two tokens. -/
def isBlank (c : Char) : Bool := c = ' ' || c = '\n' || c = '\t' || c = '\r'

/-- The text after its leading blanks. -/
def skipBlanks (cs : List Char) : List Char := cs.dropWhile isBlank

/-- A string lexeme up to its closing quote, appended to what was read before in reverse, and
the rest behind the quote. -/
def stringOnto? (read : List Char) : List Char → Option (List Char × List Char)
  | [] => none
  | '"' :: rest => some (read.reverse, rest)
  | '\\' :: 'u' :: a :: b :: c :: d :: rest =>
      if (unit? a b c d).isSome then stringOnto? (d :: c :: b :: a :: 'u' :: '\\' :: read) rest
      else none
  | '\\' :: c :: rest =>
      if (shortEscape? c).isSome then stringOnto? (c :: '\\' :: read) rest else none
  | c :: rest => if c = '\\' ∨ c.toNat < 32 then none else stringOnto? (c :: read) rest

/-- The whole part of a number: one zero, or digits that start with another one. -/
def whole? : List Char → Option (List Char × List Char)
  | '0' :: rest => some (['0'], rest)
  | cs =>
      let digits := cs.takeWhile isDigit
      if digits.isEmpty then none else some (digits, cs.dropWhile isDigit)

/-- The fraction of a number: nothing, or a point and digits. -/
def fraction? : List Char → Option (List Char × List Char)
  | '.' :: rest =>
      let digits := rest.takeWhile isDigit
      if digits.isEmpty then none else some ('.' :: digits, rest.dropWhile isDigit)
  | cs => some ([], cs)

/-- The sign of an exponent. -/
def exponentSign : List Char → List Char × List Char
  | '+' :: rest => (['+'], rest)
  | '-' :: rest => (['-'], rest)
  | cs => ([], cs)

/-- The exponent of a number: nothing, or a letter, an optional sign and digits. -/
def exponent? : List Char → Option (List Char × List Char)
  | c :: rest =>
      if c = 'e' ∨ c = 'E' then
        let (sign, rest) := exponentSign rest
        let digits := rest.takeWhile isDigit
        if digits.isEmpty then none else some (c :: sign ++ digits, rest.dropWhile isDigit)
      else some ([], c :: rest)
  | [] => some ([], [])

/-- A number lexeme and the rest behind it. -/
def number? (cs : List Char) : Option (List Char × List Char) :=
  let (sign, cs) :=
    match cs with
    | '-' :: rest => (['-'], rest)
    | cs => ([], cs)
  match whole? cs with
  | none => none
  | some (whole, cs) =>
      match fraction? cs with
      | none => none
      | some (fraction, cs) =>
          match exponent? cs with
          | none => none
          | some (exponent, cs) => some (sign ++ whole ++ fraction ++ exponent, cs)

mutual

/-- One value and the rest behind it. -/
def value? : Nat → List Char → Option (Json × List Char)
  | 0, _ => none
  | n + 1, cs =>
      match skipBlanks cs with
      | 'n' :: 'u' :: 'l' :: 'l' :: rest => some (.null, rest)
      | 't' :: 'r' :: 'u' :: 'e' :: rest => some (.bool true, rest)
      | 'f' :: 'a' :: 'l' :: 's' :: 'e' :: rest => some (.bool false, rest)
      | '"' :: rest =>
          match stringOnto? [] rest with
          | some (lexeme, rest) => some (.string lexeme, rest)
          | none => none
      | '[' :: rest =>
          match skipBlanks rest with
          | ']' :: rest => some (.array [], rest)
          | rest => itemsOnto? n [] rest
      | '\x7b' :: rest =>
          match skipBlanks rest with
          | '\x7d' :: rest => some (.object [], rest)
          | rest => fieldsOnto? n [] rest
      | cs =>
          match number? cs with
          | some (lexeme, rest) => some (.number lexeme, rest)
          | none => none

/-- The items of an array up to its bracket, appended to those before in reverse. -/
def itemsOnto? : Nat → List Json → List Char → Option (Json × List Char)
  | 0, _, _ => none
  | n + 1, read, cs =>
      match value? n cs with
      | none => none
      | some (item, rest) =>
          match skipBlanks rest with
          | ',' :: rest => itemsOnto? n (item :: read) rest
          | ']' :: rest => some (.array (item :: read).reverse, rest)
          | _ => none

/-- The fields of an object up to its brace, appended to those before in reverse. -/
def fieldsOnto? : Nat → List (List Char × Json) → List Char → Option (Json × List Char)
  | 0, _, _ => none
  | n + 1, read, cs =>
      match skipBlanks cs with
      | '"' :: rest =>
          match stringOnto? [] rest with
          | none => none
          | some (key, rest) =>
              match skipBlanks rest with
              | ':' :: rest =>
                  match value? n rest with
                  | none => none
                  | some (content, rest) =>
                      match skipBlanks rest with
                      | ',' :: rest => fieldsOnto? n ((key, content) :: read) rest
                      | '\x7d' :: rest => some (.object ((key, content) :: read).reverse, rest)
                      | _ => none
              | _ => none
      | _ => none

end

/-- The tree of a text that is one JSON value and blanks around it. -/
def parse? (text : String) : Option Json :=
  let cs := text.toList
  match value? (2 * cs.length + 2) cs with
  | some (j, rest) => if (skipBlanks rest).isEmpty then some j else none
  | none => none

/-! ## Tests -/

example : (parse? " [[-0.50e3], true] ").map nesting = some 2 := by decide +kernel
/-- A comma at the end. -/
example : (parse? "[1,]").isNone = true := by decide +kernel
/-- A leading zero. -/
example : (parse? "01").isNone = true := by decide +kernel
/-- An escape without its digits. -/
example : (parse? "\"\\u12\"").isNone = true := by decide +kernel

end ChannelMachine.Json

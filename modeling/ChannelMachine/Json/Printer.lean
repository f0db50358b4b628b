import ChannelMachine.Json.Tree

/-!
# Writing JSON

`Json.pretty` puts every item and field on a line of its own, two blanks further in than its
array or object; an empty one stays on its line.  `Json.compact` writes a tree without any
blank.
-/

namespace ChannelMachine.Json

/-- The start of a line at an indentation level. -/
def newLine (level : Nat) : List Char := '\n' :: List.replicate (2 * level) ' '

/-- A string lexeme between its quotes. -/
def quoted (lexeme : List Char) : List Char := '"' :: lexeme ++ ['"']

mutual

/-- The lines of a tree whose first line is at an indentation level. -/
def prettyAt (level : Nat) : Json → List Char
  | .null => ['n', 'u', 'l', 'l']
  | .bool true => ['t', 'r', 'u', 'e']
  | .bool false => ['f', 'a', 'l', 's', 'e']
  | .number lexeme => lexeme
  | .string lexeme => quoted lexeme
  | .array [] => ['[', ']']
  | .array (item :: items) =>
      '[' :: newLine (level + 1) ++ prettyAt (level + 1) item ++ prettyItems (level + 1) items
        ++ newLine level ++ [']']
  | .object [] => ['\x7b', '\x7d']
  | .object ((key, content) :: fields) =>
      '\x7b' :: newLine (level + 1) ++ quoted key ++ [':', ' '] ++ prettyAt (level + 1) content
        ++ prettyFields (level + 1) fields ++ newLine level ++ ['\x7d']

/-- The items of an array after the first. -/
def prettyItems (level : Nat) : List Json → List Char
  | [] => []
  | item :: items => ',' :: newLine level ++ prettyAt level item ++ prettyItems level items

/-- The fields of an object after the first. -/
def prettyFields (level : Nat) : List (List Char × Json) → List Char
  | [] => []
  | (key, content) :: fields =>
      ',' :: newLine level ++ quoted key ++ [':', ' '] ++ prettyAt level content
        ++ prettyFields level fields

end

/-- The indented text of a tree. -/
def pretty (j : Json) : String := .ofList (prettyAt 0 j)

mutual

/-- The text of a tree without blanks, in front of a text that follows it. -/
def compactOnto (after : List Char) : Json → List Char
  | .null => 'n' :: 'u' :: 'l' :: 'l' :: after
  | .bool true => 't' :: 'r' :: 'u' :: 'e' :: after
  | .bool false => 'f' :: 'a' :: 'l' :: 's' :: 'e' :: after
  | .number lexeme => lexeme ++ after
  | .string lexeme => '"' :: lexeme ++ '"' :: after
  | .array [] => '[' :: ']' :: after
  | .array (item :: items) => '[' :: compactOnto (compactItems (']' :: after) items) item
  | .object [] => '\x7b' :: '\x7d' :: after
  | .object ((key, content) :: fields) =>
      '\x7b' :: '"' :: key ++ '"' :: ':' ::
        compactOnto (compactFields ('\x7d' :: after) fields) content

/-- The items of an array after the first. -/
def compactItems (after : List Char) : List Json → List Char
  | [] => after
  | item :: items => ',' :: compactOnto (compactItems after items) item

/-- The fields of an object after the first. -/
def compactFields (after : List Char) : List (List Char × Json) → List Char
  | [] => after
  | (key, content) :: fields =>
      ',' :: '"' :: key ++ '"' :: ':' :: compactOnto (compactFields after fields) content

end

/-- The text of a tree on one line. -/
def compact (j : Json) : String := .ofList (compactOnto [] j)

/-! ## Tests -/

example : (ofVariant "a" (.array [ofNat 1, .null])).compact = "\x7b\"a\":[1,null]\x7d" := by
  decide +kernel
example : (ofVariant "a" (.array [ofNat 1, .array []])).pretty =
    "\x7b\n  \"a\": [\n    1,\n    []\n  ]\n\x7d" := by
  decide +kernel

end ChannelMachine.Json

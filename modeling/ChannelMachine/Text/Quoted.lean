import ChannelMachine.Text.Hidden

/-!
# Quoted text

A listing shows a text between double quotes.  A quote, a backslash and the characters without
a glyph of their own are written as escapes, so a quoted text stays on its line and ends at its
closing quote.
-/

namespace ChannelMachine.Text

/-- A character inside a quoted text. -/
def quoteChar (c : Char) : List Char :=
  if c = Char.ofNat 0 then ['\\', '0']
  else if c = '\t' then ['\\', 't']
  else if c = '\r' then ['\\', 'r']
  else if c = '\n' then ['\\', 'n']
  else if c = '"' then ['\\', '"']
  else if c = '\\' then ['\\', '\\']
  else if isHidden c then '\\' :: 'u' :: '\x7b' :: Nat.toDigits 16 c.toNat ++ ['\x7d']
  else [c]

/-- A text between quotes. -/
def quote (s : String) : String :=
  .ofList ('"' :: s.toList.flatMap quoteChar ++ ['"'])

end ChannelMachine.Text

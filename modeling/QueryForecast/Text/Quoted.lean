import QueryForecast.Text.Hidden

/-!
# Quoted text in messages

How a message shows a text that was found in place of something else: between quotes, with quotes,
backslashes and line ends escaped by a letter, and other characters without a shape of their own by
number.
-/

namespace QueryForecast.Text

/-- A character inside a quoted text. -/
def shown (c : Char) : List Char :=
  if c = '"' then ['\\', '"']
  else if c = '\\' then ['\\', '\\']
  else if c = '\n' then ['\\', 'n']
  else if c = '\r' then ['\\', 'r']
  else if c = '\t' then ['\\', 't']
  else if c.toNat = 0 then ['\\', '0']
  else if isHidden c then ['\\', 'u', '{'] ++ Nat.toDigits 16 c.toNat ++ ['}']
  else [c]

/-- A text between quotes. -/
def quoted (s : String) : String :=
  String.ofList ('"' :: (s.toList.flatMap shown ++ ['"']))

end QueryForecast.Text

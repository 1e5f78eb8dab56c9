import HashBoard.Text.Numeral
import HashBoard.Text.Invisible

/-!
# Quoted text

Text between double quotes in which quotes, backslashes and characters without a printed form are
escaped: tab, return, line feed and the zero character by a letter or digit after a backslash, the
others by their code point in braces. A single quote stays as it is.
-/

namespace HashBoard.Text

/-- One character as it stands between double quotes. -/
def quotedChar (c : Char) : List Char :=
  if c = '\x00' then ['\\', '0']
  else if c = '\t' then ['\\', 't']
  else if c = '\r' then ['\\', 'r']
  else if c = '\n' then ['\\', 'n']
  else if c = '"' then ['\\', '"']
  else if c = '\\' then ['\\', '\\']
  else if isInvisible c then ['\\', 'u', '\x7b'] ++ Nat.toDigits 16 c.toNat ++ ['\x7d']
  else [c]

/-- The text between double quotes. -/
def quoted (s : String) : String :=
  String.ofList ('"' :: s.toList.flatMap quotedChar ++ ['"'])

end HashBoard.Text

import MibDrivers.Text.Unprintable

/-!
# Quoted text in messages

Messages show a text that a user supplied between double quotes, with everything that
would not be visible written as an escape: `\t`, `\r`, `\n`, `\0`, `\"` and `\\` by name,
any other unprintable character by its code point in lower case hexadecimal digits.

## Main definitions

* `Text.quotedChar` — one character as it stands between the quotes
* `Text.quoted` — a text between quotes
-/

namespace MibDrivers.Text

/-- The escape that names a character by its code point. -/
def codePointEscape (c : Char) : List Char :=
  '\\' :: 'u' :: '\x7b' :: (Nat.toDigits 16 c.toNat ++ ['\x7d'])

/-- One character of a quoted text. -/
def quotedChar (c : Char) : List Char :=
  if c = '\t' then ['\\', 't']
  else if c = '\r' then ['\\', 'r']
  else if c = '\n' then ['\\', 'n']
  else if c = '\x00' then ['\\', '0']
  else if c = '"' then ['\\', '"']
  else if c = '\\' then ['\\', '\\']
  else if isUnprintable c then codePointEscape c
  else [c]

/-- A text between double quotes. -/
def quoted (s : String) : String :=
  String.ofList ('"' :: (s.toList.flatMap quotedChar ++ ['"']))

end MibDrivers.Text

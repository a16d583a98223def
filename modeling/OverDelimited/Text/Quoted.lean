import OverDelimited.Text.Printable

/-!
# Quoted text

A quoted text stands between double quotes on one line.  Quotes and backslashes take a backslash,
line feed, carriage return, tab and the null character have names, and a character that does not
show is written by its code point.
-/

namespace OverDelimited.Text

/-- The escape by code point, in hexadecimal digits without padding. -/
def codePointEscape (c : Char) : List Char :=
  ['\\', 'u', '\x7b'] ++ Nat.toDigits 16 c.toNat ++ ['\x7d']

/-- How one character is written between the quotes. -/
def quotedChar (c : Char) : List Char :=
  if c = '"' then ['\\', '"']
  else if c = '\\' then ['\\', '\\']
  else if c = '\n' then ['\\', 'n']
  else if c = '\r' then ['\\', 'r']
  else if c = '\t' then ['\\', 't']
  else if c.toNat = 0 then ['\\', '0']
  else if isShown c then [c]
  else codePointEscape c

/-- A text between double quotes. -/
def quoted (text : List Char) : List Char :=
  '"' :: text.flatMap quotedChar ++ ['"']

end OverDelimited.Text

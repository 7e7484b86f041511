import Graphwire.Text.Printable

/-!
# Quoted text

A text between double quotes, with escapes for quotes, backslashes and every character that would
not be seen as itself.
-/

namespace Graphwire.Text

set_option autoImplicit false

/-- The lower-case hexadecimal digits of a number. -/
def hex (n : Nat) : String := String.ofList (Nat.toDigits 16 n)

/-- The spelling of a character between quotes. -/
def quotedChar (c : Char) : String :=
  if c = '\x00' then "\\0"
  else if c = '\t' then "\\t"
  else if c = '\n' then "\\n"
  else if c = '\r' then "\\r"
  else if c = '\\' then "\\\\"
  else if c = '"' then "\\\""
  else if isPrintable c && !isExtendingMark c then c.toString
  else "\\u\x7b" ++ hex c.toNat ++ "\x7d"

/-- A text in double quotes. -/
def quoted (s : String) : String :=
  "\"" ++ String.join (s.toList.map quotedChar) ++ "\""

/-- Left padding with zeros up to a least width. -/
def zeroPadded (width : Nat) (digits : String) : String :=
  String.ofList (List.replicate (width - digits.length) '0') ++ digits

end Graphwire.Text

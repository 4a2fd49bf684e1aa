import EdgeInclude.Text.Printable

/-!
# Quoted text

Messages show a text between double quotes, so that blanks and controls in it can
be seen.

* `Text.quoted` — the quoted form. A quote and a backslash are escaped, NUL, tab,
  line feed and carriage return have a letter of their own, and any other character
  that is not printable, or that would attach to the one before it, is written as
  its code point in hexadecimal.
-/

namespace EdgeInclude.Text

/-- The digits of a number in base sixteen, in lower case. -/
def hexDigits (n : Nat) : Text := Nat.toDigits 16 n

/-- One character as it stands between quotes. -/
def quotedChar (c : Char) : Text :=
  if c == '\x00' then ['\\', '0']
  else if c == '\t' then ['\\', 't']
  else if c == '\r' then ['\\', 'r']
  else if c == '\n' then ['\\', 'n']
  else if c == '"' then ['\\', '"']
  else if c == '\\' then ['\\', '\\']
  else if extendsGrapheme c || !isPrintable c then
    ['\\', 'u', '\x7b'] ++ hexDigits c.toNat ++ ['\x7d']
  else [c]

/-- A text between double quotes, with escapes for what cannot be seen. -/
def quoted (s : Text) : String :=
  String.ofList ('"' :: (s.flatMap quotedChar ++ ['"']))

/-- Quoted texts between brackets, separated by commas. -/
def quotedList (ss : List Text) : String :=
  "[" ++ ", ".intercalate (ss.map quoted) ++ "]"

end EdgeInclude.Text

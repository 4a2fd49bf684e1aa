import EdgeInclude.Datum.Basic

/-!
# Structured values in one line

`Datum.compact` writes a value without blanks, as programs and clients read it: strings between
double quotes, names and values with a colon between them. Quotes, backslashes and controls are
escaped.
-/

namespace EdgeInclude.Datum

/-- Two digits of base sixteen. -/
def hexPair (n : Nat) : Text := List.leftpad 2 '0' (Nat.toDigits 16 n)

/-- One character as it stands in a string. -/
def escape (c : Char) : Text :=
  if c == '"' then ['\\', '"']
  else if c == '\\' then ['\\', '\\']
  else if c == '\n' then ['\\', 'n']
  else if c == '\r' then ['\\', 'r']
  else if c == '\t' then ['\\', 't']
  else if c == '\x08' then ['\\', 'b']
  else if c == '\x0c' then ['\\', 'f']
  else if c.toNat < 0x20 then ['\\', 'u', '0', '0'] ++ hexPair c.toNat
  else [c]

/-- A string between double quotes. -/
def string (s : Text) : Text := '"' :: s.flatMap escape ++ ['"']

mutual

/-- A value in one line. -/
def compact : Datum → Text
  | null => "null".toList
  | bool b => (if b then "true" else "false").toList
  | int n => (toString n).toList
  | real s => s
  | text s | plain s => string s
  | list items => '[' :: compactItems items ++ [']']
  | map fields => '\x7b' :: compactFields fields ++ ['\x7d']

/-- Items with commas between them. -/
def compactItems : List Datum → Text
  | [] => []
  | [d] => compact d
  | d :: ds => compact d ++ ',' :: compactItems ds

/-- Names and values with commas between them. -/
def compactFields : List (Text × Datum) → Text
  | [] => []
  | [(n, d)] => string n ++ ':' :: compact d
  | (n, d) :: fs => string n ++ ':' :: compact d ++ ',' :: compactFields fs

end

end EdgeInclude.Datum

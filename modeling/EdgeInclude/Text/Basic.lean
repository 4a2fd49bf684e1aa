/-!
# Texts and byte strings

The engine reads pages as bytes and tag attributes as text. A byte string is a
list of bytes and a text a list of characters, so that every rule about them can
be stated on lists.

* `Text.isBlank` — the characters with the property White_Space.
* `Text.trim` — a text without the blanks at both of its ends.
* `Text.lower` — ASCII letters in lower case; every other character stays.
* `Text.splitLast?` — the text before and after the last occurrence of a character.
-/

namespace EdgeInclude

/-- A byte string. -/
abbrev Bytes := List UInt8

/-- A text: a list of characters. -/
abbrev Text := List Char

namespace Text

/-! ## 1. Blanks -/

/-- The characters with the property White_Space. -/
def isBlank (c : Char) : Bool :=
  let n := c.toNat
  (9 ≤ n && n ≤ 13) || n == 0x20 || n == 0x85 || n == 0xA0 || n == 0x1680 ||
    (0x2000 ≤ n && n ≤ 0x200A) || n == 0x2028 || n == 0x2029 || n == 0x202F ||
    n == 0x205F || n == 0x3000

/-- The blanks of ASCII other than the vertical tab. -/
def isAsciiBlank (c : Char) : Bool :=
  c == ' ' || c == '\t' || c == '\n' || c == '\r' || c == '\x0c'

/-- The text without its leading blanks. -/
def trimStart (s : Text) : Text := s.dropWhile isBlank

/-- The text without its trailing blanks. -/
def trimEnd (s : Text) : Text := (s.reverse.dropWhile isBlank).reverse

/-- The text without the blanks at both of its ends. -/
def trim (s : Text) : Text := trimEnd (trimStart s)

/-! ## 2. Letter case -/

/-- ASCII letters in lower case; every other character stays. -/
def lower (s : Text) : Text := s.map Char.toLower

/-- Equality up to the case of ASCII letters. -/
def sameLetters (s t : Text) : Bool := lower s == lower t

/-! ## 3. Single characters as marks -/

/-- The text before and after the last occurrence of `c`. -/
def splitLast? (c : Char) (s : Text) : Option (Text × Text) :=
  let tail := (s.reverse.takeWhile (· != c)).reverse
  if tail.length < s.length then some (s.take (s.length - tail.length - 1), tail) else none

/-- The text before and after the first occurrence of `c`. -/
def splitAtFirst? (c : Char) (s : Text) : Option (Text × Text) :=
  let head := s.takeWhile (· != c)
  if head.length < s.length then some (head, s.drop (head.length + 1)) else none

/-- The pieces of a text between the occurrences of `c`; always at least one. -/
def pieces (c : Char) : Text → List Text
  | [] => [[]]
  | a :: s =>
    if a == c then [] :: pieces c s
    else match pieces c s with
      | [] => [[a]]
      | p :: ps => (a :: p) :: ps

/-- The text without a leading and a trailing `q`, when it has both and they are
two characters. -/
def unquote? (q : Char) : Text → Option Text
  | a :: s => if a == q && s.getLast? == some q then some s.dropLast else none
  | [] => none

theorem pieces_ne_nil (c : Char) (s : Text) : pieces c s ≠ [] := by
  cases s with
  | nil => simp [pieces]
  | cons a s =>
    unfold pieces
    split
    · simp
    · split <;> simp

end Text

end EdgeInclude

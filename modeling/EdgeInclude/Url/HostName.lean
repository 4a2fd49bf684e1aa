import EdgeInclude.Text.Basic

/-!
# Host names without regard to case and width

Two host names are one if they differ only in the case of letters, in the width of characters, or
in marks that are not seen.

* `HostName.Shift` — a range of letters and the distance to their other case.
* `HostName.simplify` — the name that stands for all that are one with it.
-/

namespace EdgeInclude.HostName

/-- Every `stride`-th code point from `first` to `last` has its lower case `distance` behind it. -/
structure Shift where
  first : Nat
  last : Nat
  stride : Nat
  distance : Nat
  deriving DecidableEq, Repr

/-- Whether a code point is in a range. -/
def Shift.covers (s : Shift) (n : Nat) : Bool :=
  s.first ≤ n && n ≤ s.last && (n - s.first) % s.stride == 0

/-- The upper-case letters of Latin, Greek, Cyrillic and Armenian scripts outside ASCII. -/
def shifts : List Shift :=
  [⟨0xC0, 0xD6, 1, 32⟩, ⟨0xD8, 0xDE, 1, 32⟩, ⟨0x100, 0x12E, 2, 1⟩, ⟨0x134, 0x136, 2, 1⟩,
    ⟨0x139, 0x13D, 2, 1⟩, ⟨0x141, 0x147, 2, 1⟩, ⟨0x14A, 0x176, 2, 1⟩, ⟨0x179, 0x17D, 2, 1⟩,
    ⟨0x386, 0x386, 1, 38⟩, ⟨0x388, 0x38A, 1, 37⟩, ⟨0x38C, 0x38C, 1, 64⟩, ⟨0x38E, 0x38F, 1, 63⟩,
    ⟨0x391, 0x3A1, 1, 32⟩, ⟨0x3A3, 0x3AB, 1, 32⟩, ⟨0x400, 0x40F, 1, 80⟩, ⟨0x410, 0x42F, 1, 32⟩,
    ⟨0x460, 0x480, 2, 1⟩, ⟨0x48A, 0x4BE, 2, 1⟩, ⟨0x4C1, 0x4CD, 2, 1⟩, ⟨0x4D0, 0x52E, 2, 1⟩,
    ⟨0x531, 0x556, 1, 48⟩, ⟨0x1E00, 0x1E94, 2, 1⟩, ⟨0x1EA0, 0x1EFE, 2, 1⟩]

/-- Characters that stand for others. -/
def others : List (Nat × String) :=
  [(0xAA, "a"), (0xB2, "2"), (0xB3, "3"), (0xB5, "μ"), (0xB9, "1"), (0xBA, "o"), (0x130, "i̇"),
    (0x132, "ij"), (0x133, "ij"), (0x13F, "l·"), (0x140, "l·"), (0x178, "ÿ"), (0x17F, "s"),
    (0x212A, "k"), (0x212B, "å"), (0x3002, "."), (0xFF61, ".")]

/-- Marks that are not seen. -/
def isUnseen (n : Nat) : Bool :=
  n == 0xAD || n == 0x200B || n == 0x2060 || n == 0xFEFF || (0xFE00 ≤ n && n ≤ 0xFE0F)

/-- What a character stands for. -/
def plain (c : Char) : Text :=
  let n := c.toNat
  if n < 0x80 then [c.toLower]
  else if isUnseen n then []
  else if 0xFF01 ≤ n && n ≤ 0xFF5E then [(Char.ofNat (n - 0xFEE0)).toLower]
  else match shifts.find? (·.covers n) with
    | some s => [Char.ofNat (n + s.distance)]
    | none => ((others.find? (·.1 == n)).map (·.2.toList)).getD [c]

/-- The name that stands for all that are one with it. -/
def simplify (s : Text) : Text := s.flatMap plain

end EdgeInclude.HostName

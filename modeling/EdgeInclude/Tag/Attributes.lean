import EdgeInclude.Failure

/-!
# Attributes

The attributes of a tag are names with values: `name="value"`, `name='value'` or
`name=value`. Words without an equals sign are skipped.

* `Attribute.readAll` — the attributes that a text writes, names in lower case.
* `Attribute.readValue?` — the value at the front of a text.
-/

namespace EdgeInclude

/-- An attribute of a tag. -/
structure Attribute where
  name : Text
  value : Text
  deriving DecidableEq, Repr

namespace Attribute

/-! ## 1. Names and values -/

/-- Whether a character belongs to a name. -/
def isNameChar (c : Char) : Bool := c != '=' && !Text.isBlank c

/-- Whether a character opens and closes a quoted value. -/
def isQuote (c : Char) : Bool := c == '"' || c == '\''

/-- The value at the front of a text, and the rest. A quoted value needs its closing quote; a
bare one ends at the first blank. -/
def readValue? : Text → Option (Text × Text)
  | [] => some ([], [])
  | c :: s =>
    if isQuote c then Text.splitAtFirst? c s
    else some ((c :: s).takeWhile (!Text.isBlank ·), (c :: s).dropWhile (!Text.isBlank ·))

/-! ## 2. Lengths -/

theorem length_dropWhile_le (p : Char → Bool) (s : Text) : (s.dropWhile p).length ≤ s.length :=
  (List.dropWhile_sublist p).length_le

theorem length_readValue?_le {s v rest : Text} (h : readValue? s = some (v, rest)) :
    rest.length ≤ s.length := by
  cases s with
  | nil => simp_all [readValue?]
  | cons c s =>
    simp only [readValue?] at h
    split at h
    · simp only [Text.splitAtFirst?] at h
      split at h
      · obtain ⟨-, rfl⟩ := Prod.mk.inj (Option.some.inj h)
        simp only [List.length_drop, List.length_cons]
        omega
      · simp at h
    · obtain ⟨-, rfl⟩ := Prod.mk.inj (Option.some.inj h)
      exact length_dropWhile_le _ _

/-! ## 3. Reading -/

/-- An attribute, unless its name is empty. -/
def named (name value : Text) : List Attribute :=
  if name.isEmpty then [] else [⟨Text.lower name, value⟩]

/-- The attributes that a text writes, in order. -/
def readAll (s : Text) : Except ParseFault (List Attribute) :=
  let s' := Text.trimStart s
  match _begun : s'.dropWhile isNameChar with
  | '=' :: rest =>
    let name := s'.takeWhile isNameChar
    match _valued : readValue? rest with
    | none => .error (.unterminatedQuote (Text.lower name))
    | some (value, rest') => (readAll rest').map (named name value ++ ·)
  | _ :: rest => readAll rest
  | [] => .ok []
termination_by s.length
decreasing_by
  · have h1 := length_readValue?_le _valued
    have h2 := length_dropWhile_le isNameChar (Text.trimStart s)
    have h3 : (Text.trimStart s).length ≤ s.length := length_dropWhile_le _ _
    rw [_begun, List.length_cons] at h2
    omega
  · have h2 := length_dropWhile_le isNameChar (Text.trimStart s)
    have h3 : (Text.trimStart s).length ≤ s.length := length_dropWhile_le _ _
    rw [_begun, List.length_cons] at h2
    omega

end Attribute

end EdgeInclude

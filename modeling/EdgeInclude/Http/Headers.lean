import EdgeInclude.Text.Utf8

/-!
# Header fields

A header block is a list of fields in which the fields of one name stand together,
in the order in which names were first seen. Names are compared without regard to
letter case and kept in lower case; values are byte strings. A block has no limit to the
number of its names.

* `Headers.getAll` — the values of a name, in order.
* `Headers.append` — one more value for a name.
* `Headers.insert` — one value in place of all values of a name.
* `Headers.remove` — no value for a name any more.
* `Reply` — what a client receives.
-/

namespace EdgeInclude

/-- A header block: each name once, with its values. -/
structure Headers where
  groups : List (Text × List Bytes)
  deriving DecidableEq, Repr

namespace Headers

/-! ## 1. Looking up -/

def empty : Headers := ⟨[]⟩

/-- The values of a name in lower case. -/
def valuesOf (name : Text) : List (Text × List Bytes) → List Bytes
  | [] => []
  | (n, vs) :: gs => if n == name then vs else valuesOf name gs

/-- The values of a name, in order. -/
def getAll (h : Headers) (name : Text) : List Bytes := valuesOf (Text.lower name) h.groups

/-- The first value of a name. -/
def get? (h : Headers) (name : Text) : Option Bytes := (h.getAll name).head?

/-- Whether a name has a value. -/
def contains (h : Headers) (name : Text) : Bool := (h.get? name).isSome

/-- All fields, those of one name in order. -/
def toList (h : Headers) : List (Text × Bytes) :=
  h.groups.flatMap fun (name, vs) => vs.map fun v => (name, v)

/-- The number of fields. -/
def length (h : Headers) : Nat := h.toList.length

/-! ## 2. Changing -/

/-- One more value at the end of a name's group, which is made if there is none. -/
def appendTo (name : Text) (v : Bytes) : List (Text × List Bytes) → List (Text × List Bytes)
  | [] => [(name, [v])]
  | (n, vs) :: gs => if n == name then (n, vs ++ [v]) :: gs else (n, vs) :: appendTo name v gs

/-- One value in the place of a name's group. -/
def replaceIn (name : Text) (v : Bytes) : List (Text × List Bytes) → List (Text × List Bytes)
  | [] => [(name, [v])]
  | (n, vs) :: gs => if n == name then (n, [v]) :: gs else (n, vs) :: replaceIn name v gs

/-- One more value for a name. -/
def append (h : Headers) (name : Text) (v : Bytes) : Headers :=
  ⟨appendTo (Text.lower name) v h.groups⟩

/-- One value in place of all values of a name. -/
def insert (h : Headers) (name : Text) (v : Bytes) : Headers :=
  ⟨replaceIn (Text.lower name) v h.groups⟩

/-- No value for a name any more. -/
def remove (h : Headers) (name : Text) : Headers :=
  ⟨h.groups.filter fun (n, _) => n != Text.lower name⟩

/-- All fields of a list, one after the other. -/
def ofList (fields : List (Text × Bytes)) : Headers :=
  fields.foldl (fun h (name, v) => h.append name v) empty

/-- The fields that pass a test on their names. -/
def filterNames (p : Text → Bool) (h : Headers) : Headers :=
  ⟨h.groups.filter fun (name, _) => p name⟩

/-- All fields of `h`, then all fields of `more`. -/
def appendAll (h more : Headers) : Headers :=
  more.toList.foldl (fun h (name, v) => h.append name v) h

/-! ## 3. Values as text -/

/-- A byte that a value may have to be read as text: printable ASCII or a tab. -/
def isPlain (b : UInt8) : Bool := (0x20 ≤ b && b ≤ 0x7E) || b == 0x09

/-- A value as text, if it has plain bytes only. -/
def plain? (v : Bytes) : Option Text :=
  if v.all isPlain then some (v.map fun b => Char.ofNat b.toNat) else none

/-- The first value of a name as text. -/
def text? (h : Headers) (name : Text) : Option Text := (h.get? name).bind plain?

/-! ## 4. Laws -/

theorem valuesOf_appendTo (name m : Text) (v : Bytes) (gs : List (Text × List Bytes)) :
    valuesOf m (appendTo name v gs) =
      if name == m then valuesOf m gs ++ [v] else valuesOf m gs := by
  induction gs with
  | nil => by_cases h : name = m <;> simp [appendTo, valuesOf, h]
  | cons g gs ih =>
    obtain ⟨n, vs⟩ := g
    by_cases hn : n = name <;> by_cases hm : name = m <;> by_cases h : n = m <;>
      simp_all [appendTo, valuesOf]

theorem valuesOf_replaceIn (name m : Text) (v : Bytes) (gs : List (Text × List Bytes)) :
    valuesOf m (replaceIn name v gs) = if name == m then [v] else valuesOf m gs := by
  induction gs with
  | nil => by_cases h : name = m <;> simp [replaceIn, valuesOf, h]
  | cons g gs ih =>
    obtain ⟨n, vs⟩ := g
    by_cases hn : n = name <;> by_cases hm : name = m <;> by_cases h : n = m <;>
      simp_all [replaceIn, valuesOf]

theorem getAll_append (h : Headers) (name m : Text) (v : Bytes) :
    (h.append name v).getAll m =
      if Text.lower name == Text.lower m then h.getAll m ++ [v] else h.getAll m :=
  valuesOf_appendTo _ _ _ _

theorem getAll_insert (h : Headers) (name m : Text) (v : Bytes) :
    (h.insert name v).getAll m =
      if Text.lower name == Text.lower m then [v] else h.getAll m :=
  valuesOf_replaceIn _ _ _ _

end Headers

/-! ## 5. Replies -/

/-- What a client receives: a status, header fields and a body. -/
structure Reply where
  status : Nat
  headers : Headers
  body : Bytes
  deriving DecidableEq, Repr

namespace Reply

/-- A reply with a text of a type. -/
def ofText (status : Nat) (contentType text : String) : Reply :=
  ⟨status, .ofList [("content-type".toList, Text.utf8 contentType.toList)], Text.utf8 text.toList⟩

/-- The reply with one more header field. -/
def withField (r : Reply) (name value : String) : Reply :=
  { r with headers := r.headers.append name.toList (Text.utf8 value.toList) }

end Reply

end EdgeInclude

import EdgeInclude.Backend.Call

/-!
# In-process stores

A store keeps byte strings by key and answers calls from them.
-/

namespace EdgeInclude

/-- Byte strings by key, each key once. -/
structure Store where
  entries : List (Text × Bytes)
  deriving DecidableEq, Repr

namespace Store

def empty : Store := ⟨[]⟩

def get? (s : Store) (key : Text) : Option Bytes := (s.entries.find? (·.1 == key)).map (·.2)

/-- Stores a value in place of the one that the key had. -/
def insert (s : Store) (key : Text) (v : Bytes) : Store :=
  ⟨(key, v) :: s.entries.filter (·.1 != key)⟩

/-- Removes a key; tells its value. -/
def remove (s : Store) (key : Text) : Store × Option Bytes :=
  (⟨s.entries.filter (·.1 != key)⟩, s.get? key)

def length (s : Store) : Nat := s.entries.length

def isEmpty (s : Store) : Bool := s.entries.isEmpty

/-- All pairs of a list, one after the other. -/
def ofList (pairs : List (Text × Bytes)) : Store :=
  pairs.foldl (fun s (k, v) => s.insert k v) empty

/-- Answers a call. -/
def answer (s : Store) (c : Call) : Except Failure Response :=
  match s.get? c.lookupKey with
  | some v => .ok ⟨.empty, v⟩
  | none => .error (.notFound (String.ofList c.lookupKey))

end Store

end EdgeInclude

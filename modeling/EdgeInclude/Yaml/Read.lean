import EdgeInclude.Datum.Basic
import EdgeInclude.Yaml.Token

/-!
# Reading YAML documents

* `Yaml.read?` — the value that a document writes. A document without a value is an empty plain
  scalar; a text with more than one document is refused.

Values are read from the tokens. Every step takes a token, so that the number of tokens bounds the
depth of the recursion.
-/

namespace EdgeInclude.Yaml

/-! ## 1. Places -/

/-- An empty plain scalar. -/
def blank : Datum := .plain []

/-- Whether the next token stands on a line. -/
def onLine (line : Nat) : List Placed → Bool
  | t :: _ => t.place.line == line
  | [] => false

/-- Whether a key begins here: a scalar and a colon on one line. -/
def keyAt? : List Placed → Option (Text × Place × Nat × List Placed)
  | ⟨.plain s, p⟩ :: ⟨.colon, q⟩ :: rest | ⟨.quoted s, p⟩ :: ⟨.colon, q⟩ :: rest =>
    if p.line == q.line then some (s, p, q.line, rest) else none
  | _ => none

/-- The lines of a plain scalar that goes on behind column `least`. -/
def continued (least : Nat) (s : Text) : List Placed → Text × List Placed
  | ⟨.plain t, p⟩ :: rest =>
    if least ≤ p.column && (keyAt? (⟨.plain t, p⟩ :: rest)).isNone then
      continued least (s ++ ' ' :: t) rest
    else (s, ⟨.plain t, p⟩ :: rest)
  | rest => (s, rest)

/-! ## 2. Flow collections -/

mutual

/-- A value between flow marks. -/
def flowValue : (fuel : Nat) → List Placed → Option (Datum × List Placed)
  | 0, _ => none
  | _ + 1, ⟨.plain s, _⟩ :: rest => some (.plain s, rest)
  | _ + 1, ⟨.quoted s, _⟩ :: rest => some (.text s, rest)
  | n + 1, ⟨.openList, _⟩ :: rest => flowItems n [] rest
  | n + 1, ⟨.openMap, _⟩ :: rest => flowFields n [] rest
  | _ + 1, _ => none

/-- The items of a flow list; `read` holds those before, in reverse. -/
def flowItems : (fuel : Nat) → (read : List Datum) → List Placed → Option (Datum × List Placed)
  | 0, _, _ => none
  | _ + 1, read, ⟨.closeList, _⟩ :: rest => some (.list read.reverse, rest)
  | n + 1, read, ts => do
    let (d, rest) ← flowValue n ts
    match rest with
    | ⟨.comma, _⟩ :: rest => flowItems n (d :: read) rest
    | ⟨.closeList, _⟩ :: rest => some (.list (d :: read).reverse, rest)
    | _ => none

/-- The fields of a flow map; `read` holds those before, in reverse. -/
def flowFields :
    (fuel : Nat) → (read : List (Text × Datum)) → List Placed → Option (Datum × List Placed)
  | 0, _, _ => none
  | _ + 1, read, ⟨.closeMap, _⟩ :: rest => some (.map read.reverse, rest)
  | n + 1, read, ts => do
    let (k, rest) ← match ts with
      | ⟨.plain s, _⟩ :: rest | ⟨.quoted s, _⟩ :: rest => some (s, rest)
      | _ => none
    let (d, rest) ← match rest with
      | ⟨.colon, _⟩ :: ⟨.comma, p⟩ :: rest => some (blank, ⟨.comma, p⟩ :: rest)
      | ⟨.colon, _⟩ :: ⟨.closeMap, p⟩ :: rest => some (blank, ⟨.closeMap, p⟩ :: rest)
      | ⟨.colon, _⟩ :: rest => flowValue n rest
      | rest => some (blank, rest)
    match rest with
    | ⟨.comma, _⟩ :: rest => flowFields n ((k, d) :: read) rest
    | ⟨.closeMap, _⟩ :: rest => some (.map ((k, d) :: read).reverse, rest)
    | _ => none

end

/-! ## 3. Block collections -/

/-- A scalar or a flow collection; a plain scalar goes on behind column `least`. -/
def inlineValue (least : Nat) : List Placed → Option (Datum × List Placed)
  | ⟨.plain s, _⟩ :: rest =>
    let (s, rest) := continued least s rest
    some (.plain s, rest)
  | ts => flowValue (2 * ts.length + 2) ts

mutual

/-- A value in a block; a plain scalar goes on behind column `least`. -/
def blockValue : (fuel : Nat) → (least : Nat) → List Placed → Option (Datum × List Placed)
  | 0, _, _ => none
  | n + 1, least, ts =>
    match ts with
    | ⟨.dash, p⟩ :: _ => blockItems n p.column [] ts
    | _ =>
      match keyAt? ts with
      | some (_, p, _) => blockFields n p.column [] ts
      | none => inlineValue least ts

/-- The items of a block list whose dashes stand in a column. -/
def blockItems :
    (fuel : Nat) → (column : Nat) → (read : List Datum) → List Placed → Option (Datum × List Placed)
  | 0, _, _, _ => none
  | n + 1, column, read, ts =>
    match ts with
    | ⟨.dash, p⟩ :: rest =>
      if p.column != column then some (.list read.reverse, ts)
      else do
        let (d, rest) ← match rest with
          | t :: _ =>
            if column < t.place.column then blockValue n (column + 1) rest
            else some (blank, rest)
          | [] => some (blank, rest)
        blockItems n column (d :: read) rest
    | _ => some (.list read.reverse, ts)

/-- The fields of a block map whose keys stand in a column. -/
def blockFields :
    (fuel : Nat) → (column : Nat) → (read : List (Text × Datum)) → List Placed →
      Option (Datum × List Placed)
  | 0, _, _, _ => none
  | n + 1, column, read, ts =>
    match keyAt? ts with
    | none => some (.map read.reverse, ts)
    | some (k, p, line, rest) =>
      if p.column != column then some (.map read.reverse, ts)
      else do
        let (d, rest) ←
          if onLine line rest then
            match rest with
            | ⟨.dash, _⟩ :: _ => none
            | _ => inlineValue (column + 1) rest
          else match rest with
            | ⟨.dash, q⟩ :: _ =>
              if column ≤ q.column then blockValue n (column + 1) rest else some (blank, rest)
            | t :: _ =>
              if column < t.place.column then blockValue n (column + 1) rest else some (blank, rest)
            | [] => some (blank, rest)
        blockFields n column ((k, d) :: read) rest

end

/-! ## 4. Documents -/

/-- The tokens of the only document, without its marks. -/
def onlyDocument? (ts : List Placed) : Option (List Placed) :=
  let isMark (t : Placed) : Bool := t.token == .documentStart || t.token == .documentEnd
  let ts := match ts with
    | ⟨.documentStart, _⟩ :: rest => rest
    | _ => ts
  let body := ts.takeWhile (!isMark ·)
  if (ts.drop body.length).all (·.token == .documentEnd) then some body else none

/-- The value that a document writes. -/
def read? (s : Text) : Option Datum := do
  let ts ← onlyDocument? (← tokens? s)
  if ts.isEmpty then return blank
  match ← blockValue (2 * ts.length + 2) 0 ts with
  | (d, []) => return d
  | _ => none

end EdgeInclude.Yaml

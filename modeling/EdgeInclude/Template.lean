import EdgeInclude.Failure
import EdgeInclude.Request
import EdgeInclude.Text.Search

/-!
# Templates

A template is text with placeholders between double braces. A placeholder may also stand
between single braces inside the double ones.

* `Template.compile` — the parts of a template, or what is wrong with it.
* `Template.render` — the parts one after the other, placeholders replaced by their values.
  Values are not searched for placeholders again.
* `Value` — an attribute value: a template if it has an opening mark, else a literal.
-/

namespace EdgeInclude

/-! ## 1. Parts -/

/-- A part of a template. -/
inductive Template.Part where
  | literal (s : Text)
  | placeholder (token : Text)
  deriving DecidableEq, Repr

/-- A template. -/
structure Template where
  source : Text
  parts : List Template.Part
  deriving DecidableEq, Repr

namespace Template

/-- The mark that opens a placeholder. -/
def opening : Text := ['\x7b', '\x7b']

/-- The mark that closes a placeholder. -/
def closing : Text := ['\x7d', '\x7d']

/-- A literal part, unless it is empty. -/
def literalParts (s : Text) : List Part := if s.isEmpty then [] else [.literal s]

/-- The text between a leading and a trailing single brace. -/
def unbrace? : Text → Option Text
  | '\x7b' :: s => if s.getLast? == some '\x7d' then some s.dropLast else none
  | _ => none

/-- The token that stands between the marks of a placeholder. -/
def token (inner : Text) : Text :=
  let t := Text.trim inner
  match unbrace? t with
  | some u => Text.trim u
  | none => t

/-! ## 2. Compiling -/

/-- The parts of the rest `s` of a template. -/
def compileFrom (source s : Text) : Except ParseFault (List Part) :=
  match _opened : splitFirst? opening s with
  | none => .ok (literalParts s)
  | some (before, after) =>
    match _closed : splitFirst? closing after with
    | none => .error (.unterminatedPlaceholder source)
    | some (inner, rest) =>
      if (token inner).isEmpty then .error (.emptyPlaceholder source)
      else (compileFrom source rest).map fun parts =>
        literalParts before ++ .placeholder (token inner) :: parts
termination_by s.length
decreasing_by
  rw [splitFirst?_eq_append _opened, splitFirst?_eq_append _closed]
  simp [opening, closing]
  omega

/-- The template that a text writes. -/
def compile (source : Text) : Except ParseFault Template :=
  (compileFrom source source).map fun parts => ⟨source, parts⟩

/-- The tokens of the placeholders, in order. -/
def placeholders (t : Template) : List Text :=
  t.parts.filterMap fun
    | .placeholder token => some token
    | .literal _ => none

/-! ## 3. Rendering -/

/-- What a part stands for; `empty` stands in for a placeholder without a value. -/
def Part.render (r : Request) (empty : Text) : Part → Text
  | .literal s => s
  | .placeholder token => (r.placeholder? token).getD empty

/-- The text that a template gives for a request. -/
def render (t : Template) (r : Request) (empty : Text) : Text :=
  t.parts.flatMap (Part.render r empty)

end Template

/-! ## 4. Values -/

/-- An attribute value. -/
inductive Value where
  | literal (s : Text)
  | template (t : Template)
  deriving DecidableEq, Repr

namespace Value

/-- The value that a text writes. -/
def compile (raw : Text) : Except ParseFault Value :=
  if occursIn Template.opening raw then (Template.compile raw).map .template
  else .ok (.literal raw)

def isTemplate : Value → Bool
  | literal _ => false
  | template _ => true

/-- The value as it was written. -/
def source : Value → Text
  | literal s => s
  | template t => t.source

/-- The text that a value gives for a request. -/
def render (v : Value) (r : Request) (empty : Text) : Text :=
  match v with
  | literal s => s
  | template t => t.render r empty

end Value

end EdgeInclude

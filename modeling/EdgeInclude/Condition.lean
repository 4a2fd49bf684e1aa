import EdgeInclude.Template

/-!
# Conditions

A condition compares two operands with `==` or `!=`, or tests a single one. Operands may be
templates and may stand between quotes.

* `Condition.parse` — the condition that a text writes. The leftmost comparison sign counts.
* `Condition.holds` — whether a request satisfies it.
-/

namespace EdgeInclude

/-- How two operands are compared. -/
inductive Comparison where
  | eq
  | ne
  deriving DecidableEq, Repr

/-- A condition; without a comparison, the operand is tested alone. -/
structure Condition where
  source : Text
  left : Value
  right : Option (Comparison × Value)
  deriving DecidableEq, Repr

namespace Condition

/-! ## 1. Operands -/

/-- The text of an operand without its quotes. -/
def unquoted (raw : Text) : Text :=
  let s := Text.trim raw
  match Text.unquote? '"' s with
  | some t => t
  | none => (Text.unquote? '\'' s).getD s

/-- The value of an operand. -/
def operand (raw : Text) : Except ParseFault Value := Value.compile (unquoted raw)

/-! ## 2. Reading -/

/-- The parts of a text around its leftmost comparison sign. -/
def split? (s : Text) : Option (Text × Comparison × Text) :=
  match splitFirst? "==".toList s, splitFirst? "!=".toList s with
  | some (a, b), some (c, d) => if a.length ≤ c.length then some (a, .eq, b) else some (c, .ne, d)
  | some (a, b), none => some (a, .eq, b)
  | none, some (c, d) => some (c, .ne, d)
  | none, none => none

/-- The condition that a text writes. -/
def parse (source : Text) : Except ParseFault Condition :=
  let s := Text.trim source
  if s.isEmpty then .error .emptyCondition
  else match split? s with
    | some (a, op, b) =>
      match operand a with
      | .error e => .error e
      | .ok left => (operand b).map fun right => ⟨source, left, some (op, right)⟩
    | none => (operand s).map fun left => ⟨source, left, none⟩

/-! ## 3. Testing -/

/-- Whether a single operand counts as true: it is not empty, `0` or `false`. -/
def isTruthy (s : Text) : Bool :=
  let v := Text.trim s
  !(v.isEmpty || v == ['0'] || Text.sameLetters v "false".toList)

/-- Whether a request satisfies a condition. -/
def holds (c : Condition) (r : Request) : Bool :=
  let a := c.left.render r []
  match c.right with
  | some (.eq, v) => a == v.render r []
  | some (.ne, v) => a != v.render r []
  | none => isTruthy a

end Condition

end EdgeInclude

/-!
# Leftmost occurrences

`splitFirst? pat s` cuts a list around the leftmost occurrence of `pat`. Tags,
placeholders, comparison signs and the pieces of a glob are all found this way.

* `splitFirst?_eq_append` — the parts and the pattern make up the list again.
-/

namespace EdgeInclude

variable {α : Type} [BEq α]

/-- The list before and after the leftmost occurrence of `pat`. -/
def splitFirst? (pat : List α) : List α → Option (List α × List α)
  | [] => if pat.isEmpty then some ([], []) else none
  | a :: s =>
    match List.isPrefixOf? pat (a :: s) with
    | some rest => some ([], rest)
    | none => (splitFirst? pat s).map fun (before, rest) => (a :: before, rest)

/-- Whether `pat` occurs in a list. -/
def occursIn (pat s : List α) : Bool := (splitFirst? pat s).isSome

theorem isPrefixOf?_eq_append [LawfulBEq α] {pat s rest : List α}
    (h : List.isPrefixOf? pat s = some rest) : s = pat ++ rest := by
  induction pat generalizing s with
  | nil =>
    rw [List.nil_append]
    exact Option.some.inj h
  | cons p pat ih =>
    cases s with
    | nil => cases h
    | cons a s =>
      change (if p == a then List.isPrefixOf? pat s else none) = some rest at h
      split at h
      · rename_i hpa
        rw [eq_of_beq hpa, ih h, List.cons_append]
      · cases h

theorem splitFirst?_eq_append [LawfulBEq α] {pat s before rest : List α}
    (h : splitFirst? pat s = some (before, rest)) : s = before ++ pat ++ rest := by
  induction s generalizing before with
  | nil =>
    unfold splitFirst? at h
    split at h
    · simp_all
    · simp at h
  | cons a s ih =>
    unfold splitFirst? at h
    split at h
    · rename_i r hr
      obtain ⟨rfl, rfl⟩ := Prod.mk.inj (Option.some.inj h)
      simpa using isPrefixOf?_eq_append hr
    · obtain ⟨⟨b, r⟩, hb, heq⟩ := Option.map_eq_some_iff.1 h
      obtain ⟨rfl, rfl⟩ := Prod.mk.inj heq
      simp [ih hb]

end EdgeInclude

import EdgeInclude.Proofs.Tag.Reading
import Mathlib.Data.List.Induction

/-!
# Tags that are not as they should be

The attributes of a tag take effect one after the other, up to the first one whose value cannot be
read. What has taken effect by then stays on the tag; the fallback text is there before any of it.

* `Include.Takes` — what an attribute leaves of a tag.
* `Include.After`, `Include.exists_after` — what some attributes have made of a tag.
* `Include.Wrong`, `Include.FirstFault` — what may be wrong with a tag, and what is wrong first.
* `Include.read_of_firstFault` — the first fault is kept, with the fallback text and the condition.
* `Include.isSome_fault_iff` — a tag is faulty if and only if something is wrong with it.
-/

namespace EdgeInclude

/-! ## 1. One attribute -/

namespace Attribute

/-- An attribute whose value can be read, or need not be. -/
def IsFine (a : Attribute) : Prop := ∀ f, ¬ a.Breaks f

/-- The condition that an attribute gives. -/
def condition? (a : Attribute) : Option Condition :=
  if a.name = "condition".toList then (Condition.parse a.value).toOption else none

end Attribute

namespace Include

variable {i i' : Include} {a : Attribute} {f : ParseFault} {kind : Text}
  {as done : List Attribute} {raw : RawTag}

/-- What an attribute that takes effect makes of a tag. -/
structure Takes (i : Include) (a : Attribute) (i' : Include) : Prop where
  set : i.set a = .ok i'
  fallback : i'.fallback = i.fallback
  condition : i'.condition = a.condition?.or i.condition
  sources : i'.sources = [] ↔ i.sources = [] ∧ a.name ≠ "src".toList

theorem takes_of_set (h : i.set a = .ok i') : i.Takes a i' := by
  have hsets := sets_of_set h
  refine ⟨h, by cases hsets <;> rfl, ?_, ?_⟩
  · cases hsets with
    | condition name read => simp [Attribute.condition?, name, read, Except.toOption]
    | nothing name => simp_all [Attribute.condition?, Attribute.settings]
    | _ => simp [Attribute.condition?, *]
  · cases hsets with
    | source name => simp [name]
    | nothing name => simp_all [Attribute.settings]
    | _ => simp [*]

theorem exists_takes (h : a.IsFine) (i : Include) : ∃ i', i.Takes a i' := by
  cases hs : i.set a with
  | ok i' => exact ⟨i', takes_of_set hs⟩
  | error f => exact absurd (set_eq_error_iff.1 hs) (h f)

/-! ## 2. Attributes in order -/

/-- The last condition that attributes give. -/
def conditionOf (as : List Attribute) : Option Condition :=
  as.reverse.findSome? Attribute.condition?

theorem conditionOf_concat (as : List Attribute) (a : Attribute) :
    conditionOf (as ++ [a]) = a.condition?.or (conditionOf as) := by
  rw [conditionOf, List.reverse_append, List.reverse_singleton, List.singleton_append,
    List.findSome?_cons]
  cases a.condition? <;> rfl

/-- What attributes that have taken effect have made of a tag. -/
structure After (i : Include) (done : List Attribute) (i' : Include) : Prop where
  setAll : ∀ rest, i.setAll (done ++ rest) = i'.setAll rest
  fallback : i'.fallback = i.fallback
  condition : i'.condition = (conditionOf done).or i.condition
  sources : i'.sources = [] ↔ i.sources = [] ∧ ∀ a ∈ done, a.name ≠ "src".toList

theorem After.concat {i'' : Include} (h : i.After done i') (ht : i'.Takes a i'') :
    i.After (done ++ [a]) i'' where
  setAll rest := by
    rw [List.append_assoc, h.setAll]
    exact setAll_of_ok ht.set rest
  fallback := ht.fallback.trans h.fallback
  condition := by rw [ht.condition, h.condition, conditionOf_concat, Option.or_assoc]
  sources := by
    rw [ht.sources, h.sources]
    simp only [List.forall_mem_append, List.forall_mem_singleton, and_assoc]

/-- **Attributes that can be read take effect, one after the other.** -/
theorem exists_after (hf : ∀ a ∈ done, a.IsFine) (i : Include) : ∃ i', i.After done i' := by
  induction done using List.reverseRecOn with
  | nil => exact ⟨i, fun _ => rfl, rfl, rfl, by simp⟩
  | append_singleton done a ih =>
    obtain ⟨hdone, ha⟩ := List.forall_mem_append.1 hf
    obtain ⟨i', h⟩ := ih hdone
    obtain ⟨i'', ht⟩ := exists_takes (ha a (List.mem_singleton_self a)) i'
    exact ⟨i'', h.concat ht⟩

/-! ## 3. What is wrong with a tag -/

/-- Something is wrong with a tag: its kind, the value of some attribute, or that it names no
source. -/
def Wrong (kind : Text) (as : List Attribute) : Prop :=
  kind ≠ "include".toList ∨ (∃ a ∈ as, ¬ a.IsFine) ∨ ∀ a ∈ as, a.name ≠ "src".toList

/-- What is wrong with a tag first, and the attributes that have taken effect by then. -/
inductive FirstFault (kind : Text) (as : List Attribute) : List Attribute → ParseFault → Prop where
  | kind (other : kind ≠ "include".toList) : FirstFault kind as [] (.unsupportedKind kind)
  | value {done rest : List Attribute} {a : Attribute} {f : ParseFault}
      (known : kind = "include".toList) (split : as = done ++ a :: rest)
      (fine : ∀ b ∈ done, b.IsFine) (breaks : a.Breaks f) : FirstFault kind as done f
  | source (known : kind = "include".toList) (fine : ∀ a ∈ as, a.IsFine)
      (bare : ∀ a ∈ as, a.name ≠ "src".toList) : FirstFault kind as as .noSource

open Classical in
/-- Where something is wrong, something is wrong first. -/
theorem exists_firstFault (h : Wrong kind as) : ∃ done f, FirstFault kind as done f := by
  by_cases hkind : kind = "include".toList
  · cases hfind : as.find? (¬ ·.IsFine) with
    | some a =>
      obtain ⟨ha, done, rest, hsplit, hfine⟩ := List.find?_eq_some_iff_append.1 hfind
      obtain ⟨f, hf⟩ := Classical.not_forall_not.1 (of_decide_eq_true ha)
      exact ⟨done, f, .value hkind hsplit (by simpa using hfine) hf⟩
    | none =>
      have hfine : ∀ a ∈ as, a.IsFine := by simpa using hfind
      refine ⟨as, _, .source hkind hfine ?_⟩
      rcases h with hk | ⟨a, ha, hbreaks⟩ | hbare
      · exact absurd hkind hk
      · exact absurd (hfine a ha) hbreaks
      · exact hbare
  · exact ⟨[], _, .kind hkind⟩

/-! ## 4. Reading -/

/-- The text of a tag, cut into its kind and its attributes. -/
def Tells (raw : RawTag) (kind : Text) (as : List Attribute) : Prop :=
  ∃ s rest, Utf8.decode raw.interior = .ok s ∧ splitKind s = (kind, rest) ∧
    Attribute.readAll rest = .ok as

/-- A tag that has not been read yet, but for its fallback text. -/
def withText (raw : RawTag) (as : List Attribute) : Include :=
  { ofRaw raw with fallback := fallbackOf as }

theorem withFallback_ofRaw (raw : RawTag) (as : List Attribute) :
    (ofRaw raw).withFallback as = withText raw as := by
  unfold withFallback withText
  cases fallbackOf as <;> rfl

theorem readFields_of_tells (h : Tells raw kind as) : (ofRaw raw).readFields =
    if kind ≠ "include".toList then (withText raw as, some (.unsupportedKind kind))
    else (withText raw as).setAll as := by
  obtain ⟨s, rest, hs, hsplit, has⟩ := h
  have hi : (ofRaw raw).raw.interior = raw.interior := rfl
  unfold readFields
  rw [hi, hs]
  dsimp only
  rw [hsplit]
  dsimp only
  rw [has]
  simp only [withFallback_ofRaw, bne_iff_ne]

theorem read_of_readFields (h : i.readFields = (i', some f)) :
    i.read = ({ i' with fault := some f }, some f) := by
  unfold read
  rw [h]

/-- **The fault that comes first is the fault of the tag**, and is kept with the text of the first
`onerror` attribute and with the last condition in front of it. -/
theorem read_of_firstFault (h : Tells raw kind as) (hf : FirstFault kind as done f) :
    (ofRaw raw).read.2 = some f ∧ (ofRaw raw).read.1.fault = some f ∧
      (ofRaw raw).read.1.fallback = fallbackOf as ∧
      (ofRaw raw).read.1.condition = conditionOf done := by
  have hfields := readFields_of_tells h
  -- with the attributes in front of the fault, the tag has this condition and its fallback text
  suffices hstate : ∃ i', (ofRaw raw).readFields = (i', some f) ∧ i'.fallback = fallbackOf as ∧
      i'.condition = conditionOf done by
    obtain ⟨i', hread, hfallback, hcondition⟩ := hstate
    rw [read_of_readFields hread]
    exact ⟨rfl, rfl, hfallback, hcondition⟩
  cases hf with
  | kind other => exact ⟨_, hfields.trans (if_pos other), rfl, rfl⟩
  | @value _ rest a _ known split fine breaks =>
    obtain ⟨i', hafter⟩ := exists_after fine (withText raw as)
    refine ⟨i', ?_, hafter.fallback, hafter.condition.trans (Option.or_none ..)⟩
    rw [hfields, if_neg (not_not_intro known), ← setAll_of_error (set_eq_error_iff.2 breaks) rest,
      ← hafter.setAll, ← split]
  | source known fine bare =>
    obtain ⟨i', hafter⟩ := exists_after fine (withText raw as)
    refine ⟨i', ?_, hafter.fallback, hafter.condition.trans (Option.or_none ..)⟩
    have hall := hafter.setAll []
    have hnone : i'.sources = [] := hafter.sources.2 ⟨rfl, bare⟩
    rw [List.append_nil, setAll, hnone] at hall
    exact hfields.trans ((if_neg (not_not_intro known)).trans hall)

/-- **A tag is faulty if and only if something is wrong with it.** -/
theorem isSome_fault_iff (h : Tells raw kind as) :
    (ofRaw raw).read.2.isSome = true ↔ Wrong kind as := by
  constructor
  · intro hsome
    by_contra hright
    obtain ⟨hkind, hfine, hsource⟩ : kind = "include".toList ∧ (∀ a ∈ as, a.IsFine) ∧
        ∃ a ∈ as, a.name = "src".toList := by simpa [Wrong] using hright
    obtain ⟨i', hafter⟩ := exists_after hfine (withText raw as)
    have hnone : (ofRaw raw).readFields = (i', none) := by
      have hall := hafter.setAll []
      have hsources : i'.sources ≠ [] := fun he =>
        hsource.elim fun a ha => (hafter.sources.1 he).2 a ha.1 ha.2
      rw [List.append_nil, setAll, List.isEmpty_eq_false_iff.2 hsources] at hall
      exact (readFields_of_tells h).trans ((if_neg (not_not_intro hkind)).trans hall)
    rw [read, hnone] at hsome
    cases hsome
  · intro hwrong
    obtain ⟨done, f, hf⟩ := exists_firstFault hwrong
    rw [(read_of_firstFault h hf).1]
    rfl

end Include

end EdgeInclude

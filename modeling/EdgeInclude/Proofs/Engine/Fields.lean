import EdgeInclude.Plan
import EdgeInclude.Proofs.Text.Trim
import Mathlib.Tactic.IntervalCases

/-!
# The header fields of a page with replacements

The origin says how long its page is; with replacements the page has another length, and its
fragments bring fields of their own. What goes out declares one length.

* `Decimal.readNat?_toDigits`, `declaredLength?_of_getAll` — a length that is written is read back.
* `Headers.insert_of_getAll`, `Headers.getAll_appendAll` — writing what is there already, and adding
  fields of other names.
* `headersWith_of_some`, `headersWith_of_none` — the fields of the origin, a declared length
  adjusted, and the fields of fragments behind.
* `getAll_length_of_headersWith`, `getAll_length_of_none` — the length that goes out.
* `headersWith_empty` — a page without replacements keeps its header fields.
-/

namespace EdgeInclude

/-! ## 1. Digits -/

theorem exists_digitChar {c : Char} (hc : c.isDigit = true) : ∃ d < 10, Nat.digitChar d = c := by
  unfold Char.isDigit at hc
  simp only [ge_iff_le, Bool.and_eq_true, decide_eq_true_eq] at hc
  have hlo : 48 ≤ c.toNat := UInt32.le_iff_toNat_le.1 hc.1
  have hhi : c.toNat ≤ 57 := UInt32.le_iff_toNat_le.1 hc.2
  refine ⟨c.toNat - 48, by omega, ?_⟩
  conv => rhs; rw [← Char.ofNat_toNat c]
  generalize c.toNat = n at hlo hhi
  interval_cases n <;> rfl

theorem encode_of_isDigit {c : Char} (hc : c.isDigit = true) :
    String.utf8EncodeChar c = [UInt8.ofNat c.toNat] ∧ Headers.isPlain (UInt8.ofNat c.toNat) = true ∧
      Char.ofNat (UInt8.ofNat c.toNat).toNat = c ∧ Text.isBlank c = false := by
  obtain ⟨d, hd, rfl⟩ := exists_digitChar hc
  clear hc
  revert d
  decide

/-- Digits go through header values as they are. -/
theorem plain?_utf8 {ds : Text} (h : ∀ c ∈ ds, c.isDigit = true) :
    Headers.plain? (Text.utf8 ds) = some ds := by
  have hall : (Text.utf8 ds).all Headers.isPlain = true ∧
      (Text.utf8 ds).map (fun b => Char.ofNat b.toNat) = ds := by
    induction ds with
    | nil => exact ⟨rfl, rfl⟩
    | cons c rest ih =>
      obtain ⟨he, hp, hc, -⟩ := encode_of_isDigit (h c List.mem_cons_self)
      obtain ⟨hall, hmap⟩ := ih fun d hd => h d (List.mem_cons_of_mem _ hd)
      have hutf8 : Text.utf8 (c :: rest) = UInt8.ofNat c.toNat :: Text.utf8 rest := by
        unfold Text.utf8
        rw [List.flatMap_cons, he]
        rfl
      rw [hutf8, List.all_cons, List.map_cons, hp, hall, hmap, hc]
      exact ⟨rfl, rfl⟩
  unfold Headers.plain?
  rw [if_pos hall.1, hall.2]

/-- Digits have no blanks around them. -/
theorem trim_of_isDigit {ds : Text} (h : ∀ c ∈ ds, c.isDigit = true) : Text.trim ds = ds := by
  have hplain : ∀ c ∈ ds, Text.isBlank c = false := fun c hc => (encode_of_isDigit (h c hc)).2.2.2
  refine Text.trim_eq_self ⟨?_, ?_⟩
  · cases hd : ds.head? with
    | none => rfl
    | some c => exact hplain c (List.mem_of_head? hd)
  · cases hl : ds.getLast? with
    | none => rfl
    | some c => exact hplain c (List.mem_of_getLast? hl)

theorem Decimal.ofDigits_eq (ds : Text) : ofDigits ds = Nat.ofDigitChars 10 ds 0 := by
  unfold ofDigits
  rw [Nat.ofDigitChars_eq_foldl]
  congr 1
  funext n d
  rw [Nat.mul_comm]

/-- **A number that is written is read back.** -/
theorem Decimal.readNat?_toDigits {bound n : Nat} (h : n ≤ bound) :
    readNat? bound (Nat.toDigits 10 n) = some n := by
  have hdig : ∀ c ∈ Nat.toDigits 10 n, c.isDigit = true := fun c hc =>
    Nat.isDigit_of_mem_toDigits (by decide) (by decide) hc
  have hval : ofDigits (Nat.toDigits 10 n) = n := by
    rw [ofDigits_eq]
    exact Nat.ofDigitChars_toDigits (by decide) (by decide)
  unfold readNat?
  split
  · rename_i ds hs
    have hplus := hdig '+' (by rw [hs]; exact List.mem_cons_self)
    cases hplus
  · have hne : (Nat.toDigits 10 n).isEmpty = false := by
      rw [List.isEmpty_eq_false_iff]
      exact Nat.toDigits_ne_nil
    dsimp only
    rw [hne, List.all_eq_true.2 hdig, hval, if_pos h]
    rfl

/-! ## 2. Header fields -/

/-- The name of the field that declares a length. -/
def lengthField : Text := "content-length".toList

namespace Headers

theorem replaceIn_of_valuesOf {name : Text} {v : Bytes} {gs : List (Text × List Bytes)}
    (h : valuesOf name gs = [v]) : replaceIn name v gs = gs := by
  induction gs with
  | nil => cases h
  | cons g gs ih =>
    obtain ⟨n, vs⟩ := g
    unfold valuesOf at h
    unfold replaceIn
    split at h
    · rename_i hn
      rw [if_pos hn, h]
    · rename_i hn
      rw [if_neg hn, ih h]

/-- Writing the only value of a name again changes nothing. -/
theorem insert_of_getAll {h : Headers} {name : Text} {v : Bytes} (hv : h.getAll name = [v]) :
    h.insert name v = h := congrArg Headers.mk (replaceIn_of_valuesOf hv)

theorem mem_names_of_mem_toList {h : Headers} {name : Text} {v : Bytes}
    (hm : (name, v) ∈ h.toList) : ∃ vs, (name, vs) ∈ h.groups := by
  obtain ⟨⟨n, vs⟩, hg, hv⟩ := List.mem_flatMap.1 hm
  obtain ⟨_, _, he⟩ := List.mem_map.1 hv
  cases he
  exact ⟨vs, hg⟩

/-- Adding fields leaves the values of every name that is not among theirs. -/
theorem getAll_appendAll {h more : Headers} {name : Text}
    (hn : ∀ f ∈ more.toList, Text.lower f.1 ≠ Text.lower name) :
    (h.appendAll more).getAll name = h.getAll name := by
  unfold appendAll
  generalize more.toList = fields at hn
  induction fields generalizing h with
  | nil => rfl
  | cons f rest ih =>
    obtain ⟨n, v⟩ := f
    rw [List.foldl_cons, ih fun f hf => hn f (List.mem_cons_of_mem _ hf), getAll_append,
      if_neg]
    rw [beq_iff_eq]
    exact hn _ List.mem_cons_self

end Headers

/-- No field that a fragment may return declares a length. -/
theorem lower_ne_of_isReturnable {name : Text} (h : isReturnable name = true) :
    Text.lower name ≠ Text.lower lengthField := by
  intro he
  have hs : Text.sameLetters lengthField name = true := by
    unfold Text.sameLetters
    rw [he, beq_self_eq_true]
  have hany : framingFields.any (Text.sameLetters · name) = true :=
    List.any_eq_true.2 ⟨lengthField, List.mem_cons_self, hs⟩
  unfold isReturnable at h
  rw [hany] at h
  cases h

theorem getAll_length_appendAll (h returned : Headers) :
    (h.appendAll (returned.filterNames isReturnable)).getAll lengthField =
      h.getAll lengthField := by
  refine Headers.getAll_appendAll fun f hf => ?_
  obtain ⟨vs, hvs⟩ := Headers.mem_names_of_mem_toList hf
  exact lower_ne_of_isReturnable (List.mem_filter.1 hvs).2

/-! ## 3. Lengths -/

theorem declaredLength?_of_nil {h : Headers} (hn : h.getAll lengthField = []) :
    declaredLength? h = none := by
  unfold declaredLength? Headers.text? Headers.get?
  rw [show h.getAll "content-length".toList = [] from hn]
  rfl

/-- **A length that is declared is read back.** -/
theorem declaredLength?_of_getAll {h : Headers} {n : UInt64}
    (hn : h.getAll lengthField = [lengthValue n]) : declaredLength? h = some n := by
  have hdig : ∀ c ∈ Nat.toDigits 10 n.toNat, c.isDigit = true := fun c hc =>
    Nat.isDigit_of_mem_toDigits (by decide) (by decide) hc
  have hbound : n.toNat ≤ Decimal.maxWord := by
    have := n.toNat_lt
    unfold Decimal.maxWord
    omega
  unfold declaredLength? Headers.text? Headers.get?
  rw [show h.getAll "content-length".toList = [lengthValue n] from hn, List.head?_cons,
    Option.bind_some, lengthValue, plain?_utf8 hdig, Option.bind_some, trim_of_isDigit hdig,
    Decimal.readNat?_toDigits hbound, Option.map_some, UInt64.ofNat_toNat]

variable {origin returned fields : Headers} {tags : Replacements} {n : UInt64}

/-- The header fields of a page whose origin declares a length. -/
theorem headersWith_of_some (hd : declaredLength? origin = some n) :
    headersWith origin tags returned = (tags.adjust n).map fun m =>
      (origin.insert lengthField (lengthValue m)).appendAll
        (returned.filterNames isReturnable) := by
  unfold headersWith
  rw [hd]
  dsimp only
  cases tags.adjust n <;> rfl

theorem headersWith_of_none (hd : declaredLength? origin = none) :
    headersWith origin tags returned =
      .ok (origin.appendAll (returned.filterNames isReturnable)) := by
  unfold headersWith
  rw [hd]
  rfl

/-- **The length that goes out is the adjusted one**, and it is the only one. -/
theorem getAll_length_of_headersWith (hd : declaredLength? origin = some n)
    (h : headersWith origin tags returned = .ok fields) :
    ∃ m, tags.adjust n = .ok m ∧ fields.getAll lengthField = [lengthValue m] := by
  rw [headersWith_of_some hd] at h
  cases ha : tags.adjust n with
  | error e =>
    rw [ha] at h
    cases h
  | ok m =>
    rw [ha] at h
    cases h
    refine ⟨m, rfl, ?_⟩
    rw [getAll_length_appendAll, Headers.getAll_insert, if_pos (beq_self_eq_true _)]

/-- Without a length of the origin no length goes out. -/
theorem getAll_length_of_none (hn : origin.getAll lengthField = [])
    (h : headersWith origin tags returned = .ok fields) : fields.getAll lengthField = [] := by
  rw [headersWith_of_none (declaredLength?_of_nil hn)] at h
  cases h
  rw [getAll_length_appendAll, hn]

/-! ## 4. Pages without replacements -/

/-- At most one length, in its plain form, that a word with a sign can hold. -/
inductive DeclaresPlainly (origin : Headers) : Prop where
  | nothing (none : origin.getAll lengthField = [])
  | length (n : UInt64) (one : origin.getAll lengthField = [lengthValue n])
      (small : n.toNat < 2 ^ 63)

theorem adjust_empty (h : n.toNat < 2 ^ 63) : Replacements.empty.adjust n = .ok n := by
  have hpos : ¬ n.toInt64 < 0 := by
    rw [← UInt64.ofNat_toNat (x := n), UInt64.toInt64_ofNat', Int64.lt_iff_toInt_lt,
      Int64.toInt_ofNat_of_lt h]
    show ¬ (n.toNat : Int) < 0
    omega
  have hz : n.toInt64 + Replacements.empty.delta = n.toInt64 := Int64.add_zero _
  show Replacements.adjust.settle Replacements.empty n = .ok n
  unfold Replacements.adjust.settle
  rw [hz]
  dsimp only
  rw [if_neg hpos, UInt64.toUInt64_toInt64]

/-- **A page without replacements keeps its header fields.** -/
theorem headersWith_empty (h : DeclaresPlainly origin) :
    headersWith origin .empty .empty = .ok origin := by
  cases h with
  | nothing hn => exact headersWith_of_none (declaredLength?_of_nil hn)
  | length n one small =>
    rw [headersWith_of_some (declaredLength?_of_getAll one), adjust_empty small]
    exact congrArg Except.ok (Headers.insert_of_getAll one)

end EdgeInclude

import EdgeInclude.Duration
import EdgeInclude.Proofs.Tag.Faults
import EdgeInclude.Proofs.Text.Trim

/-!
# What durations are written as

A duration is written as numbers with units, nothing between them. The reader cuts a text into the
longest runs of characters that are numeric and that are not, before it knows any unit; so it must
be shown that these runs are the numbers and the units.

* `Duration.IsNumber`, `Duration.Part`, `Duration.written` — how durations are written.
* `Decimal.readPoint?_eq_some_iff` — what is read as a number.
* `Duration.runs_written` — the runs of what is written are its numbers and units.
* `Duration.segments?_eq_some_iff` — what is written has segments, and nothing else has.
* `Duration.read_law` — which texts are durations, and what becomes of a tag with another one.
-/

namespace EdgeInclude

namespace Duration

variable {c : Char} {n u s xs ys : Text} {p : Bool}

/-! ## 1. The grammar -/

/-- The units. -/
def units : List Text := ["ns", "us", "µs", "ms", "s", "m", "h"].map String.toList

/-- A number: digits, one at least, with at most one point among them. -/
structure IsNumber (n : Text) : Prop where
  numeric : ∀ c ∈ n, isNumeric c = true
  point : n.count '.' ≤ 1
  digit : ∃ c ∈ n, c.isDigit = true

-- the characters are asked in order, since deciding for all characters would ask every one there is
instance (n : Text) : Decidable (IsNumber n) :=
  decidable_of_iff (n.all isNumeric = true ∧ n.count '.' ≤ 1 ∧ n.any Char.isDigit = true)
    ⟨fun h => ⟨List.all_eq_true.1 h.1, h.2.1, List.any_eq_true.1 h.2.2⟩,
      fun h => ⟨List.all_eq_true.2 h.numeric, h.point, List.any_eq_true.2 h.digit⟩⟩

/-- A number and its unit, as they are written. -/
structure Part where
  number : Text
  unit : Text
  isNumber : IsNumber number
  unit_mem : unit ∈ units

/-- The number with its unit right behind it. -/
def Part.text (w : Part) : Text := w.number ++ w.unit

/-- Parts, one right behind the other. -/
def written (ws : List Part) : Text := ws.flatMap Part.text

/-- What a part means: its digits as a number, how many of them stand behind the point, and the
nanoseconds in its unit. -/
structure Part.Denotes (w : Part) (g : Segment) : Prop where
  digits : g.digits = Decimal.ofDigits (w.number.filter Char.isDigit)
  places : g.places = (w.number.dropWhile (· != '.')).length - 1
  unit : unit? w.unit = some g.unit

/-- The letters of the units. -/
def letters : Text := "nuµmsh".toList

/-! ## 2. Numbers and units -/

theorem isNumeric_eq_true_iff : isNumeric c = true ↔ c.isDigit = true ∨ c = '.' := by
  unfold isNumeric
  rw [Bool.or_eq_true, beq_iff_eq]

theorem isNumeric_of_isDigit (h : c.isDigit = true) : isNumeric c = true :=
  isNumeric_eq_true_iff.2 (.inl h)

theorem mem_units_iff : u ∈ units ↔ ∃ f, unit? u = some f := by
  constructor
  · have hall : ∀ u ∈ units, u = "ns".toList ∨ u = "us".toList ∨ u = "µs".toList ∨
        u = "ms".toList ∨ u = "s".toList ∨ u = "m".toList ∨ u = "h".toList := by decide
    intro h
    rcases hall u h with rfl | rfl | rfl | rfl | rfl | rfl | rfl <;> exact ⟨_, rfl⟩
  · rintro ⟨f, hf⟩
    by_contra hnone
    simp_all [unit?, units]

/-- A unit has a character, and none that a number has. -/
theorem not_numeric_of_mem_units : ∀ u ∈ units, u ≠ [] ∧ ∀ c ∈ u, isNumeric c = false := by
  have hall : ∀ u ∈ units, u ≠ [] ∧ u.all (!isNumeric ·) = true := by decide
  intro u hu
  obtain ⟨hne, hnone⟩ := hall u hu
  exact ⟨hne, fun c hc => by simpa using List.all_eq_true.1 hnone c hc⟩

theorem mem_letters_of_mem_units : ∀ u ∈ units, ∀ c ∈ u, c ∈ letters := by
  have hall : ∀ u ∈ units, u.all (letters.contains ·) = true := by decide
  exact fun u hu c hc => List.contains_iff_mem.1 (List.all_eq_true.1 (hall u hu) c hc)

theorem IsNumber.ne_nil (h : IsNumber n) : n ≠ [] := by
  obtain ⟨c, hc, -⟩ := h.digit
  exact List.ne_nil_of_mem hc

/-- A number has digits only, or a point among digits. -/
theorem isNumber_iff : IsNumber n ↔
    (n ≠ [] ∧ ∀ c ∈ n, c.isDigit = true) ∨
      ∃ whole part, n = whole ++ '.' :: part ∧ (∀ c ∈ whole ++ part, c.isDigit = true) ∧
        whole ++ part ≠ [] := by
  constructor
  · intro h
    have hcut : n.takeWhile Char.isDigit ++ n.dropWhile Char.isDigit = n :=
      List.takeWhile_append_dropWhile
    have hwhole : ∀ c ∈ n.takeWhile Char.isDigit, c.isDigit = true :=
      fun c hc => List.mem_takeWhile_imp hc
    cases hrest : n.dropWhile Char.isDigit with
    | nil =>
      rw [hrest, List.append_nil] at hcut
      exact .inl ⟨h.ne_nil, fun c hc => hwhole c (by rwa [hcut])⟩
    | cons c part =>
      rw [hrest] at hcut
      have hnot : c.isDigit = false := by
        have := List.head?_dropWhile_not Char.isDigit n
        rw [hrest] at this
        exact this
      -- what ends the digits is the point, and there is no other one
      obtain rfl : c = '.' := by
        have hc : c ∈ n := hcut ▸ List.mem_append_right _ List.mem_cons_self
        rcases isNumeric_eq_true_iff.1 (h.numeric c hc) with hd | hd
        · rw [hd] at hnot
          cases hnot
        · exact hd
      have hpart : '.' ∉ part := by
        have hcount := h.point
        rw [← hcut, List.count_append, List.count_cons_self] at hcount
        exact List.count_eq_zero.1 (by omega)
      refine .inr ⟨_, part, hcut.symm, fun c hc => ?_, fun hnone => ?_⟩
      · rcases List.mem_append.1 hc with hc | hc
        · exact hwhole c hc
        · have hin : c ∈ n := hcut ▸ List.mem_append_right _ (List.mem_cons_of_mem _ hc)
          exact (isNumeric_eq_true_iff.1 (h.numeric c hin)).resolve_right
            fun he => hpart (he ▸ hc)
      · obtain ⟨hw, hp⟩ := List.append_eq_nil_iff.1 hnone
        obtain ⟨c, hc, hd⟩ := h.digit
        rw [← hcut, hw, hp, List.nil_append, List.mem_singleton] at hc
        subst hc
        cases hd
  · rintro (⟨hne, hall⟩ | ⟨whole, part, rfl, hall, hne⟩)
    · obtain ⟨c, hc⟩ := List.exists_mem_of_ne_nil n hne
      refine ⟨fun c hc => isNumeric_of_isDigit (hall c hc), ?_, c, hc, hall c hc⟩
      rw [List.count_eq_zero.2 fun hp => absurd (hall _ hp) (by decide)]
      exact Nat.zero_le 1
    · obtain ⟨hw, hp⟩ := List.forall_mem_append.1 hall
      obtain ⟨c, hc⟩ := List.exists_mem_of_ne_nil _ hne
      refine ⟨?_, ?_, c, ?_, hall c hc⟩
      · intro c hc
        rcases List.mem_append.1 hc with hc | hc
        · exact isNumeric_of_isDigit (hw c hc)
        · rcases List.mem_cons.1 hc with rfl | hc
          · rfl
          · exact isNumeric_of_isDigit (hp c hc)
      · rw [List.count_append, List.count_cons_self,
          List.count_eq_zero.2 fun h => absurd (hw _ h) (by decide),
          List.count_eq_zero.2 fun h => absurd (hp _ h) (by decide)]
      · rcases List.mem_append.1 hc with hc | hc
        · exact List.mem_append_left _ hc
        · exact List.mem_append_right _ (List.mem_cons_of_mem _ hc)

end Duration

namespace Decimal

open Duration

variable {n whole part : Text} {d k : Nat}

theorem readPoint?_digits (hne : n ≠ []) (h : ∀ c ∈ n, c.isDigit = true) :
    readPoint? n = some (ofDigits n, 0) := by
  have htake : n.takeWhile Char.isDigit = n := List.takeWhile_eq_self_iff.2 h
  have hdrop : n.dropWhile Char.isDigit = [] := List.dropWhile_eq_nil_iff.2 h
  unfold readPoint?
  rw [hdrop, htake]
  dsimp only
  rw [if_neg (by simpa using hne)]

theorem not_isEmpty_iff : (!(whole.isEmpty && part.isEmpty)) = true ↔ whole ++ part ≠ [] := by
  rw [Bool.not_eq_true', Bool.and_eq_false_iff, List.isEmpty_eq_false_iff,
    List.isEmpty_eq_false_iff]
  exact not_and_or.symm.trans (not_congr List.append_eq_nil_iff.symm)

theorem readPoint?_point (h : ∀ c ∈ whole ++ part, c.isDigit = true) (hne : whole ++ part ≠ []) :
    readPoint? (whole ++ '.' :: part) = some (ofDigits (whole ++ part), part.length) := by
  obtain ⟨hw, hp⟩ := List.forall_mem_append.1 h
  have htake : (whole ++ '.' :: part).takeWhile Char.isDigit = whole := by
    rw [List.takeWhile_append_of_pos hw, List.takeWhile_cons_of_neg (by decide), List.append_nil]
  have hdrop : (whole ++ '.' :: part).dropWhile Char.isDigit = '.' :: part := by
    rw [List.dropWhile_append_of_pos hw, List.dropWhile_cons_of_neg (by decide)]
  unfold readPoint?
  rw [hdrop, htake]
  refine if_pos ?_
  rw [List.all_eq_true.2 hp, Bool.true_and]
  exact not_isEmpty_iff.2 hne

theorem isNumber_of_readPoint? (h : readPoint? n = some (d, k)) : IsNumber n := by
  have hcut : n.takeWhile Char.isDigit ++ n.dropWhile Char.isDigit = n :=
    List.takeWhile_append_dropWhile
  have hwhole : ∀ c ∈ n.takeWhile Char.isDigit, c.isDigit = true :=
    fun c hc => List.mem_takeWhile_imp hc
  rw [isNumber_iff]
  unfold readPoint? at h
  dsimp only at h
  split at h
  · rename_i hrest
    rw [hrest, List.append_nil] at hcut
    rw [hcut] at h hwhole
    split at h
    · cases h
    · rename_i hne
      exact .inl ⟨fun hn => hne (List.isEmpty_iff.2 hn), hwhole⟩
  · rename_i part hrest
    rw [hrest] at hcut
    split at h
    · rename_i hcond
      rw [Bool.and_eq_true, List.all_eq_true, not_isEmpty_iff] at hcond
      exact .inr ⟨_, part, hcut.symm, List.forall_mem_append.2 ⟨hwhole, hcond.1⟩, hcond.2⟩
    · cases h
  · cases h

/-- **What is read as a number**: numbers are, as their digits and how many of them stand behind the
point, and nothing else is. -/
theorem readPoint?_eq_some_iff : readPoint? n = some (d, k) ↔
    IsNumber n ∧ d = ofDigits (n.filter Char.isDigit) ∧
      k = (n.dropWhile (· != '.')).length - 1 := by
  have hread : IsNumber n → readPoint? n =
      some (ofDigits (n.filter Char.isDigit), (n.dropWhile (· != '.')).length - 1) := by
    intro h
    rcases isNumber_iff.1 h with ⟨hne, hall⟩ | ⟨whole, part, rfl, hall, hne⟩
    · have hpoint : n.dropWhile (· != '.') = [] := by
        rw [List.dropWhile_eq_nil_iff]
        intro c hc
        rw [bne_iff_ne]
        rintro rfl
        exact absurd (hall _ hc) (by decide)
      rw [readPoint?_digits hne hall, hpoint, List.filter_eq_self.2 hall]
      rfl
    · obtain ⟨hw, hp⟩ := List.forall_mem_append.1 hall
      have hpoint : (whole ++ '.' :: part).dropWhile (· != '.') = '.' :: part := by
        rw [List.dropWhile_append_of_pos, List.dropWhile_cons_of_neg (by decide)]
        intro c hc
        rw [bne_iff_ne]
        rintro rfl
        exact absurd (hw _ hc) (by decide)
      rw [readPoint?_point hall hne, hpoint, List.filter_append,
        List.filter_cons_of_neg (by decide), List.filter_eq_self.2 hw, List.filter_eq_self.2 hp]
      rfl
  constructor
  · intro h
    have hn := isNumber_of_readPoint? h
    obtain ⟨hd, hk⟩ := Prod.mk.inj (Option.some.inj (h.symm.trans (hread hn)))
    exact ⟨hn, hd, hk⟩
  · rintro ⟨hn, rfl, rfl⟩
    exact hread hn

end Decimal

namespace Duration

variable {c : Char} {p : Bool} {s u n xs ys : Text} {ws : List Part} {ss : List Segment}
  {rs : List Text} {g : Segment}

/-! ## 3. Runs -/

/-- Nothing is lost between runs. -/
theorem flatten_runs (s : Text) : (runs s).flatten = s := by
  induction s with
  | nil => rfl
  | cons c s ih =>
    unfold runs
    split
    · rename_i d r rs hrs
      rw [hrs] at ih
      split <;> rw [← ih] <;> rfl
    · rename_i rs hrs
      rw [List.flatten_cons, ih, List.singleton_append]

/-- The first run begins with the first character. -/
theorem exists_runs_cons (c : Char) (s : Text) : ∃ r rs, runs (c :: s) = (c :: r) :: rs := by
  unfold runs
  split
  · split
    · exact ⟨_, _, rfl⟩
    · exact ⟨_, _, rfl⟩
  · exact ⟨_, _, rfl⟩

/-- A run ends where characters of the other kind begin. -/
theorem runs_append (hne : xs ≠ []) (hall : ∀ c ∈ xs, isNumeric c = p)
    (hend : ∀ c, ys.head? = some c → isNumeric c ≠ p) : runs (xs ++ ys) = xs :: runs ys := by
  induction xs with
  | nil => exact absurd rfl hne
  | cons c xs ih =>
    obtain ⟨hc, hall⟩ := List.forall_mem_cons.1 hall
    cases xs with
    | nil =>
      cases ys with
      | nil => rfl
      | cons d ys =>
        obtain ⟨r, rs, hrs⟩ := exists_runs_cons d ys
        have hd : ¬ (isNumeric c == isNumeric d) = true := fun he =>
          hend d rfl ((eq_of_beq he).symm.trans hc)
        show runs (c :: d :: ys) = _
        rw [runs, hrs]
        dsimp only
        rw [if_neg hd]
    | cons d xs =>
      have ih := ih (List.cons_ne_nil d xs) hall
      have hd : isNumeric d = p := hall d List.mem_cons_self
      show runs (c :: (d :: xs ++ ys)) = _
      rw [runs, ih]
      dsimp only
      rw [hc, hd, if_pos (beq_self_eq_true p)]

theorem Part.number_ne_nil (w : Part) : w.number ≠ [] := w.isNumber.ne_nil

theorem Part.unit_ne_nil (w : Part) : w.unit ≠ [] := (not_numeric_of_mem_units _ w.unit_mem).1

theorem Part.unit_not_numeric (w : Part) : ∀ c ∈ w.unit, isNumeric c = false :=
  (not_numeric_of_mem_units _ w.unit_mem).2

theorem written_cons (w : Part) (ws : List Part) :
    written (w :: ws) = w.number ++ (w.unit ++ written ws) := by
  show w.number ++ w.unit ++ written ws = _
  rw [List.append_assoc]

theorem mem_of_head?_append (hne : xs ≠ []) (h : (xs ++ ys).head? = some c) : c ∈ xs := by
  obtain ⟨d, xs, rfl⟩ := List.exists_cons_of_ne_nil hne
  cases h
  exact List.mem_cons_self

/-- What is written is empty or begins with a number. -/
theorem isNumeric_of_head?_written (h : (written ws).head? = some c) : isNumeric c = true := by
  cases ws with
  | nil => cases h
  | cons w ws =>
    rw [written_cons] at h
    exact w.isNumber.numeric c (mem_of_head?_append w.number_ne_nil h)

/-- **The runs of what is written are its numbers and units.** -/
theorem runs_written (ws : List Part) :
    runs (written ws) = ws.flatMap fun w => [w.number, w.unit] := by
  induction ws with
  | nil => rfl
  | cons w ws ih =>
    have hunit : runs (w.unit ++ written ws) = w.unit :: runs (written ws) := by
      refine runs_append w.unit_ne_nil w.unit_not_numeric fun c hc => ?_
      rw [isNumeric_of_head?_written hc]
      decide
    have hnumber : runs (w.number ++ (w.unit ++ written ws)) =
        w.number :: runs (w.unit ++ written ws) := by
      refine runs_append w.number_ne_nil w.isNumber.numeric fun c hc => ?_
      rw [w.unit_not_numeric c (mem_of_head?_append w.unit_ne_nil hc)]
      decide
    rw [written_cons, hnumber, hunit, ih]
    rfl

/-! ## 4. Segments -/

/-- Two runs make a segment if and only if they are a part, and the one that it denotes. -/
theorem segment?_eq_some_iff : segment? n u = some g ↔
    ∃ w : Part, w.number = n ∧ w.unit = u ∧ w.Denotes g := by
  constructor
  · intro h
    unfold segment? at h
    obtain ⟨⟨d, k⟩, hnumber, h⟩ := Option.bind_eq_some_iff.1 h
    obtain ⟨f, hunit, h⟩ := Option.bind_eq_some_iff.1 h
    cases h
    obtain ⟨hn, hd, hk⟩ := Decimal.readPoint?_eq_some_iff.1 hnumber
    exact ⟨⟨n, u, hn, mem_units_iff.2 ⟨f, hunit⟩⟩, rfl, rfl, hd, hk, hunit⟩
  · rintro ⟨w, rfl, rfl, hdigits, hplaces, hunit⟩
    unfold segment?
    rw [Decimal.readPoint?_eq_some_iff.2 ⟨w.isNumber, rfl, rfl⟩, hunit, ← hdigits, ← hplaces]
    rfl

theorem exists_denotes (w : Part) : ∃ g, w.Denotes g := by
  obtain ⟨f, hf⟩ := mem_units_iff.1 w.unit_mem
  exact ⟨⟨_, _, f⟩, rfl, rfl, hf⟩

theorem pairRuns?_cons_cons (n u : Text) (rs : List Text) : pairRuns? (n :: u :: rs) =
    (segment? n u).bind fun g => (pairRuns? rs).bind fun gs => some (g :: gs) := rfl

theorem pairRuns?_eq_some_iff : pairRuns? rs = some ss ↔
    ∃ ws : List Part, rs = ws.flatMap (fun w => [w.number, w.unit]) ∧
      List.Forall₂ Part.Denotes ws ss := by
  constructor
  · intro h
    induction rs using pairRuns?.induct generalizing ss with
    | case1 =>
      cases h
      exact ⟨[], rfl, .nil⟩
    | case2 n u rest ih =>
      rw [pairRuns?_cons_cons] at h
      obtain ⟨g, hg, h⟩ := Option.bind_eq_some_iff.1 h
      obtain ⟨gs, hgs, h⟩ := Option.bind_eq_some_iff.1 h
      cases h
      obtain ⟨w, rfl, rfl, hw⟩ := segment?_eq_some_iff.1 hg
      obtain ⟨ws, rfl, hws⟩ := ih hgs
      exact ⟨w :: ws, rfl, .cons hw hws⟩
    | case3 n => cases h
  · rintro ⟨ws, rfl, h⟩
    induction h with
    | nil => rfl
    | @cons w g ws ss hw _ ih =>
      rw [List.flatMap_cons, List.cons_append, List.cons_append, List.nil_append,
        pairRuns?_cons_cons, segment?_eq_some_iff.2 ⟨w, rfl, rfl, hw⟩, ih]
      rfl

/-- **What is written has segments, those that it denotes, and nothing else has.** -/
theorem segments?_eq_some_iff : segments? s = some ss ↔
    ∃ ws : List Part, s = written ws ∧ List.Forall₂ Part.Denotes ws ss := by
  unfold segments?
  rw [pairRuns?_eq_some_iff]
  refine exists_congr fun ws => and_congr_left fun _ => ?_
  rw [← runs_written]
  constructor
  · intro h
    rw [← flatten_runs s, h, flatten_runs]
  · rintro rfl
    rfl

/-! ## 5. Durations -/

/-- What is written ends with a unit, so that a bare number is not written. -/
theorem not_numeric_of_getLast?_written (h : (written ws).getLast? = some c) :
    isNumeric c = false := by
  cases hw : ws.getLast? with
  | none =>
    rw [List.getLast?_eq_none_iff.1 hw] at h
    cases h
  | some w =>
    obtain ⟨front, rfl⟩ := List.getLast?_eq_some_iff.1 hw
    have hcut : written (front ++ [w]) = written front ++ w.number ++ w.unit := by
      simp [written, Part.text]
    rw [hcut, List.getLast?_append, Option.or_eq_some_iff] at h
    rcases h with h | ⟨hnone, -⟩
    · exact w.unit_not_numeric c (List.mem_of_getLast? h)
    · exact absurd (List.getLast?_eq_none_iff.1 hnone) w.unit_ne_nil

theorem written_ne_nil (h : ws ≠ []) : written ws ≠ [] := by
  obtain ⟨w, ws, rfl⟩ := List.exists_cons_of_ne_nil h
  rw [written_cons]
  exact List.append_ne_nil_of_left_ne_nil w.number_ne_nil _

theorem written_ne_zero (ws : List Part) : written ws ≠ ['0'] := by
  intro h
  have hlast : (written ws).getLast? = some '0' := by rw [h]; rfl
  exact absurd (not_numeric_of_getLast?_written hlast) (by decide)

theorem isNumeric_or_mem_letters (h : c ∈ written ws) : isNumeric c = true ∨ c ∈ letters := by
  obtain ⟨w, -, hc⟩ := List.mem_flatMap.1 h
  rcases List.mem_append.1 hc with hc | hc
  · exact .inl (w.isNumber.numeric c hc)
  · exact .inr (mem_letters_of_mem_units _ w.unit_mem c hc)

theorem read?_of_written {input : Text} (hne : ws ≠ []) (h : Text.trim input = written ws) :
    ∃ ss, List.Forall₂ Part.Denotes ws ss ∧
      read? input = if fits (total ss) then some (total ss).toUInt64.toNat else none := by
  obtain ⟨ss, hss⟩ : ∃ ss, List.Forall₂ Part.Denotes ws ss := by
    clear hne h
    induction ws with
    | nil => exact ⟨[], .nil⟩
    | cons w ws ih =>
      obtain ⟨g, hg⟩ := exists_denotes w
      obtain ⟨ss, hss⟩ := ih
      exact ⟨g :: ss, .cons hg hss⟩
  refine ⟨ss, hss, ?_⟩
  unfold read?
  rw [h, if_neg (by simpa using written_ne_zero ws), if_neg (by simpa using written_ne_nil hne),
    segments?_eq_some_iff.2 ⟨ws, rfl, hss⟩]

/-- **No other text is a duration.** -/
theorem read?_of_not_written {input : Text} (hzero : Text.trim input ≠ ['0'])
    (h : ∀ ws : List Part, ws ≠ [] → Text.trim input ≠ written ws) : read? input = none := by
  unfold read?
  dsimp only
  rw [if_neg (by simpa using hzero)]
  by_cases hnil : Text.trim input = []
  · rw [hnil]
    rfl
  · rw [if_neg (by simpa using hnil)]
    split
    · rename_i ss hss
      obtain ⟨ws, hws, -⟩ := segments?_eq_some_iff.1 hss
      refine absurd hws (h ws ?_)
      rintro rfl
      exact hnil hws
    · rfl

/-- What is a fault of a tag: the value that is no duration, if nothing is wrong in front of it. -/
theorem exists_fault {input : Text} (h : read? input = none) {raw : RawTag} {kind : Text}
    {done rest : List Attribute} {a : Attribute}
    (ht : Include.Tells raw kind (done ++ a :: rest))
    (hname : a.name = "timeout".toList ∨ a.name = "ttl".toList) (hvalue : a.value = input) :
    ∃ f, (Include.ofRaw raw).read.2 = some f ∧ (Include.ofRaw raw).read.1.fault = some f ∧
      (kind = "include".toList → (∀ b ∈ done, b.IsFine) → f = .duration input) := by
  have hbreaks : a.Breaks (.duration input) := by
    rw [← hvalue] at h ⊢
    exact .duration hname h
  by_cases hfirst : kind = "include".toList ∧ ∀ b ∈ done, b.IsFine
  · obtain ⟨hfault, hkept, -⟩ :=
      Include.read_of_firstFault ht (.value hfirst.1 rfl hfirst.2 hbreaks)
    exact ⟨_, hfault, hkept, fun _ _ => rfl⟩
  · have hwrong : Include.Wrong kind (done ++ a :: rest) :=
      .inr (.inl ⟨a, by simp, fun hfine => hfine _ hbreaks⟩)
    obtain ⟨done', f, hf⟩ := Include.exists_firstFault hwrong
    obtain ⟨hfault, hkept, -⟩ := Include.read_of_firstFault ht hf
    exact ⟨f, hfault, hkept, fun hkind hfine => absurd ⟨hkind, hfine⟩ hfirst⟩

/-- **Which texts are durations.** With the blanks around it taken away, a text is a bare zero, or
parts, one at least, one right behind the other; then it is refused only if the sum of what they
denote does not fit into 64 bits. No other text is a duration: not the empty one, none that ends
with a number, and none with a character that is neither numeric nor the letter of a unit. A tag
with a text that is none, as its timeout or its lifetime, is faulty. -/
theorem read_law (input : Text) :
    let s := Text.trim input
    (s = ['0'] → read? input = some 0) ∧
    (∀ ws : List Part, ws ≠ [] → s = written ws → ∃ ss, List.Forall₂ Part.Denotes ws ss ∧
      read? input = if fits (total ss) then some (total ss).toUInt64.toNat else none) ∧
    (s ≠ ['0'] → (∀ ws : List Part, ws ≠ [] → s ≠ written ws) → read? input = none) ∧
    (s ≠ ['0'] → (s = [] ∨ (∃ c, s.getLast? = some c ∧ isNumeric c = true) ∨
      ∃ c ∈ s, isNumeric c = false ∧ c ∉ letters) → read? input = none) ∧
    (read? input = none → Include.duration input = .error (.duration input) ∧
      ∀ raw kind done a rest, Include.Tells raw kind (done ++ a :: rest) →
        (a.name = "timeout".toList ∨ a.name = "ttl".toList) → a.value = input →
        ∃ f, (Include.ofRaw raw).read.2 = some f ∧ (Include.ofRaw raw).read.1.fault = some f ∧
          (kind = "include".toList → (∀ b ∈ done, b.IsFine) → f = .duration input)) := by
  intro s
  refine ⟨fun hzero => ?_, fun ws hne hws => read?_of_written hne hws, read?_of_not_written,
    fun hzero hform => read?_of_not_written hzero fun ws hne hws => ?_,
    fun hnone => ⟨Include.duration_eq_error_iff.2 ⟨hnone, rfl⟩,
      fun raw kind done a rest ht hname hvalue => exists_fault hnone ht hname hvalue⟩⟩
  · unfold read?
    exact if_pos (beq_iff_eq.2 hzero)
  · have hs : s = written ws := hws
    rw [hs] at hform
    rcases hform with hnil | ⟨c, hlast, hc⟩ | ⟨c, hin, hc, hl⟩
    · exact written_ne_nil hne hnil
    · rw [not_numeric_of_getLast?_written hlast] at hc
      cases hc
    · rcases isNumeric_or_mem_letters hin with hn | hn
      · rw [hn] at hc
        cases hc
      · exact hl hn

namespace Sample

/-- Two minutes and half a second. -/
def parts : List Part :=
  [⟨['2'], ['m'], by decide, by decide⟩, ⟨['.', '5'], ['s'], by decide, by decide⟩]

/-- A tag with a timeout that has an exponent. -/
def tag : RawTag := ⟨Text.utf8 "include timeout=1e3s src=a".toList, 0, 33⟩

theorem tells : Include.Tells tag "include".toList
    ([] ++ ⟨"timeout".toList, "1e3s".toList⟩ :: [⟨"src".toList, ['a']⟩]) :=
  ⟨"include timeout=1e3s src=a".toList, " timeout=1e3s src=a".toList, by decide +kernel,
    by decide +kernel, by decide +kernel⟩

end Sample

/-- Blanks go, a point may come first, a unit is taken as a whole, and there are no exponents. -/
theorem read_law_sample :
    read? " 0".toList = some 0 ∧
    (∃ ss, List.Forall₂ Part.Denotes Sample.parts ss ∧ read? " 2m.5s\n".toList =
      if fits (total ss) then some (total ss).toUInt64.toNat else none) ∧
    read? "5sm".toList = none ∧ read? "1e3s".toList = none ∧
    (Include.ofRaw Sample.tag).read.2 = some (.duration "1e3s".toList) := by
  have hmixed : read? "5sm".toList = none := by
    refine (read_law "5sm".toList).2.2.1 (by decide) fun ws _ hws => ?_
    -- the runs would be the numbers and units of the parts
    have hruns := (congrArg runs hws).trans (runs_written ws)
    cases ws with
    | nil => cases hruns
    | cons w ws =>
      have hunit : w.unit = ['s', 'm'] := (List.cons.inj (List.cons.inj hruns).2).1.symm
      have hmem := w.unit_mem
      rw [hunit] at hmem
      revert hmem
      decide
  have hnone : read? "1e3s".toList = none :=
    (read_law "1e3s".toList).2.2.2.1 (by decide) (.inr (.inr ⟨'e', by decide⟩))
  obtain ⟨f, hfault, -, hf⟩ := ((read_law "1e3s".toList).2.2.2.2 hnone).2 _ _ _ _ _ Sample.tells
    (.inl rfl) rfl
  rw [hf rfl nofun] at hfault
  exact ⟨(read_law " 0".toList).1 (by decide),
    (read_law " 2m.5s\n".toList).2.1 Sample.parts (by decide) (by decide), hmixed, hnone, hfault⟩

end Duration

end EdgeInclude

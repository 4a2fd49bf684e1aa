import EdgeInclude.Proofs.Tag.Candidates
import EdgeInclude.Tag.Scanner

/-!
# The scanner finds what the search finds

A scanner that stands within a candidate carries its bytes: those of the opening mark that it has
recognised, those that it holds, and a slash that may belong to the closing mark. It then goes on as
if the search began at the candidate again, with the carried bytes in front of the rest of the page.

* `Scanner.carried`, `Scanner.Sound` — the carried bytes, and what holds of them.
* `Scanner.step_agrees` — one byte keeps the agreement with the search.
* `Scanner.feed_eq_search` — so does a whole page.
* `scan_eq_verdict` — a scan gives the verdict on the candidates of the page.
-/

namespace EdgeInclude

namespace RawTag

variable {maxSize pos : Nat} {xs ys i page rest : Bytes} {b : UInt8}

/-! ## 1. The search, from bytes on -/

/-- A part in which no opening mark begins is passed over. -/
theorem search_append (h : ∀ j < xs.length, ¬ StandsAt opening (xs ++ ys) j) :
    search maxSize pos (xs ++ ys) = search maxSize (pos + xs.length) ys := by
  have hs := splitFirst?_append h
  cases ho : splitFirst? opening ys with
  | none =>
    rw [ho] at hs
    rw [search_of_none hs, search_of_none ho]
  | some p =>
    obtain ⟨before, rest⟩ := p
    rw [ho] at hs
    have hpos : pos + (xs ++ before).length = pos + xs.length + before.length := by
      rw [List.length_append, Nat.add_assoc]
    cases hc : splitFirst? closing rest with
    | none => rw [search_of_unclosed hs hc, search_of_unclosed ho hc, hpos]
    | some q => rw [search_of_closed hs hc, search_of_closed ho hc, hpos]

theorem search_cons (h : ¬ opening <+: b :: page) :
    search maxSize pos (b :: page) = search maxSize (pos + 1) page := by
  have hskip : ∀ j < [b].length, ¬ StandsAt opening ([b] ++ page) j := by
    intro j hj
    obtain rfl : j = 0 := by simpa using hj
    exact h
  exact search_append hskip

/-- An opening mark that breaks off is passed over, up to the byte that breaks it. -/
theorem search_broken {k : Nat} (hk : k < 5) (hb : opening[k]? ≠ some b) :
    search maxSize pos (opening.take k ++ b :: rest) = search maxSize (pos + k) (b :: rest) := by
  have hlen : (opening.take k).length = k := by
    rw [List.length_take]
    exact Nat.min_eq_left (Nat.le_of_lt hk)
  have hskip : ∀ j < (opening.take k).length,
      ¬ StandsAt opening (opening.take k ++ b :: rest) j := by
    intro j hj hs
    rw [hlen] at hj
    unfold StandsAt at hs
    -- behind its first byte the mark has no byte that could open it again
    match k, j, hk, hj with
    | 1, 0, _, _ | 2, 0, _, _ | 2, 1, _, _ | 3, 0, _, _ | 3, 1, _, _ | 3, 2, _, _ | 4, 0, _, _
    | 4, 1, _, _ | 4, 2, _, _ | 4, 3, _, _ => simp_all [opening]
  have := @search_append maxSize pos _ _ hskip
  rwa [hlen] at this

/-- No closing mark begins in `xs`, unless one lies across its end. -/
theorem not_standsAt_append (h : NowhereFrom closing xs 0)
    (hb : xs.getLast? = some 0x2F → ys.head? ≠ some 0x3E) :
    ∀ j < xs.length, ¬ StandsAt closing (xs ++ ys) j := by
  intro j hj hs
  by_cases hin : j + closing.length ≤ xs.length
  · exact h j (Nat.zero_le _) (hs.of_append (by omega))
  · have hlast : j = xs.length - 1 := by
      simp only [closing, List.length_cons, List.length_nil] at hin
      omega
    obtain ⟨init, a, rfl⟩ := List.eq_nil_or_concat xs |>.resolve_left (by rintro rfl; cases hj)
    have hj' : j = init.length := by simpa using hlast
    unfold StandsAt at hs
    rw [hj', List.concat_append, List.drop_left] at hs
    cases ys with
    | nil => simp [closing] at hs
    | cons c ys => simp_all [closing]

theorem nowhereFrom_closing_snoc (h : NowhereFrom closing xs 0)
    (hb : xs.getLast? = some 0x2F → b ≠ 0x3E) : NowhereFrom closing (xs ++ [b]) 0 := by
  intro j _ hs
  by_cases hj : j < xs.length
  · exact not_standsAt_append h (by simpa using hb) j hj hs
  · have := hs.length_le
    simp only [closing, List.length_cons, List.length_nil, List.length_append] at this
    omega

/-- Behind an opening mark the search ends without a failure while there is room. -/
theorem search_unclosed (h : NowhereFrom closing i 0) (hi : (unclosed i).length ≤ maxSize) :
    search maxSize pos (opening ++ i) = .ok [] := by
  rw [search_of_unclosed (splitFirst?_append_left _ _) (splitFirst?_eq_none h),
    verdict_unclosed hi]

/-- A whole tag. -/
theorem search_written (h : NowhereFrom closing i 0) (hi : i.length ≤ maxSize) :
    search maxSize pos (written i ++ rest) =
      (search maxSize (pos + i.length + frame) rest).map
        (⟨i, pos, pos + i.length + frame⟩ :: ·) := by
  have hskip := @not_standsAt_append i (closing ++ rest) h (by simp [closing])
  have hc := splitFirst?_append hskip
  rw [splitFirst?_append_left] at hc
  have hw : written i ++ rest = opening ++ (i ++ (closing ++ rest)) := by simp [written]
  rw [hw, search_of_closed (splitFirst?_append_left _ _) hc, if_neg (by simpa using hi)]
  simp

theorem lt_length_unclosed (hx : maxSize < xs.length) (hy : xs.getLast? = some 0x2F → ys ≠ []) :
    maxSize < (unclosed (xs ++ ys)).length := by
  unfold unclosed
  split
  · rename_i he
    cases ys with
    | nil => exact absurd rfl (hy (by simpa using he))
    | cons c ys =>
      rw [List.length_dropLast, List.length_append, List.length_cons]
      omega
  · rw [List.length_append]
    omega

/-- A candidate is too long as soon as more than `maxSize` of its bytes cannot belong to a closing
mark. -/
theorem search_tooLong (h : NowhereFrom closing xs 0) (hx : maxSize < xs.length)
    (hlast : xs.getLast? = some 0x2F → ∃ c, ys.head? = some c ∧ c ≠ 0x3E) :
    search maxSize pos (opening ++ (xs ++ ys)) = .error (.malformedTag pos maxSize) := by
  have hskip : ∀ j < xs.length, ¬ StandsAt closing (xs ++ ys) j := by
    refine not_standsAt_append h fun hl hy => ?_
    obtain ⟨c, hc, hne⟩ := hlast hl
    rw [hc] at hy
    exact hne (Option.some.inj hy)
  have hc := splitFirst?_append hskip
  have ho := splitFirst?_append_left opening (xs ++ ys)
  cases hy : splitFirst? closing ys with
  | some p =>
    rw [hy] at hc
    rw [search_of_closed ho hc, if_pos (by rw [List.length_append]; omega)]
    rfl
  | none =>
    rw [hy] at hc
    have hne : xs.getLast? = some 0x2F → ys ≠ [] := by
      rintro hl rfl
      obtain ⟨c, hc, _⟩ := hlast hl
      cases hc
    rw [search_of_unclosed ho hc]
    exact verdict_cons_of_lt (c := .unclosed pos (unclosed (xs ++ ys))) (lt_length_unclosed hx hne)

end RawTag

namespace Scanner

open RawTag

/-! ## 2. What a scanner carries -/

/-- The bytes of the candidate that is being read. -/
def carried (s : Scanner) : Bytes :=
  match s.stage with
  | .outside => []
  | .mark1 => opening.take 1
  | .mark2 => opening.take 2
  | .mark3 => opening.take 3
  | .mark4 => opening.take 4
  | .inside => opening ++ s.held.toList
  | .slash => opening ++ s.held.toList ++ [0x2F]

/-- The position of the first byte that is carried. -/
def origin (s : Scanner) : Nat := if s.stage = .outside then s.position else s.tagStart

/-- Whether the opening mark is complete. -/
def isWithin (s : Scanner) : Bool := s.stage == .inside || s.stage == .slash

/-- A scanner that knows where its candidate began, holds no more than it may, and has met no
closing mark. -/
structure Sound (s : Scanner) : Prop where
  position_eq : s.origin + s.carried.length = s.position
  held_le : s.held.size ≤ s.maxSize
  isOpen : s.isWithin → NowhereFrom closing s.held.toList 0
  /-- A slash is held back until the byte behind it is known. -/
  noSlash : s.stage = .inside → s.held.toList.getLast? ≠ some 0x2F

theorem sound_new (maxSize : Nat) : (new maxSize).Sound where
  position_eq := rfl
  held_le := Nat.zero_le _
  isOpen h := by cases h
  noSlash h := by cases h

/-! ## 3. One byte -/

/-- The search agrees with what a step brings: it finds the tag of the step and goes on from the
bytes that are carried then, or fails with it. -/
def Agrees (s : Scanner) (b : UInt8) : Scanner × Event → Prop
  | (s', .quiet) => s'.Sound ∧ s'.maxSize = s.maxSize ∧ ∀ rest,
      search s.maxSize s.origin (s.carried ++ b :: rest) =
        search s.maxSize s'.origin (s'.carried ++ rest)
  | (s', .found t) => s'.Sound ∧ s'.maxSize = s.maxSize ∧ ∀ rest,
      search s.maxSize s.origin (s.carried ++ b :: rest) =
        (search s.maxSize s'.origin (s'.carried ++ rest)).map (t :: ·)
  | (s', .tooLong) => ∀ rest,
      search s.maxSize s.origin (s.carried ++ b :: rest) = .error s'.tooLong

variable {s : Scanner} {b : UInt8}

theorem sound_of_not_isWithin (hw : s.isWithin = false)
    (hp : s.origin + s.carried.length = s.position) (hh : s.held.size ≤ s.maxSize) : s.Sound where
  position_eq := hp
  held_le := hh
  isOpen h := by rw [hw] at h; cases h
  noSlash h := by simp [isWithin, h] at hw

/-- A byte that is carried on with those before it. -/
theorem agrees_of_carried {s' : Scanner} (h : s.Sound) (hm : s'.maxSize = s.maxSize)
    (ho : s'.origin = s.origin) (hp : s'.position = s.position + 1)
    (hc : s'.carried = s.carried ++ [b]) (hh : s'.held.size ≤ s.maxSize)
    (hi : s'.isWithin → NowhereFrom closing s'.held.toList 0)
    (hn : s'.stage = .inside → s'.held.toList.getLast? ≠ some 0x2F) : s.Agrees b (s', .quiet) := by
  refine ⟨⟨?_, by rwa [hm], hi, hn⟩, hm, fun rest => ?_⟩
  · rw [ho, hc, hp, List.length_append, ← Nat.add_assoc, h.position_eq]
    rfl
  · rw [ho, hc, List.append_assoc]
    rfl

/-- A byte for which there is no room: its candidate begins with `xs`, which is too long. -/
theorem agrees_of_tooLong {s' : Scanner} (xs ys : Bytes)
    (hc : s.carried ++ [b] = opening ++ (xs ++ ys)) (h : NowhereFrom closing xs 0)
    (hx : s.maxSize < xs.length)
    (hl : xs.getLast? = some 0x2F → ∃ c, ys.head? = some c ∧ c ≠ 0x3E)
    (hf : s'.tooLong = .malformedTag s.origin s.maxSize) : s.Agrees b (s', .tooLong) := by
  intro rest
  have hw : s.carried ++ b :: rest = opening ++ (xs ++ (ys ++ rest)) := by
    rw [List.append_cons, hc, List.append_assoc, List.append_assoc]
  rw [hw, hf]
  refine search_tooLong h hx fun hlast => ?_
  obtain ⟨c, hhead, hne⟩ := hl hlast
  refine ⟨c, ?_, hne⟩
  rw [List.head?_append, hhead]
  rfl

/-- A byte that may open a candidate. -/
theorem restart_agrees (hh : s.held.size ≤ s.maxSize) (b : UInt8) :
    (s.restart b).advance.Sound ∧ (s.restart b).advance.maxSize = s.maxSize ∧ ∀ rest,
      search s.maxSize s.position (b :: rest) =
        search s.maxSize (s.restart b).advance.origin ((s.restart b).advance.carried ++ rest) := by
  unfold restart
  split
  · rename_i hb
    obtain rfl := eq_of_beq hb
    exact ⟨sound_of_not_isWithin rfl rfl hh, rfl, fun _ => rfl⟩
  · rename_i hb
    refine ⟨sound_of_not_isWithin rfl rfl hh, rfl, fun rest => search_cons fun hp => hb ?_⟩
    have h0 := (List.cons_prefix_cons.1 hp).1
    exact beq_iff_eq.2 h0.symm

/-- A byte that breaks an opening mark off. -/
theorem restart_agrees_of_broken (h : s.Sound) {k : Nat} (hk : k < 5)
    (hc : s.carried = opening.take k) (hb : opening[k]? ≠ some b) :
    s.Agrees b ((s.restart b).advance, .quiet) := by
  obtain ⟨h1, h2, h3⟩ := restart_agrees h.held_le b
  have hp : s.origin + k = s.position := by
    have := h.position_eq
    rw [hc, List.length_take] at this
    rw [← this]
    exact congrArg _ (Nat.min_eq_left (Nat.le_of_lt hk)).symm
  refine ⟨h1, h2, fun rest => ?_⟩
  rw [hc, search_broken hk hb, hp, h3]

theorem agrees_outside (h : s.Sound) (hs : s.stage = .outside) : s.Agrees b (s.step b) := by
  obtain ⟨h1, h2, h3⟩ := restart_agrees h.held_le b
  have hstep : s.step b = ((s.restart b).advance, .quiet) := by
    unfold step restart
    rw [hs]
    dsimp only
    split
    · rfl
    · rw [← hs]
  rw [hstep]
  refine ⟨h1, h2, fun rest => ?_⟩
  rw [← h3]
  simp [carried, origin, hs]

/-- A byte that should belong to the opening mark and does not complete it. -/
theorem agrees_expect (h : s.Sound) (hs : s.stage ≠ .outside) {k : Nat} (hk : k < 5)
    (hc : s.carried = opening.take k) {want : UInt8} (hw : opening[k]? = some want) {next : Stage}
    (hn : next = .mark2 ∨ next = .mark3 ∨ next = .mark4)
    (hc' : ∀ t : Scanner, t.stage = next → t.carried = opening.take k ++ [want]) :
    s.Agrees b ((s.expect b want next).advance, .quiet) := by
  unfold expect
  split
  · rename_i hb
    obtain rfl := eq_of_beq hb
    have ho : { s with stage := next }.advance.origin = s.origin := by
      rcases hn with rfl | rfl | rfl <;> simp [origin, advance, hs]
    have hl : { s with stage := next }.advance.carried = s.carried ++ [b] := by
      rw [hc, hc' _ rfl]
    refine agrees_of_carried h rfl ho rfl hl h.held_le ?_ ?_
    · rcases hn with rfl | rfl | rfl <;> exact nofun
    · rcases hn with rfl | rfl | rfl <;> exact nofun
  · rename_i hb
    refine restart_agrees_of_broken h hk hc fun he => hb ?_
    rw [hw] at he
    exact beq_iff_eq.2 (Option.some.inj he).symm

/-- The last byte of the opening mark. -/
theorem agrees_mark4 (h : s.Sound) (hs : s.stage = .mark4) : s.Agrees b (s.step b) := by
  have hc : s.carried = opening.take 4 := by simp [carried, hs]
  have ho : s.origin = s.tagStart := by simp [origin, hs]
  simp only [step, hs]
  split
  · rename_i hb
    obtain rfl := eq_of_beq hb
    refine agrees_of_carried h rfl ho.symm rfl ?_ (Nat.zero_le _) (fun _ j _ hj => ?_) nofun
    · rw [hc]
      rfl
    · have := hj.length_le
      simp [closing, advance] at this
  · rename_i hb
    exact restart_agrees_of_broken h (by decide) hc fun he =>
      hb (beq_iff_eq.2 (Option.some.inj he).symm)

/-- One more byte of the interior, if there is room for it. -/
theorem hold?_eq {s' : Scanner} (hs' : s.hold? b = some s') :
    s.held.size < s.maxSize ∧ s' = { s with held := s.held.push b } := by
  unfold hold? at hs'
  split at hs'
  · rename_i hlt
    exact ⟨hlt, (Option.some.inj hs').symm⟩
  · cases hs'

theorem hold?_eq_none (hs : s.hold? b = none) : s.maxSize ≤ s.held.size := by
  unfold hold? at hs
  split at hs
  · cases hs
  · rename_i h
    exact Nat.le_of_not_lt h

/-- The last byte of a closing mark: the tag is complete. -/
theorem agrees_found (h : s.Sound) (hs : s.stage = .slash) :
    s.Agrees 0x3E ({ s with stage := .outside, held := #[] }.advance,
      .found ⟨s.held.toList, s.tagStart, s.position + 1⟩) := by
  have hc : s.carried = opening ++ s.held.toList ++ [0x2F] := by simp [carried, hs]
  have ho : s.origin = s.tagStart := by simp [origin, hs]
  have hopen : NowhereFrom closing s.held.toList 0 := h.isOpen (by simp [isWithin, hs])
  have hstop : s.tagStart + s.held.toList.length + frame = s.position + 1 := by
    rw [← h.position_eq, ho, hc]
    simp only [List.length_append, List.length_cons, List.length_nil, opening, closing, frame]
    omega
  refine ⟨sound_of_not_isWithin rfl rfl (Nat.zero_le _), rfl, fun rest => ?_⟩
  have hw : s.carried ++ 0x3E :: rest = written s.held.toList ++ rest := by
    simp [hc, written, closing]
  rw [hw, ho, search_written hopen h.held_le, hstop]
  rfl

theorem agrees_inside (h : s.Sound) (hs : s.stage = .inside) : s.Agrees b (s.step b) := by
  obtain ⟨maxSize, stage, held, position, tagStart⟩ := s
  obtain rfl : stage = .inside := hs
  have hopen : NowhereFrom closing held.toList 0 := h.isOpen rfl
  have hno : held.toList.getLast? ≠ some 0x2F := h.noSlash rfl
  simp only [step]
  split
  · rename_i hb
    obtain rfl := eq_of_beq hb
    exact agrees_of_carried h rfl rfl rfl rfl h.held_le (fun _ => hopen) nofun
  · rename_i hb
    have hne : b ≠ 0x2F := by simpa using hb
    have hopen' : NowhereFrom closing (held.toList ++ [b]) 0 :=
      nowhereFrom_closing_snoc hopen fun hl => absurd hl hno
    split
    · rename_i s' hs'
      obtain ⟨hlt, rfl⟩ := hold?_eq hs'
      refine agrees_of_carried h rfl rfl rfl ?_ ?_ (fun _ => ?_) fun _ => ?_
      · show opening ++ (held.push b).toList = opening ++ held.toList ++ [b]
        rw [Array.toList_push, List.append_assoc]
      · show (held.push b).size ≤ maxSize
        rw [Array.size_push]
        exact hlt
      · show NowhereFrom closing (held.push b).toList 0
        rw [Array.toList_push]
        exact hopen'
      · show (held.push b).toList.getLast? ≠ some 0x2F
        simpa using hne
    · rename_i hs'
      have hfull : maxSize ≤ held.size := hold?_eq_none hs'
      refine agrees_of_tooLong (held.toList ++ [b]) [] ?_ hopen' ?_ ?_ rfl
      · simp [carried]
      · simpa using Nat.lt_succ_of_le hfull
      · intro hl
        simp [hne] at hl

theorem agrees_slash (h : s.Sound) (hs : s.stage = .slash) : s.Agrees b (s.step b) := by
  obtain ⟨maxSize, stage, held, position, tagStart⟩ := s
  obtain rfl : stage = .slash := hs
  have hopen : NowhereFrom closing held.toList 0 := h.isOpen rfl
  have hopen' : NowhereFrom closing (held.toList ++ [0x2F]) 0 :=
    nowhereFrom_closing_snoc hopen fun _ => by decide
  simp only [step]
  split
  · rename_i hb
    obtain rfl := eq_of_beq hb
    exact agrees_found h rfl
  · rename_i hb
    have hne : b ≠ 0x3E := by simpa using hb
    split
    · -- no room for the slash
      rename_i hs'
      have hfull : maxSize ≤ held.size := hold?_eq_none hs'
      refine agrees_of_tooLong (held.toList ++ [0x2F]) [b] ?_ hopen' ?_ ?_ rfl
      · simp [carried]
      · simpa using Nat.lt_succ_of_le hfull
      · exact fun _ => ⟨b, rfl, hne⟩
    · rename_i s' hs'
      obtain ⟨hlt, rfl⟩ := hold?_eq hs'
      split
      · -- another slash is held back in the place of the first one
        rename_i hb'
        obtain rfl := eq_of_beq hb'
        refine agrees_of_carried h rfl rfl rfl ?_ ?_ (fun _ => ?_) nofun
        · show opening ++ (held.push 0x2F).toList ++ [0x2F] =
            opening ++ held.toList ++ [0x2F] ++ [0x2F]
          rw [Array.toList_push, List.append_assoc opening held.toList]
        · show (held.push 0x2F).size ≤ maxSize
          rw [Array.size_push]
          exact hlt
        · show NowhereFrom closing (held.push 0x2F).toList 0
          rw [Array.toList_push]
          exact hopen'
      · rename_i hb'
        have hne' : b ≠ 0x2F := by simpa using hb'
        have hopen'' : NowhereFrom closing (held.toList ++ [0x2F] ++ [b]) 0 :=
          nowhereFrom_closing_snoc hopen' fun _ => hne
        split
        · rename_i s'' hs''
          obtain ⟨hlt', rfl⟩ := hold?_eq hs''
          refine agrees_of_carried h rfl rfl rfl ?_ ?_ (fun _ => ?_) fun _ => ?_
          · show opening ++ ((held.push 0x2F).push b).toList =
              opening ++ held.toList ++ [0x2F] ++ [b]
            rw [Array.toList_push, Array.toList_push, List.append_assoc opening,
              List.append_assoc opening]
          · show ((held.push 0x2F).push b).size ≤ maxSize
            rw [Array.size_push]
            exact hlt'
          · show NowhereFrom closing ((held.push 0x2F).push b).toList 0
            rw [Array.toList_push, Array.toList_push]
            exact hopen''
          · show ((held.push 0x2F).push b).toList.getLast? ≠ some 0x2F
            simpa using hne'
        · -- room for the slash, but not for the byte behind it
          rename_i hs''
          have hfull : maxSize ≤ (held.push 0x2F).size := hold?_eq_none hs''
          rw [Array.size_push] at hfull
          refine agrees_of_tooLong (held.toList ++ [0x2F] ++ [b]) [] ?_ hopen'' ?_ ?_ rfl
          · simp [carried]
          · show maxSize < (held.toList ++ [0x2F] ++ [b]).length
            simp only [List.length_append, List.length_cons, List.length_nil, Array.length_toList]
            omega
          · intro hl
            simp [hne'] at hl

/-- **One byte keeps the agreement with the search.** -/
theorem step_agrees (h : s.Sound) (b : UInt8) : s.Agrees b (s.step b) := by
  cases hs : s.stage with
  | outside => exact agrees_outside h hs
  | mark1 =>
    have := agrees_expect (b := b) h (by simp [hs]) (k := 1) (by decide) (by simp [carried, hs]) rfl
      (.inl rfl) fun t ht => by simp [carried, ht, opening]
    simpa only [step, hs] using this
  | mark2 =>
    have := agrees_expect (b := b) h (by simp [hs]) (k := 2) (by decide) (by simp [carried, hs]) rfl
      (.inr (.inl rfl)) fun t ht => by simp [carried, ht, opening]
    simpa only [step, hs] using this
  | mark3 =>
    have := agrees_expect (b := b) h (by simp [hs]) (k := 3) (by decide) (by simp [carried, hs]) rfl
      (.inr (.inr rfl)) fun t ht => by simp [carried, ht, opening]
    simpa only [step, hs] using this
  | mark4 => exact agrees_mark4 h hs
  | inside => exact agrees_inside h hs
  | slash => exact agrees_slash h hs

/-! ## 4. A whole page -/

/-- Where the page ends, the search finds nothing in the bytes that are carried. -/
theorem search_carried (h : s.Sound) : search s.maxSize s.origin s.carried = .ok [] := by
  have hmark : ∀ k < 5, splitFirst? opening (opening.take k) = none := by decide
  cases hs : s.stage with
  | outside =>
    have hc : s.carried = [] := by simp [carried, hs]
    rw [hc]
    exact search_of_none rfl
  | mark1 =>
    have hc : s.carried = opening.take 1 := by simp [carried, hs]
    rw [hc]
    exact search_of_none (hmark 1 (by decide))
  | mark2 =>
    have hc : s.carried = opening.take 2 := by simp [carried, hs]
    rw [hc]
    exact search_of_none (hmark 2 (by decide))
  | mark3 =>
    have hc : s.carried = opening.take 3 := by simp [carried, hs]
    rw [hc]
    exact search_of_none (hmark 3 (by decide))
  | mark4 =>
    have hc : s.carried = opening.take 4 := by simp [carried, hs]
    rw [hc]
    exact search_of_none (hmark 4 (by decide))
  | inside =>
    have hc : s.carried = opening ++ s.held.toList := by simp [carried, hs]
    rw [hc]
    refine search_unclosed (h.isOpen (by simp [isWithin, hs])) ?_
    rw [RawTag.unclosed, if_neg (by simpa using h.noSlash hs)]
    exact h.held_le
  | slash =>
    have hc : s.carried = opening ++ (s.held.toList ++ [0x2F]) := by simp [carried, hs]
    rw [hc]
    refine search_unclosed (nowhereFrom_closing_snoc (h.isOpen (by simp [isWithin, hs]))
      fun _ => by decide) ?_
    simpa [RawTag.unclosed] using h.held_le

/-- **A scanner finds what the search finds** in the bytes that it carries and those that it is
fed. -/
theorem feedFrom_eq_search (h : s.Sound) (found : List RawTag) (page : Bytes) :
    (s.feedFrom found page).2 =
      (search s.maxSize s.origin (s.carried ++ page)).map (found.reverse ++ ·) := by
  induction page generalizing s found with
  | nil =>
    rw [List.append_nil, search_carried h]
    simp [feedFrom, Except.map]
  | cons b rest ih =>
    have hb := step_agrees h b
    unfold feedFrom
    match hstep : s.step b with
    | (s', .quiet) =>
      rw [hstep] at hb
      obtain ⟨hs', hm, hr⟩ := hb
      rw [hr, ← hm]
      exact ih hs' found
    | (s', .found t) =>
      rw [hstep] at hb
      obtain ⟨hs', hm, hr⟩ := hb
      rw [hr, ← hm]
      dsimp only
      rw [ih hs' (t :: found)]
      cases search s'.maxSize s'.origin (s'.carried ++ rest) with
      | error e => rfl
      | ok tags => simp [Except.map]
    | (s', .tooLong) =>
      rw [hstep] at hb
      rw [hb rest]
      rfl

theorem feed_eq_search (h : s.Sound) (page : Bytes) :
    (s.feed page).2 = search s.maxSize s.origin (s.carried ++ page) := by
  rw [feed, feedFrom_eq_search h]
  cases search s.maxSize s.origin (s.carried ++ page) <;> rfl

end Scanner

open RawTag

theorem scan_eq_search (maxSize : Nat) (page : Bytes) : scan maxSize page = search maxSize 0 page :=
  Scanner.feed_eq_search (Scanner.sound_new maxSize) page

/-- A scan gives the verdict on the candidates of the page. -/
theorem scan_eq_verdict {maxSize : Nat} {page : Bytes} {cs : List Candidate} (h : Reads page 0 cs) :
    scan maxSize page = verdict maxSize cs := by
  rw [scan_eq_search, ← search_eq_verdict h]
  rfl

/-- **A scan is the leftmost reading of the page.** Its candidates are determined; if all of them
are short enough, it gives the tags among them, and else it fails with the first one that is too
long. The spans of the tags follow each other, and each covers a tag as it is written. -/
theorem scan_eq_reading (maxSize : Nat) (page : Bytes) :
    scan maxSize page = search maxSize 0 page ∧
    ∃ cs, (∀ cs', Reads page 0 cs' ↔ cs' = cs) ∧
      (∀ tags, scan maxSize page = .ok tags ↔
        (∀ c ∈ cs, c.interior.length ≤ maxSize) ∧ tags = tagsOf cs) ∧
      (∀ f, scan maxSize page = .error f ↔ ∃ before c after, cs = before ++ c :: after ∧
        (∀ d ∈ before, d.interior.length ≤ maxSize) ∧ maxSize < c.interior.length ∧
        f = .malformedTag c.start maxSize) ∧
      (tagsOf cs).Pairwise (fun a b => a.stop ≤ b.start) ∧
      ∀ t ∈ tagsOf cs, t.start < t.stop ∧ t.IsIn page := by
  obtain ⟨cs, hr⟩ := exists_reads page 0
  refine ⟨scan_eq_search maxSize page, cs, fun cs' => ⟨fun h => h.unique hr, fun h => h ▸ hr⟩,
    fun tags => ?_, fun f => ?_, hr.pairwise, fun t ht => ?_⟩
  · rw [scan_eq_verdict hr, verdict_eq_ok_iff]
  · rw [scan_eq_verdict hr, verdict_eq_error_iff]
  · exact ⟨(hr.isIn t ht).start_lt_stop, hr.isIn t ht⟩

end EdgeInclude

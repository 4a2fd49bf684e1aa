import EdgeInclude.Proofs.Breaker.Waiting

/-!
# One step of a breaker

What a breaker grants at a time, and what becomes of it when the request that it has let through has
ended.

* `Breaker.grant_of_closed`, `Breaker.grant_of_opened`, `Breaker.grant_of_halfOpen` — all that a
  breaker can grant; `Breaker.grant_probe_later` — what it grants once, it grants later on as well;
  `Breaker.grant_none_earlier` — what it refuses once, it has refused before.
* `Breaker.release_grant`, `Breaker.fail_grant`, `Breaker.succeed_grant` — with its end, nothing of
  an admission is left.
-/

namespace EdgeInclude

/-! ## 1. What a breaker grants -/

namespace Breaker

variable {b b' : Breaker} {p : BreakerPolicy} {now previous claimed : Nat} {a : Admission}

theorem grant_of_closed (h : b.failures < p.maxFailures) (now : Nat) :
    b.grant p now = (b, some .normal) := by
  unfold grant state
  rw [if_pos h]

theorem grant_of_opened (h : ¬ b.failures < p.maxFailures)
    (hw : now - b.lastFailure < p.wait b.failures) : b.grant p now = (b, none) := by
  unfold grant state
  rw [if_neg h, if_neg (Nat.not_le.2 hw)]

theorem grant_of_halfOpen (h : ¬ b.failures < p.maxFailures)
    (hw : p.wait b.failures ≤ now - b.lastFailure) :
    b.grant p now = ({ b with lastFailure := now }, some (.probe b.lastFailure now)) := by
  unfold grant state
  rw [if_neg h, if_pos hw]

theorem grant_normal_iff : (b.grant p now).2 = some .normal ↔ b.failures < p.maxFailures := by
  refine ⟨fun h => ?_, fun h => by rw [grant_of_closed h]⟩
  by_contra hc
  by_cases hw : p.wait b.failures ≤ now - b.lastFailure
  · rw [grant_of_halfOpen hc hw] at h
    cases h
  · rw [grant_of_opened hc (Nat.not_le.1 hw)] at h
    cases h

theorem grant_probe_iff : (b.grant p now).2 = some (.probe previous claimed) ↔
    ¬ b.failures < p.maxFailures ∧ p.wait b.failures ≤ now - b.lastFailure ∧
      previous = b.lastFailure ∧ claimed = now := by
  constructor
  · intro h
    by_cases hc : b.failures < p.maxFailures
    · rw [grant_of_closed hc] at h
      cases h
    · by_cases hw : p.wait b.failures ≤ now - b.lastFailure
      · rw [grant_of_halfOpen hc hw] at h
        cases h
        exact ⟨hc, hw, rfl, rfl⟩
      · rw [grant_of_opened hc (Nat.not_le.1 hw)] at h
        cases h
  · rintro ⟨hc, hw, rfl, rfl⟩
    rw [grant_of_halfOpen hc hw]

theorem grant_none_iff : (b.grant p now).2 = none ↔
    ¬ b.failures < p.maxFailures ∧ now - b.lastFailure < p.wait b.failures := by
  constructor
  · intro h
    by_cases hc : b.failures < p.maxFailures
    · rw [grant_of_closed hc] at h
      cases h
    · by_cases hw : p.wait b.failures ≤ now - b.lastFailure
      · rw [grant_of_halfOpen hc hw] at h
        cases h
      · exact ⟨hc, Nat.not_le.1 hw⟩
  · rintro ⟨hc, hw⟩
    rw [grant_of_opened hc hw]

/-- A breaker that lets nothing through has let nothing through before. -/
theorem grant_none_earlier {now' : Nat} (h : (b.grant p now').2 = none) (hle : now ≤ now') :
    (b.grant p now).2 = none := by
  obtain ⟨hopen, hwait⟩ := grant_none_iff.1 h
  exact grant_none_iff.2 ⟨hopen, Nat.lt_of_le_of_lt (Nat.sub_le_sub_right hle _) hwait⟩

/-- A breaker that has granted a probe grants one at any later time. -/
theorem grant_probe_later {now' : Nat} (h : (b.grant p now).2 = some (.probe previous claimed))
    (hle : claimed ≤ now') :
    (b.grant p now').2 = some (.probe previous now') := by
  obtain ⟨hopen, hwait, hlast, rfl⟩ := grant_probe_iff.1 h
  exact grant_probe_iff.2 ⟨hopen, hwait.trans (Nat.sub_le_sub_right hle _), hlast, rfl⟩

/-- A breaker stays as it is, unless it grants a probe. -/
theorem grant_cases (b : Breaker) (p : BreakerPolicy) (now : Nat) :
    b.grant p now = (b, some .normal) ∨ b.grant p now = (b, none) ∨
      b.grant p now = ({ b with lastFailure := now }, some (.probe b.lastFailure now)) := by
  unfold grant
  cases b.state p now with
  | closed => exact .inl rfl
  | opened => exact .inr (.inl rfl)
  | halfOpen => exact .inr (.inr rfl)

@[simp] theorem failures_grant (b : Breaker) (p : BreakerPolicy) (now : Nat) :
    (b.grant p now).1.failures = b.failures := by
  unfold grant
  cases b.state p now <;> rfl

/-! ## 2. The end of an admission -/

/-- **An admission that is given back leaves the breaker as it was before.** -/
theorem release_grant (h : b.grant p now = (b', some a)) : b'.release a = b := by
  unfold grant at h
  cases hs : b.state p now with
  | closed =>
    rw [hs] at h
    cases h
    rfl
  | opened =>
    rw [hs] at h
    cases h
  | halfOpen =>
    rw [hs] at h
    cases h
    exact if_pos (beq_self_eq_true now)

/-- A failure counts as if nothing had been granted. -/
theorem fail_grant (h : b.grant p now = (b', some a)) (t : Nat) : b'.fail t = b.fail t := by
  have hb := failures_grant b p now
  rw [h] at hb
  unfold fail
  rw [hb]

/-- So does a success, if a breaker without failures is closed. -/
theorem succeed_grant (hp : 1 ≤ p.maxFailures) (h : b.grant p now = (b', some a)) :
    b'.succeed = b.succeed := by
  by_cases hf : b.failures = 0
  · rw [grant_of_closed (by omega) now] at h
    cases h
    rfl
  · have hb := failures_grant b p now
    rw [h] at hb
    unfold succeed
    rw [hb]
    rw [if_neg (by simpa using hf), if_neg (by simpa using hf)]

@[simp] theorem failures_release (b : Breaker) (a : Admission) :
    (b.release a).failures = b.failures := by
  cases a with
  | normal => rfl
  | probe previous claimed =>
    show (if _ then _ else _ : Breaker).failures = _
    split <;> rfl

theorem release_of_ne (h : b.lastFailure ≠ claimed) : b.release (.probe previous claimed) = b :=
  if_neg (by simpa using h)

theorem release_of_eq (h : b.lastFailure = claimed) :
    b.release (.probe previous claimed) = { b with lastFailure := previous } :=
  if_pos (by simpa using h)

/-- What is given back is a probe whose time is still the last one, or nothing. -/
theorem release_cases (b : Breaker) (a : Admission) : b.release a = b ∨
    ∃ previous, a = .probe previous b.lastFailure ∧
      b.release a = { b with lastFailure := previous } := by
  cases a with
  | normal => exact .inl rfl
  | probe previous claimed =>
    by_cases h : b.lastFailure = claimed
    · exact .inr ⟨previous, by rw [h], release_of_eq h⟩
    · exact .inl (release_of_ne h)

@[simp] theorem failures_succeed (b : Breaker) : b.succeed.failures = 0 := by
  unfold succeed
  split
  · rename_i h
    simpa using h
  · rfl

theorem lastFailure_succeed (b : Breaker) :
    b.succeed.lastFailure = b.lastFailure ∨ b.succeed.lastFailure = 0 := by
  unfold succeed
  split
  · exact .inl rfl
  · exact .inr rfl

end Breaker

end EdgeInclude

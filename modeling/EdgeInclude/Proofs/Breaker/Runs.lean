import EdgeInclude.Proofs.Breaker.Steps
import Mathlib.Data.List.TakeWhile

/-!
# A breaker in use

Failures, successes and admissions come in any order, and whoever has been let through may give the
admission back late, more than once, or never.

* `Breaker.Use`, `Breaker.Ledger` — what is done with a breaker, and what it has granted.
* `Breaker.Runs` — uses one after the other, each at a later time than the one before it.
* `Breaker.Sound` — a stamp that can come back is older than the admission that brings it back.
* `Breaker.Quiet` — the time behind a probe, in which nothing is granted.
* `Breaker.Spent` — an admission that has been given back; it cannot be given back again.
* `Breaker.run_law` — what holds of a breaker in use.
-/

namespace EdgeInclude

namespace Breaker

/-! ## 1. Uses -/

/-- What is done with a breaker. -/
inductive Use where
  | fail
  | succeed
  | reset
  | ask
  | release (a : Admission)
  deriving DecidableEq, Repr

/-- A breaker, the admissions that it has granted, and the time of its last use. -/
structure Ledger where
  breaker : Breaker
  granted : List Admission
  clock : Nat
  deriving DecidableEq, Repr

namespace Ledger

/-- A breaker that has not been used. -/
def start : Ledger := ⟨fresh, [], 0⟩

/-- Only what has been granted can be given back. -/
def Allows (l : Ledger) : Use → Prop
  | .release a => a ∈ l.granted
  | _ => True

/-- One use at a time. -/
def step (p : BreakerPolicy) (now : Nat) (l : Ledger) : Use → Ledger
  | .fail => ⟨l.breaker.fail now, l.granted, now⟩
  | .succeed => ⟨l.breaker.succeed, l.granted, now⟩
  | .reset => ⟨fresh, l.granted, now⟩
  | .ask => ⟨(l.breaker.grant p now).1, l.granted ++ (l.breaker.grant p now).2.toList, now⟩
  | .release a => ⟨l.breaker.release a, l.granted, now⟩

end Ledger

/-- Uses one after the other, with their times. -/
inductive Runs (p : BreakerPolicy) (l : Ledger) : List (Nat × Use) → Ledger → Prop where
  | start : Runs p l [] l
  | step {l' : Ledger} {uses : List (Nat × Use)} {now : Nat} {use : Use} (run : Runs p l uses l')
      (later : l'.clock < now) (allowed : l'.Allows use) :
      Runs p l (uses ++ [(now, use)]) (l'.step p now use)

/-- Whether a use makes all failures before it forgotten. -/
def Use.settles : Use → Bool
  | .succeed | .reset => true
  | _ => false

/-- The number of failures behind the last success or reset. -/
def failuresSince (uses : List (Nat × Use)) : Nat :=
  (uses.reverse.takeWhile fun u => !u.2.settles).countP (·.2 = .fail)

variable {p : BreakerPolicy} {l l' : Ledger} {uses : List (Nat × Use)} {now t n : Nat} {use : Use}
  {previous claimed : Nat} {a : Admission}

@[simp] theorem Ledger.clock_step (p : BreakerPolicy) (now : Nat) (l : Ledger) (use : Use) :
    (l.step p now use).clock = now := by
  cases use <;> rfl

theorem Runs.clock_le (h : Runs p l uses l') : l.clock ≤ l'.clock := by
  induction h with
  | start => exact Nat.le_refl _
  | step _ later _ ih => rw [Ledger.clock_step]; exact ih.trans later.le

/-! ## 2. The count -/

theorem failuresSince_snoc (uses : List (Nat × Use)) (now : Nat) (use : Use) :
    failuresSince (uses ++ [(now, use)]) =
      if use.settles then 0
      else failuresSince uses + if use = .fail then 1 else 0 := by
  unfold failuresSince
  rw [List.reverse_append, List.reverse_singleton, List.singleton_append, List.takeWhile_cons]
  cases hs : use.settles with
  | true => rfl
  | false =>
    rw [Bool.not_false, if_pos rfl, if_neg Bool.false_ne_true, List.countP_cons]
    simp

/-- **The count of a breaker is the number of failures since the last success or reset**, up to the
largest number that is counted. -/
theorem Runs.failures_eq (h : Runs p .start uses l) :
    l.breaker.failures = min (failuresSince uses) maxCount := by
  induction h with
  | start => rfl
  | @step l' uses now use _ _ _ ih =>
    rw [failuresSince_snoc]
    cases use with
    | fail =>
      show min (l'.breaker.failures + 1) maxCount = min (failuresSince uses + 1) maxCount
      rw [ih]
      omega
    | succeed => exact failures_succeed _
    | reset => rfl
    | ask => exact (failures_grant ..).trans ih
    | release a => exact (failures_release ..).trans ih

/-! ## 3. Stamps -/

/-- The last stamp and all that have been granted are not in the future, and a stamp that can come
back is older than the admission that brings it back. -/
structure Sound (l : Ledger) : Prop where
  count_le : l.breaker.failures ≤ maxCount
  last_le : l.breaker.lastFailure ≤ l.clock
  granted : ∀ previous claimed, .probe previous claimed ∈ l.granted →
    previous < claimed ∧ claimed ≤ l.clock

namespace Sound

theorem start : Sound .start := ⟨Nat.zero_le _, Nat.le_refl _, fun _ _ h => by cases h⟩

/-- **Every use keeps the stamps in order.** -/
theorem step (h : Sound l) (later : l.clock < now) (allowed : l.Allows use) :
    Sound (l.step p now use) := by
  have hlast := h.last_le
  have hold : ∀ previous claimed, .probe previous claimed ∈ l.granted →
      previous < claimed ∧ claimed ≤ now := fun previous claimed hm =>
    ⟨(h.granted previous claimed hm).1, (h.granted previous claimed hm).2.trans later.le⟩
  cases use with
  | fail => exact ⟨Nat.min_le_right .., Nat.le_refl _, hold⟩
  | succeed =>
    refine ⟨(failures_succeed l.breaker).le.trans (Nat.zero_le _), ?_, hold⟩
    show l.breaker.succeed.lastFailure ≤ now
    rcases lastFailure_succeed l.breaker with hs | hs <;> omega
  | reset => exact ⟨Nat.zero_le _, Nat.zero_le _, hold⟩
  | ask =>
    refine ⟨(failures_grant ..).le.trans h.count_le, ?_, ?_⟩
    · show (l.breaker.grant p now).1.lastFailure ≤ now
      rcases l.breaker.grant_cases p now with hg | hg | hg <;> rw [hg]
      · exact hlast.trans later.le
      · exact hlast.trans later.le
    · intro previous claimed hm
      rcases List.mem_append.1 hm with hm | hm
      · exact hold previous claimed hm
      · obtain ⟨-, -, rfl, rfl⟩ := grant_probe_iff.1 (Option.mem_toList.1 hm)
        exact ⟨hlast.trans_lt later, Nat.le_refl _⟩
  | release a =>
    refine ⟨(failures_release ..).le.trans h.count_le, ?_, hold⟩
    show (l.breaker.release a).lastFailure ≤ now
    rcases l.breaker.release_cases a with hr | ⟨previous, rfl, hr⟩ <;> rw [hr]
    · exact hlast.trans later.le
    · have := h.granted previous _ allowed
      show previous ≤ now
      omega

theorem run (hl : Sound l) (h : Runs p l uses l') : Sound l' := by
  induction h with
  | start => exact hl
  | step _ later allowed ih => exact ih.step later allowed

end Sound

/-! ## 4. Behind a probe -/

/-- A breaker that has granted the probe `(previous, t)` after `n` failures, and has not been told
since how the probe has ended: its last stamp is that of the probe, or of a failure behind it, which
no admission can take back. -/
structure Quiet (p : BreakerPolicy) (previous t n : Nat) (l : Ledger) : Prop where
  opens : p.maxFailures ≤ n
  count : n ≤ l.breaker.failures
  le_last : t ≤ l.breaker.lastFailure
  held : l.breaker.lastFailure = t ∨ ∀ x, .probe x l.breaker.lastFailure ∉ l.granted
  only : ∀ x, .probe x t ∈ l.granted → x = previous

namespace Quiet

/-- **Nothing is granted before the waiting time of the probe is over.** -/
theorem grant_eq (hp : p.IsExact) (h : Quiet p previous t n l) (later : t < now)
    (hn : now < t + p.wait n) : l.breaker.grant p now = (l.breaker, none) := by
  have hwait := BreakerPolicy.wait_mono hp h.count
  have hlast := h.le_last
  exact grant_of_opened (Nat.not_lt.2 (h.opens.trans h.count)) (by omega)

/-- The probe itself begins such a time. -/
theorem start (h : Sound l) (later : l.clock < t)
    (hg : (l.breaker.grant p t).2 = some (.probe previous t)) :
    Quiet p previous t l.breaker.failures (l.step p t .ask) := by
  obtain ⟨hc, hw, hprev, -⟩ := grant_probe_iff.1 hg
  have heq := grant_of_halfOpen hc hw
  refine ⟨Nat.not_lt.1 hc, (failures_grant ..).ge, ?_, .inl ?_, fun x hm => ?_⟩
  · show t ≤ (l.breaker.grant p t).1.lastFailure
    rw [heq]
  · show (l.breaker.grant p t).1.lastFailure = t
    rw [heq]
  · rcases List.mem_append.1 hm with hm | hm
    · have := (h.granted x t hm).2
      omega
    · rw [hg] at hm
      cases List.mem_singleton.1 hm
      rfl

/-- **Neither a failure nor another admission that is given back ends it.** -/
theorem step (hp : p.IsExact) (hs : Sound l) (h : Quiet p previous t n l) (hn : n ≤ maxCount)
    (later : l.clock < now) (hnow : now < t + p.wait n) (allowed : l.Allows use)
    (hu : use ≠ .succeed ∧ use ≠ .reset ∧ use ≠ .release (.probe previous t)) :
    Quiet p previous t n (l.step p now use) := by
  obtain ⟨hsucc, hres, hrel⟩ := hu
  have hlast := hs.last_le
  have hge := h.le_last
  have hcount := h.count
  cases use with
  | fail =>
    refine ⟨h.opens, ?_, ?_, .inr fun x hm => ?_, h.only⟩
    · show n ≤ min (l.breaker.failures + 1) maxCount
      omega
    · show t ≤ now
      omega
    · -- nothing has been granted at the time of the failure
      have hle : now ≤ l.clock := (hs.granted x now hm).2
      omega
  | succeed => exact absurd rfl hsucc
  | reset => exact absurd rfl hres
  | ask =>
    have hstep : l.step p now .ask = ⟨l.breaker, l.granted, now⟩ := by
      show Ledger.mk _ _ _ = _
      rw [h.grant_eq hp (by omega) hnow]
      exact congrArg (Ledger.mk _ · _) (List.append_nil _)
    rw [hstep]
    exact ⟨h.opens, h.count, h.le_last, h.held, h.only⟩
  | release a =>
    have hkeep : l.breaker.release a = l.breaker := by
      rcases l.breaker.release_cases a with hr | ⟨x, rfl, -⟩
      · exact hr
      · -- only the probe itself could be given back
        rcases h.held with heq | hno
        · rw [heq] at allowed hrel
          exact absurd (by rw [h.only x allowed]) hrel
        · exact absurd allowed (hno x)
    have hstep : l.step p now (.release a) = ⟨l.breaker, l.granted, now⟩ :=
      congrArg (Ledger.mk · _ _) hkeep
    rw [hstep]
    exact ⟨h.opens, h.count, h.le_last, h.held, h.only⟩

theorem run (hp : p.IsExact) (hs : Sound l) (h : Quiet p previous t n l) (hn : n ≤ maxCount)
    (hr : Runs p l uses l')
    (hu : ∀ u ∈ uses, u.2 ≠ .succeed ∧ u.2 ≠ .reset ∧ u.2 ≠ .release (.probe previous t)) :
    l'.clock < t + p.wait n → Quiet p previous t n l' := by
  induction hr with
  | start => exact fun _ => h
  | @step l' uses now use run later allowed ih =>
    intro hnow
    rw [Ledger.clock_step] at hnow
    refine step hp (hs.run run) (ih (fun u hm => hu u (List.mem_append_left _ hm)) (by omega)) hn
      later hnow allowed ?_
    exact hu (now, use) (List.mem_append_right _ (List.mem_singleton_self _))

end Quiet

/-! ## 5. Behind a release -/

/-- An admission of the time `claimed` has been given back at the time `t`: no stamp from there to
`t` is left, nor will one come back. -/
structure Spent (claimed t : Nat) (l : Ledger) : Prop where
  pos : 0 < claimed
  claimed_le : claimed ≤ t
  le_clock : t ≤ l.clock
  last : l.breaker.lastFailure < claimed ∨ t < l.breaker.lastFailure
  granted : ∀ x y, .probe x y ∈ l.granted → t < y → x < claimed ∨ t < x

namespace Spent

theorem step (hs : Sound l) (h : Spent claimed t l) (later : l.clock < now)
    (allowed : l.Allows use) : Spent claimed t (l.step p now use) := by
  have hclock := h.le_clock
  have hclaimed := h.claimed_le
  have hlast := h.last
  have hle : t ≤ (l.step p now use).clock := by
    rw [Ledger.clock_step]
    omega
  cases use with
  | fail => exact ⟨h.pos, h.claimed_le, hle, .inr (h.le_clock.trans_lt later), h.granted⟩
  | succeed =>
    refine ⟨h.pos, h.claimed_le, hle, ?_, h.granted⟩
    show l.breaker.succeed.lastFailure < claimed ∨ t < l.breaker.succeed.lastFailure
    rcases lastFailure_succeed l.breaker with hl | hl <;> rw [hl]
    · exact h.last
    · exact .inl h.pos
  | reset => exact ⟨h.pos, h.claimed_le, hle, .inl h.pos, h.granted⟩
  | ask =>
    refine ⟨h.pos, h.claimed_le, hle, ?_, fun x y hm hy => ?_⟩
    · show (l.breaker.grant p now).1.lastFailure < claimed ∨
        t < (l.breaker.grant p now).1.lastFailure
      rcases l.breaker.grant_cases p now with hg | hg | hg <;> rw [hg]
      · exact h.last
      · exact h.last
      · exact .inr (h.le_clock.trans_lt later)
    · rcases List.mem_append.1 hm with hm | hm
      · exact h.granted x y hm hy
      · obtain ⟨-, -, rfl, -⟩ := grant_probe_iff.1 (Option.mem_toList.1 hm)
        exact h.last
  | release a =>
    refine ⟨h.pos, h.claimed_le, hle, ?_, h.granted⟩
    show (l.breaker.release a).lastFailure < claimed ∨ t < (l.breaker.release a).lastFailure
    rcases l.breaker.release_cases a with hr | ⟨x, rfl, hr⟩ <;> rw [hr]
    · exact h.last
    · -- the stamp that comes back lies below the one that it takes the place of
      rcases h.last with hl | hl
      · exact .inl ((hs.granted x _ allowed).1.trans hl)
      · exact h.granted x _ allowed hl

theorem run (hs : Sound l) (h : Spent claimed t l) (hr : Runs p l uses l') :
    Spent claimed t l' := by
  induction hr with
  | start => exact h
  | step run later allowed ih => exact ih.step (hs.run run) later allowed

/-- An admission that has made a difference is given back. -/
theorem start (hs : Sound l) (later : l.clock < t) (hm : .probe previous claimed ∈ l.granted)
    (hr : l.breaker.lastFailure = claimed) :
    Spent claimed t (l.step p t (.release (.probe previous claimed))) := by
  obtain ⟨hlt, hle⟩ := hs.granted previous claimed hm
  refine ⟨by omega, by omega, (Ledger.clock_step ..).ge, .inl ?_, fun x y hxy hy => ?_⟩
  · show (l.breaker.release _).lastFailure < claimed
    rw [release_of_eq hr]
    exact hlt
  · have hle' : y ≤ l.clock := (hs.granted x y hxy).2
    omega

/-- **It cannot be given back again.** -/
theorem release_eq (h : Spent claimed t l) (previous : Nat) :
    l.breaker.release (.probe previous claimed) = l.breaker := by
  have hclaimed := h.claimed_le
  have hlast := h.last
  exact release_of_ne (by omega)

end Spent

/-! ## 6. All of a run -/

/-- **What holds of a breaker in use**, for every policy whose waiting times fit into a word, and
for every order of uses at different times. Its count is that of the failures since the last success
or reset; while it is small, and only then, requests go through as normal ones. Behind a probe
nothing is granted before its waiting time is over, unless there is a success, a reset, or the probe
itself is given back. An admission that has been given back to some effect has none when it is given
back again. -/
theorem run_law (p : BreakerPolicy) (hp : p.IsExact) {uses : List (Nat × Use)} {l : Ledger}
    (h : Runs p .start uses l) :
    l.breaker.failures = min (failuresSince uses) maxCount ∧
    (∀ now, (l.breaker.grant p now).2 = some .normal ↔ l.breaker.failures < p.maxFailures) ∧
    (∀ previous t between l' now, l.clock < t →
      (l.breaker.grant p t).2 = some (.probe previous t) →
      Runs p (l.step p t .ask) between l' →
      (∀ u ∈ between, u.2 ≠ .succeed ∧ u.2 ≠ .reset ∧ u.2 ≠ .release (.probe previous t)) →
      l'.clock < now → now < t + p.backoff l.breaker.failures →
      (l'.breaker.grant p now).2 = none) ∧
    (∀ a t between l', a ∈ l.granted → l.clock < t → l.breaker.release a ≠ l.breaker →
      Runs p (l.step p t (.release a)) between l' → l'.breaker.release a = l'.breaker) := by
  have hs : Sound l := Sound.start.run h
  refine ⟨h.failures_eq, fun now => grant_normal_iff, ?_, ?_⟩
  · intro previous t between l' now ht hg hr hu hl hn
    rw [← BreakerPolicy.wait_eq hp] at hn
    have hprobe : Sound (l.step p t .ask) := hs.step ht trivial
    have hclock := hr.clock_le
    rw [Ledger.clock_step] at hclock
    have hquiet := (Quiet.start hs ht hg).run hp hprobe hs.count_le hr hu (by omega)
    rw [hquiet.grant_eq hp (by omega) hn]
  · intro a t between l' hm ht hne hr
    rcases l.breaker.release_cases a with heq | ⟨previous, rfl, -⟩
    · exact absurd heq hne
    · have hback : Sound (l.step p t (.release (.probe previous l.breaker.lastFailure))) :=
        hs.step ht hm
      exact ((Spent.start hs ht hm rfl).run hback hr).release_eq previous

namespace Sample

/-- One failure opens the breaker, for twenty nanoseconds after the first one. -/
def policy : BreakerPolicy := ⟨1, 4, 10⟩

/-- A breaker that has failed once. -/
def failed : Ledger := ⟨⟨1, 1⟩, [], 1⟩

/-- The same with a probe that begins at 50. -/
def probing : Ledger := ⟨⟨1, 50⟩, [.probe 1 50], 50⟩

end Sample

open Sample in
/-- A failure behind the probe does not bring the next one forward, and the probe is given back
once: behind another probe, its second release changes nothing. -/
theorem run_law_sample : policy.IsExact ∧ Runs policy .start [(1, .fail), (50, .ask)] probing ∧
    failed.breaker.failures = 1 ∧
    (((probing.step policy 55 .fail).breaker.grant policy 69).2 = none) ∧
    (((probing.step policy 51 (.release (.probe 1 50))).step policy 60 .ask).breaker.release
      (.probe 1 50) = ⟨1, 60⟩) := by
  have hp : policy.IsExact := by unfold BreakerPolicy.IsExact; decide
  have hfailed : Runs policy .start [(1, .fail)] failed := .step .start (by decide) trivial
  have hprobing : Runs policy .start [(1, .fail), (50, .ask)] probing :=
    .step hfailed (by decide) trivial
  obtain ⟨hcount, -, hquiet, -⟩ := run_law policy hp hfailed
  obtain ⟨-, -, -, honce⟩ := run_law policy hp hprobing
  have hlate : Runs policy probing [(55, .fail)] (probing.step policy 55 .fail) :=
    .step .start (by decide) trivial
  have hback : Runs policy (probing.step policy 51 (.release (.probe 1 50))) [(60, .ask)]
      ((probing.step policy 51 (.release (.probe 1 50))).step policy 60 .ask) :=
    .step .start (by decide) trivial
  exact ⟨hp, hprobing, hcount,
    hquiet 1 50 _ _ 69 (by decide) (by decide) hlate (by decide) (by decide) (by decide),
    honce _ 51 _ _ (by decide) (by decide) (by decide) hback⟩

end Breaker

end EdgeInclude

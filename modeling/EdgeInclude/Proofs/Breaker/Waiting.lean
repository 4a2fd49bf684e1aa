import EdgeInclude.Config.Basic
import Mathlib.Algebra.Order.Ring.Nat

/-!
# How long a breaker stays open

The waiting time of a breaker doubles with each failure, up to a limit. It is kept in a word of 64
bits, which holds a little less than 585 years in nanoseconds; of a longer time, the word keeps what
is left of it modulo `2 ^ 64`, and that may be no time at all.

* `BreakerPolicy.nominal` — the waiting time that a policy means.
* `BreakerPolicy.kept`, `BreakerPolicy.wait_eq_kept` — what a word keeps of it; this is all of it,
  if the word can hold it.
* `BreakerPolicy.IsExact`, `BreakerPolicy.wait_mono` — policies whose waiting times all fit into a
  word: the more failures, the longer the wait.
* `Breaker.state_closed_iff`, `Breaker.state_opened_iff`, `Breaker.state_halfOpen_iff` — when a
  breaker is closed, open and half-open.
* `Breaker.state_law` — the state of a breaker for every configuration, every number of failures and
  every time.
* `Breaker.exists_early_probe` — a breaker that ought to stay open for millions of years, and lets a
  request through at once.
-/

namespace EdgeInclude

/-! ## 1. Waiting times -/

namespace BreakerPolicy

variable {p : BreakerPolicy} {n m : Nat}

/-- The waiting time that a policy means: its unit, doubled with each failure up to a limit. -/
def nominal (p : BreakerPolicy) (failures : Nat) : Nat :=
  p.base * 2 ^ min (min failures p.maxBackoffs) 31

theorem nominal_mono (p : BreakerPolicy) (hnm : n ≤ m) : p.nominal n ≤ p.nominal m :=
  Nat.mul_le_mul_left _ (Nat.pow_le_pow_right Nat.two_pos (by omega))

theorem backoff_eq (p : BreakerPolicy) (n : Nat) : p.backoff n = min (p.nominal n) longest := by
  unfold backoff nominal
  rw [Nat.one_shiftLeft]

/-- What a word of 64 bits keeps of a time; of a time that is longer than all that can be told, it
keeps the longest one. -/
def kept (d : Nat) : Nat := if d ≤ longest then d % 2 ^ 64 else 2 ^ 64 - 1

theorem kept_of_lt {d : Nat} (h : d < 2 ^ 64) : kept d = d := by
  have hlong : 2 ^ 64 ≤ longest := by decide
  unfold kept
  rw [if_pos (h.le.trans hlong)]
  exact Nat.mod_eq_of_lt h

theorem kept_lt_of_le {d : Nat} (h : 2 ^ 64 ≤ d) : kept d < d := by
  unfold kept
  split <;> omega

theorem wait_eq_kept (p : BreakerPolicy) (n : Nat) : p.wait n = kept (p.nominal n) := by
  unfold wait kept
  rw [backoff_eq, Nat.one_shiftLeft]
  split
  · rename_i hle
    rw [Nat.min_eq_left hle]
  · rename_i hlt
    rw [Nat.min_eq_right (Nat.le_of_not_le hlt)]
    rfl

/-- The waiting time is the one that is meant, if a word can hold it. -/
theorem wait_of_lt (h : p.nominal n < 2 ^ 64) : p.wait n = p.nominal n := by
  rw [wait_eq_kept, kept_of_lt h]

/-- The longest waiting time of a policy fits into a word of 64 bits. -/
def IsExact (p : BreakerPolicy) : Prop := p.base * 2 ^ min p.maxBackoffs 31 < 2 ^ 64

theorem IsExact.nominal_lt (h : p.IsExact) (n : Nat) : p.nominal n < 2 ^ 64 := by
  have hle : p.nominal n ≤ p.base * 2 ^ min p.maxBackoffs 31 :=
    Nat.mul_le_mul_left _ (Nat.pow_le_pow_right Nat.two_pos (by omega))
  exact hle.trans_lt h

theorem wait_eq (h : p.IsExact) (n : Nat) : p.wait n = p.backoff n := by
  have hlt := h.nominal_lt n
  have hlong : 2 ^ 64 ≤ longest := by decide
  rw [wait_of_lt hlt, backoff_eq]
  exact (Nat.min_eq_left (hlt.le.trans hlong)).symm

/-- The more failures, the longer the wait, as long as a word can hold it. -/
theorem wait_le_of_lt (hnm : n ≤ m) (h : p.nominal m < 2 ^ 64) : p.wait n ≤ p.wait m := by
  have hle := p.nominal_mono hnm
  rw [wait_of_lt h, wait_of_lt (hle.trans_lt h)]
  exact hle

/-- **The more failures, the longer the wait.** -/
theorem wait_mono (h : p.IsExact) (hnm : n ≤ m) : p.wait n ≤ p.wait m :=
  wait_le_of_lt hnm (h.nominal_lt m)

end BreakerPolicy

/-! ## 2. States -/

namespace Breaker

variable {b : Breaker} {p : BreakerPolicy} {now : Nat}

theorem state_closed_iff : b.state p now = .closed ↔ b.failures < p.maxFailures := by
  unfold state
  split
  · simp_all
  · split <;> simp_all

theorem state_opened_iff : b.state p now = .opened ↔
    p.maxFailures ≤ b.failures ∧ now - b.lastFailure < p.wait b.failures := by
  unfold state
  split
  · simp_all
  · split <;> simp_all

theorem state_halfOpen_iff : b.state p now = .halfOpen ↔
    p.maxFailures ≤ b.failures ∧ p.wait b.failures ≤ now - b.lastFailure := by
  unfold state
  split
  · simp_all
  · split <;> simp_all

/-- **The state of a breaker**, for every configuration. It is closed if and only if there have been
too few failures. Else it is open for the waiting time that is meant and half-open from then on, if
a word can hold this time, and with more failures it waits no shorter. If a word cannot hold it,
then the breaker is open for what a word keeps of it, which is less. -/
theorem state_law (c : Config) (b : Breaker) (now : Nat) :
    let nominal := c.breakers.nominal b.failures
    (b.state c.breakers now = .closed ↔ b.failures < c.maxFailures) ∧
    (c.maxFailures ≤ b.failures → nominal < 2 ^ 64 →
      (b.state c.breakers now = .opened ↔ now - b.lastFailure < nominal) ∧
      (b.state c.breakers now = .halfOpen ↔ nominal ≤ now - b.lastFailure) ∧
      ∀ n ≤ b.failures, c.breakers.wait n ≤ c.breakers.wait b.failures) ∧
    (c.maxFailures ≤ b.failures → 2 ^ 64 ≤ nominal →
      (b.state c.breakers now = .opened ↔ now - b.lastFailure < BreakerPolicy.kept nominal) ∧
      (b.state c.breakers now = .halfOpen ↔ BreakerPolicy.kept nominal ≤ now - b.lastFailure) ∧
      BreakerPolicy.kept nominal < nominal) := by
  intro nominal
  have hwait : c.breakers.wait b.failures = BreakerPolicy.kept nominal :=
    BreakerPolicy.wait_eq_kept _ _
  refine ⟨state_closed_iff, fun hmax hlt => ⟨?_, ?_, ?_⟩, fun hmax hle => ⟨?_, ?_, ?_⟩⟩
  · rw [state_opened_iff, hwait, BreakerPolicy.kept_of_lt hlt]
    exact and_iff_right hmax
  · rw [state_halfOpen_iff, hwait, BreakerPolicy.kept_of_lt hlt]
    exact and_iff_right hmax
  · intro n hn
    exact BreakerPolicy.wait_le_of_lt hn hlt
  · rw [state_opened_iff, hwait]
    exact and_iff_right hmax
  · rw [state_halfOpen_iff, hwait]
    exact and_iff_right hmax
  · exact BreakerPolicy.kept_lt_of_le hle

/-! ## 3. A time that a word does not hold -/

/-- A unit of 37 hours, doubled up to 31 times. -/
def patient : Config := { Config.standard with maxBackoffs := 31, backoffMillis := 134217728 }

/-- **A breaker can let a request through long before its time**: after 31 failures the unit is to
be waited for `2 ^ 31` times, which is a multiple of `2 ^ 64` nanoseconds. After 30 failures the
breaker waits longer. -/
theorem exists_early_probe :
    patient.validate = .ok () ∧
    patient.breakers.nominal 31 = 2 ^ 58 * 1000000 ∧
    (⟨31, 1⟩ : Breaker).state patient.breakers 2 = .halfOpen ∧
    patient.breakers.wait 31 < patient.breakers.wait 30 := by
  decide +kernel

end Breaker

end EdgeInclude

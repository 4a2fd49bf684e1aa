import EdgeInclude.Proofs.Page.Tasks
import Mathlib.Data.List.Nodup

/-!
# What tasks do

A task that runs together with others does one of a few things at a time: it finds a value, joins
the line of a flight, begins to work, gives way, is done, takes the value of another task, or is
given up.

* `Batch.Move`, `Batch.Rest` — all that a task can do, and what it then leaves alone.
* `Batch.Sound` — what always holds: in the line of a flight without value stand those that take
  part in it, and the first of them is awake; who takes part in a flight with a value is awake as
  well.
* `Batch.Sound.eq_of_working` — of one key, at most one task works.
* `Batch.Sound.move`, `Batch.Sound.rest` — moves keep it.
-/

namespace EdgeInclude

namespace Batch

variable {σ κ ν : Type} {b b' : Batch σ κ ν} {i j n : Nat} {p : Phase ν}
  {woken : List Nat} {v : ν}

/-! ## 1. Moves -/

/-- Task `i` takes part in flight `n`. -/
def On (b : Batch σ κ ν) (i n : Nat) : Prop := flightOf? (b.phase i) = some n

theorem on_of_waiting (h : b.phase i = .waiting n) : b.On i n := by
  unfold On
  rw [h]
  rfl

theorem on_of_working {q : Nat} (h : b.phase i = .working n q) : b.On i n := by
  unfold On
  rw [h]
  rfl

theorem not_on_of_fresh (h : b.phase i = .fresh) (n : Nat) : ¬ b.On i n := by
  unfold On
  rw [h]
  exact nofun

/-- What a task can do in one move, or be done to it. -/
inductive Move [BEq κ] (i : Nat) (b b' : Batch σ κ ν) : Prop where
  /-- It finds a value that needs no computation. -/
  | found {job : Job σ κ ν} {v : ν} (own : b.job? i = some job) (was : b.phase i = .fresh)
      (look : (job.lookup b.shared).2 = some v) (moved : Moved i (.returned .ready v) [] b b')
      (coalescer : b'.coalescer = b.coalescer)
      (shared : b'.shared = job.settle .ready v (job.lookup b.shared).1)
  /-- It finds none and joins the line of a flight. It stays awake if it may do the work. -/
  | enter {job : Job σ κ ν} {n : Nat} (own : b.job? i = some job) (was : b.phase i = .fresh)
      (look : (job.lookup b.shared).2 = none) (number : (b.coalescer.join job.key).2 = n)
      (moved : Moved i (.waiting n) [] b b')
      (awake : (b.coalescer.flight n).permit = none → b'.isAwake i = true)
      (coalescer : b'.coalescer =
        (b.coalescer.join job.key).1.set n ((b.coalescer.flight n).enter i))
      (shared : b'.shared = (job.lookup b.shared).1)
  /-- Its flight has a value. -/
  | follow {job : Job σ κ ν} {n : Nat} {v : ν} (own : b.job? i = some job)
      (was : b.phase i = .waiting n) (value : (b.coalescer.flight n).value = some v)
      (moved : Moved i (.returned .follower v) [] b b') (coalescer : b'.coalescer = b.coalescer)
      (shared : b'.shared = job.settle .follower v b.shared)
  /-- It may do the work, and begins to. -/
  | begin {job : Job σ κ ν} {n : Nat} (own : b.job? i = some job) (was : b.phase i = .waiting n)
      (value : (b.coalescer.flight n).value = none)
      (permit : (b.coalescer.flight n).permit = some i)
      (moved : Moved i (.working n job.pauses) [] b b') (awake : b'.isAwake i = true)
      (coalescer : b'.coalescer = b.coalescer) (shared : b'.shared = job.start b.shared)
  /-- Its work gives way. -/
  | pause {n p q : Nat} (was : b.phase i = .working n p) (less : q < p)
      (moved : Moved i (.working n q) [] b b') (awake : b'.isAwake i = true)
      (coalescer : b'.coalescer = b.coalescer) (shared : b'.shared = b.shared)
  /-- Its work is done. -/
  | complete {job : Job σ κ ν} {n p : Nat} {v : ν} (own : b.job? i = some job)
      (was : b.phase i = .working n p) (value : (job.finish b.shared).2 = v)
      (moved : Moved i (.returned .leader v) (b.coalescer.flight n).queue b b')
      (coalescer : b'.coalescer =
        (b.coalescer.set n ((b.coalescer.flight n).settle v).1).close job.key n)
      (shared : b'.shared = job.settle .leader v (job.finish b.shared).1)
  /-- It is given up while it takes part in a flight. -/
  | leave {n : Nat} (was : b.On i n)
      (moved : Moved i .dropped ((b.coalescer.flight n).leave i).2 b b')
      (coalescer : b'.coalescer = b.coalescer.set n ((b.coalescer.flight n).leave i).1)
      (shared : b'.shared = b.shared)
  /-- It is given up before it has begun. -/
  | forgo (was : b.phase i = .fresh) (moved : Moved i .dropped [] b b')
      (coalescer : b'.coalescer = b.coalescer) (shared : b'.shared = b.shared)

/-- A task stays where it is. It may fall asleep if it waits for the work of another task. -/
structure Rest (i : Nat) (b b' : Batch σ κ ν) : Prop where
  moved : Moved i (b.phase i) [] b b'
  awake : b.isAwake i = true → b'.isAwake i = true ∨ ∃ n, b.phase i = .waiting n ∧
    (b.coalescer.flight n).value = none ∧ i ∈ (b.coalescer.flight n).queue
  coalescer : b'.coalescer = b.coalescer
  shared : b'.shared = b.shared

/-! ## 2. What always holds -/

/-- A flight without value: in its line stand the tasks that take part in it, all but the first
wait, and the first one is awake. -/
structure OpenFlight (b : Batch σ κ ν) (n : Nat) : Prop where
  nodup : (b.coalescer.flight n).line.Nodup
  mem_iff : ∀ i, i ∈ (b.coalescer.flight n).line ↔ b.On i n
  queue_eq_nil : (b.coalescer.flight n).permit = none → (b.coalescer.flight n).queue = []
  awake : ∀ i, (b.coalescer.flight n).permit = some i → b.isAwake i = true
  waiting : ∀ i ∈ (b.coalescer.flight n).queue, b.phase i = .waiting n

/-- A flight with a value: it is that of a task that has returned it, and those that still take part
in the flight are awake and have the same key. -/
structure SettledFlight (b : Batch σ κ ν) (n : Nat) (v : ν) : Prop where
  waiting : ∀ i, b.On i n → b.phase i = .waiting n ∧ b.isAwake i = true
  leader : ∃ j, b.phase j = .returned .leader v ∧ ∀ i, b.On i n → b.key? i = b.key? j

/-- What always holds of tasks that run together. -/
structure Sound (b : Batch σ κ ν) : Prop where
  fresh : ∀ i, b.phase i = .fresh → b.isAwake i = true
  open_ : ∀ n, (b.coalescer.flight n).value = none → b.OpenFlight n
  settled : ∀ n v, (b.coalescer.flight n).value = some v → b.SettledFlight n v
  /-- A flight without value that a task takes part in is under way for the key of the task. -/
  slot : ∀ i n, b.On i n → (b.coalescer.flight n).value = none →
    ∃ k, b.key? i = some k ∧ (k, n) ∈ b.coalescer.slots
  coalescer : b.coalescer.Sound
  /-- Whoever has returned a value without doing the work has it from a task of the same key. -/
  followed : ∀ i v, b.phase i = .returned .follower v →
    ∃ j, b.phase j = .returned .leader v ∧ b.key? i = b.key? j

/-- What all tasks share has nothing to do with it. -/
theorem Sound.share (h : b.Sound) (s : σ) : ({ b with shared := s } : Batch σ κ ν).Sound where
  fresh := h.fresh
  open_ n hv :=
    have ho := h.open_ n hv
    ⟨ho.nodup, ho.mem_iff, ho.queue_eq_nil, ho.awake, ho.waiting⟩
  settled n v hv :=
    have hs := h.settled n v hv
    ⟨hs.waiting, hs.leader⟩
  slot := h.slot
  coalescer := h.coalescer
  followed := h.followed

/-! ## 3. What a move leaves alone -/

namespace Moved

variable {m : Nat}

theorem key (h : Moved i p woken b b') (j : Nat) : b'.key? j = b.key? j := by
  unfold key?
  rw [h.job]

theorem on_of_ne (h : Moved i p woken b b') (hj : j ≠ i) : b'.On j m ↔ b.On j m := by
  unfold On
  rw [h.other j hj]

theorem on_self (h : Moved i p woken b b') : b'.On i m ↔ flightOf? p = some m := by
  unfold On
  rw [h.self]

theorem awake_of_awake (h : Moved i p woken b b') (hj : j ≠ i) (ha : b.isAwake j = true) :
    b'.isAwake j = true := (h.awake j hj).2 (.inl ha)

/-- Who has returned stays so. -/
theorem returned_of_returned (h : Moved i p woken b b') {r : Role}
    (hi : ∀ r v, b.phase i ≠ .returned r v) (hj : b.phase j = .returned r v) :
    b'.phase j = .returned r v := by
  have hne : j ≠ i := fun he => hi r v (he ▸ hj)
  rw [h.other j hne, hj]

end Moved

namespace Rest

theorem phase_eq (r : Rest i b b') (j : Nat) : b'.phase j = b.phase j := by
  by_cases hj : j = i
  · rw [hj, r.moved.self]
  · exact r.moved.other j hj

theorem on_iff (r : Rest i b b') : b'.On j n ↔ b.On j n := by
  unfold On
  rw [r.phase_eq]

/-- Who falls asleep is in the queue of a flight without value. -/
theorem awake_of_awake (r : Rest i b b') (ha : b.isAwake j = true)
    (hq : ∀ n, b.phase j = .waiting n → (b.coalescer.flight n).value = none →
      j ∉ (b.coalescer.flight n).queue) : b'.isAwake j = true := by
  by_cases hj : j = i
  · subst hj
    rcases r.awake ha with ha | ⟨n, hw, hv, hin⟩
    · exact ha
    · exact absurd hin (hq n hw hv)
  · exact r.moved.awake_of_awake hj ha

end Rest

theorem lt_of_on (h : b.On i n) : i < b.tasks.length := by
  refine lt_of_phase_ne fun hd => ?_
  unfold On at h
  rw [hd] at h
  cases h

/-- Who may do the work of a flight does not wait for it. -/
theorem OpenFlight.not_mem_queue (h : b.OpenFlight n)
    (hp : (b.coalescer.flight n).permit = some i) : i ∉ (b.coalescer.flight n).queue := by
  have hnd := h.nodup
  unfold Flight.line at hnd
  rw [hp] at hnd
  exact (List.nodup_cons.1 hnd).1

/-- A flight that a task is not in, before and after its move. -/
theorem OpenFlight.frame (h : b.OpenFlight n) (hm : Moved i p woken b b')
    (hf : b'.coalescer.flight n = b.coalescer.flight n) (hwas : ¬ b.On i n)
    (hp : flightOf? p ≠ some n) : b'.OpenFlight n := by
  have hi : i ∉ (b.coalescer.flight n).line := fun hl => hwas ((h.mem_iff i).1 hl)
  constructor
  · rw [hf]
    exact h.nodup
  · intro j
    rw [hf, h.mem_iff]
    by_cases hj : j = i
    · subst hj
      rw [hm.on_self]
      exact ⟨fun hl => absurd hl hwas, fun hl => absurd hl hp⟩
    · exact (hm.on_of_ne hj).symm
  · rw [hf]
    exact h.queue_eq_nil
  · intro j hj
    rw [hf] at hj
    have hne : j ≠ i := fun he => hi (Flight.mem_line_iff.2 (.inl (he ▸ hj)))
    exact hm.awake_of_awake hne (h.awake j hj)
  · intro j hj
    rw [hf] at hj
    have hne : j ≠ i := fun he => hi (Flight.mem_line_iff.2 (.inr (he ▸ hj)))
    rw [hm.other j hne]
    exact h.waiting j hj

/-- A flight with a value that a task leaves, or that it was not in. -/
theorem SettledFlight.frame (h : b.SettledFlight n v) (hm : Moved i p woken b b')
    (hi : ∀ r v, b.phase i ≠ .returned r v) (hp : flightOf? p ≠ some n) :
    b'.SettledFlight n v := by
  have hne : ∀ j, b'.On j n → j ≠ i := fun j hj he => hp (hm.on_self.1 (he ▸ hj))
  obtain ⟨l, hl, hkey⟩ := h.leader
  refine ⟨fun j hj => ?_, l, hm.returned_of_returned hi hl, fun j hj => ?_⟩
  · obtain ⟨hw, ha⟩ := h.waiting j ((hm.on_of_ne (hne j hj)).1 hj)
    exact ⟨(hm.other j (hne j hj)).trans hw, hm.awake_of_awake (hne j hj) ha⟩
  · rw [hm.key, hm.key]
    exact hkey j ((hm.on_of_ne (hne j hj)).1 hj)

/-- The first in a line does not fall asleep. -/
theorem OpenFlight.rest (h : b.OpenFlight n) (r : Rest i b b') : b'.OpenFlight n := by
  constructor
  · rw [r.coalescer]
    exact h.nodup
  · intro j
    rw [r.coalescer, r.on_iff]
    exact h.mem_iff j
  · rw [r.coalescer]
    exact h.queue_eq_nil
  · intro j hj
    rw [r.coalescer] at hj
    refine r.awake_of_awake (h.awake j hj) fun m hw _ hq => ?_
    have hjn : b.On j n := (h.mem_iff j).1 (Flight.mem_line_iff.2 (.inl hj))
    obtain rfl : m = n := Option.some.inj ((on_of_waiting hw).symm.trans hjn)
    exact h.not_mem_queue hj hq
  · intro j hj
    rw [r.coalescer] at hj
    rw [r.phase_eq]
    exact h.waiting j hj

theorem SettledFlight.rest (h : b.SettledFlight n v) (hv : (b.coalescer.flight n).value = some v)
    (r : Rest i b b') : b'.SettledFlight n v := by
  obtain ⟨l, hl, hk⟩ := h.leader
  refine ⟨fun j hj => ?_, l, by rw [r.phase_eq, hl], fun j hj => ?_⟩
  · obtain ⟨hw, ha⟩ := h.waiting j (r.on_iff.1 hj)
    refine ⟨by rw [r.phase_eq, hw], r.awake_of_awake ha fun m hw' hv' => ?_⟩
    cases hw.symm.trans hw'
    exact nomatch hv.symm.trans hv'
  · rw [r.moved.key, r.moved.key]
    exact hk j (r.on_iff.1 hj)

namespace Sound

variable {k : κ} {m : Nat}

/-- A task that works may do so, on a flight without value. -/
theorem of_working (h : b.Sound) {q : Nat} (hw : b.phase i = .working n q) :
    (b.coalescer.flight n).value = none ∧ (b.coalescer.flight n).permit = some i := by
  have hon := on_of_working hw
  cases hv : (b.coalescer.flight n).value with
  | some v =>
    have hwait := ((h.settled n v hv).waiting i hon).1
    rw [hw] at hwait
    cases hwait
  | none =>
    have ho := h.open_ n hv
    rcases Flight.mem_line_iff.1 ((ho.mem_iff i).2 hon) with hp | hq
    · exact ⟨rfl, hp⟩
    · have hwait := ho.waiting i hq
      rw [hw] at hwait
      cases hwait

/-- Who is in the line of a flight that another task may do the work of waits. -/
theorem mem_queue_of_waiting (h : b.Sound) (hw : b.phase i = .waiting n)
    (hv : (b.coalescer.flight n).value = none) (hp : (b.coalescer.flight n).permit ≠ some i) :
    i ∈ (b.coalescer.flight n).queue := by
  exact (Flight.mem_line_iff.1 (((h.open_ n hv).mem_iff i).2 (on_of_waiting hw))).resolve_left hp

theorem lt_of_on (h : b.Sound) (hon : b.On i n) : n < b.coalescer.flights.length := by
  cases hv : (b.coalescer.flight n).value with
  | none =>
    obtain ⟨k, -, hs⟩ := h.slot i n hon hv
    exact (h.coalescer.open_ k n hs).1
  | some v =>
    refine Nat.lt_of_not_le fun hle => ?_
    rw [Coalescer.flight_of_le hle] at hv
    cases hv

/-- Tasks of one flight have one key. -/
theorem key_eq_of_on (h : b.Sound) (hi : b.On i n) (hj : b.On j n) : b.key? i = b.key? j := by
  cases hv : (b.coalescer.flight n).value with
  | some v =>
    obtain ⟨l, -, hl⟩ := (h.settled n v hv).leader
    exact (hl i hi).trans (hl j hj).symm
  | none =>
    obtain ⟨k, hk, hs⟩ := h.slot i n hi hv
    obtain ⟨k', hk', hs'⟩ := h.slot j n hj hv
    rw [hk, hk', h.coalescer.key_of_number hs hs']

/-- Tasks of one key that take part in flights without value are in the same one. -/
theorem flight_eq_of_key (h : b.Sound) (hk : b.key? i = b.key? j) (hi : b.On i n) (hj : b.On j m)
    (hvn : (b.coalescer.flight n).value = none) (hvm : (b.coalescer.flight m).value = none) :
    n = m := by
  obtain ⟨k, hki, hs⟩ := h.slot i n hi hvn
  obtain ⟨k', hkj, hs'⟩ := h.slot j m hj hvm
  obtain rfl : k = k' := Option.some.inj (hki.symm.trans (hk.trans hkj))
  exact h.coalescer.number_of_key hs hs'

/-- **Of one key, at most one task works.** -/
theorem eq_of_working (h : b.Sound) (hk : b.key? i = b.key? j) {q q' : Nat}
    (hi : b.phase i = .working n q) (hj : b.phase j = .working m q') : i = j := by
  obtain ⟨hvn, hpn⟩ := h.of_working hi
  obtain ⟨hvm, hpm⟩ := h.of_working hj
  have hnm : n = m := h.flight_eq_of_key hk (on_of_working hi) (on_of_working hj) hvn hvm
  subst hnm
  exact Option.some.inj (hpn.symm.trans hpm)

end Sound

/-! ## 4. Moves keep it -/

namespace Sound

variable {job : Job σ κ ν} {m : Nat} {k : κ}

/-- Of the tasks, only the one that has moved can have begun to wait, or have followed. -/
theorem fresh_of_moved (h : b.Sound) (hm : Moved i p woken b b') (hp : p ≠ .fresh) :
    ∀ j, b'.phase j = .fresh → b'.isAwake j = true := by
  intro j hj
  have hne : j ≠ i := fun he => hp (by rw [← hm.self, ← he, hj])
  exact hm.awake_of_awake hne (h.fresh j ((hm.other j hne).symm.trans hj))

theorem followed_of_moved (h : b.Sound) (hm : Moved i p woken b b')
    (hi : ∀ r v, b.phase i ≠ .returned r v)
    (hp : ∀ v, p = .returned .follower v →
      ∃ l, b.phase l = .returned .leader v ∧ b.key? i = b.key? l) :
    ∀ j v, b'.phase j = .returned .follower v →
      ∃ l, b'.phase l = .returned .leader v ∧ b'.key? j = b'.key? l := by
  intro j v hj
  have hleader : ∃ l, b.phase l = .returned .leader v ∧ b.key? j = b.key? l := by
    by_cases hne : j = i
    · subst hne
      exact hp v (hm.self.symm.trans hj)
    · exact h.followed j v ((hm.other j hne).symm.trans hj)
  obtain ⟨l, hl, hk⟩ := hleader
  exact ⟨l, hm.returned_of_returned hi hl, by rw [hm.key, hm.key, hk]⟩

/-- A move that leaves the flights alone. -/
theorem aside (h : b.Sound) (hm : Moved i p [] b b') (hc : b'.coalescer = b.coalescer)
    (hi : ∀ r v, b.phase i ≠ .returned r v) (hp : p ≠ .fresh)
    (hopen : ∀ n, (b.coalescer.flight n).value = none → b.On i n → b'.OpenFlight n)
    (hon : ∀ n, flightOf? p = some n → b.On i n ∧ (b.coalescer.flight n).value = none)
    (hfollow : ∀ v, p = .returned .follower v →
      ∃ l, b.phase l = .returned .leader v ∧ b.key? i = b.key? l) : b'.Sound where
  fresh := h.fresh_of_moved hm hp
  open_ n hv := by
    rw [hc] at hv
    by_cases hwas : b.On i n
    · exact hopen n hv hwas
    · exact (h.open_ n hv).frame hm (by rw [hc]) hwas fun hn => hwas (hon n hn).1
  settled n v hv := by
    rw [hc] at hv
    refine (h.settled n v hv).frame hm hi fun hn => ?_
    rw [(hon n hn).2] at hv
    cases hv
  slot j n hj hv := by
    rw [hc] at hv ⊢
    rw [hm.key]
    by_cases hne : j = i
    · subst hne
      exact h.slot j n (hon n (hm.on_self.1 hj)).1 hv
    · exact h.slot j n ((hm.on_of_ne hne).1 hj) hv
  coalescer := by
    rw [hc]
    exact h.coalescer
  followed := h.followed_of_moved hm hi hfollow

/-- The task that does the work of a flight goes on with it. -/
theorem work (h : b.Sound) (hon : b.On i n) (hv : (b.coalescer.flight n).value = none)
    (hpermit : (b.coalescer.flight n).permit = some i) (hi : ∀ r v, b.phase i ≠ .returned r v)
    {q : Nat} (hm : Moved i (.working n q) [] b b') (hc : b'.coalescer = b.coalescer)
    (ha : b'.isAwake i = true) : b'.Sound := by
  refine h.aside hm hc hi nofun (fun n' _ hn' => ?_) (fun n' hn' => ?_) nofun
  · obtain rfl : n' = n := Option.some.inj (hn'.symm.trans hon)
    have ho := h.open_ n' hv
    have hq := ho.not_mem_queue hpermit
    refine ⟨by rw [hc]; exact ho.nodup, fun j => ?_, by rw [hc]; exact ho.queue_eq_nil,
      fun j hj => ?_, fun j hj => ?_⟩
    · rw [hc, ho.mem_iff]
      by_cases hne : j = i
      · subst hne
        exact iff_of_true hon (hm.on_self.2 rfl)
      · exact (hm.on_of_ne hne).symm
    · rw [hc, hpermit] at hj
      cases hj
      exact ha
    · rw [hc] at hj
      rw [hm.other j fun he => hq (he ▸ hj)]
      exact ho.waiting j hj
  · cases hn'
    exact ⟨hon, hv⟩

/-- All flights after a move that is about flight `n` alone. -/
theorem flights (h : b.Sound) (hm : Moved i p woken b b') (hi : ∀ r v, b.phase i ≠ .returned r v)
    (hf : ∀ m, m ≠ n → b'.coalescer.flight m = b.coalescer.flight m)
    (hwas : ∀ m, m ≠ n → ¬ b.On i m) (hnow : ∀ m, m ≠ n → flightOf? p ≠ some m)
    (hopen : (b'.coalescer.flight n).value = none → b'.OpenFlight n)
    (hsettled : ∀ v, (b'.coalescer.flight n).value = some v → b'.SettledFlight n v) :
    (∀ m, (b'.coalescer.flight m).value = none → b'.OpenFlight m) ∧
      ∀ m v, (b'.coalescer.flight m).value = some v → b'.SettledFlight m v := by
  refine ⟨fun m hv => ?_, fun m v hv => ?_⟩
  · by_cases hne : m = n
    · rw [hne] at hv ⊢
      exact hopen hv
    · rw [hf m hne] at hv
      exact (h.open_ m hv).frame hm (hf m hne) (hwas m hne) (hnow m hne)
  · by_cases hne : m = n
    · rw [hne] at hv ⊢
      exact hsettled v hv
    · rw [hf m hne] at hv
      exact (h.settled m v hv).frame hm hi (hnow m hne)

/-- A flight whose line has one task more, at its end. -/
theorem openFlight_enter (h : b.OpenFlight n) (hm : Moved i (.waiting n) [] b b')
    (ha : (b.coalescer.flight n).permit = none → b'.isAwake i = true) (hi : ¬ b.On i n)
    (hf : b'.coalescer.flight n = (b.coalescer.flight n).enter i) : b'.OpenFlight n := by
  have hnew : i ∉ (b.coalescer.flight n).line := fun hl => hi ((h.mem_iff i).1 hl)
  constructor
  · rw [hf, Flight.line_enter h.queue_eq_nil, List.nodup_append]
    exact ⟨h.nodup, List.nodup_singleton i, fun j hj k hk he =>
      hnew (List.mem_singleton.1 hk ▸ he ▸ hj)⟩
  · intro j
    rw [hf, Flight.line_enter h.queue_eq_nil, List.mem_append, List.mem_singleton, h.mem_iff]
    by_cases hj : j = i
    · subst hj
      exact iff_of_true (.inr rfl) (hm.on_self.2 rfl)
    · rw [hm.on_of_ne hj]
      exact or_iff_left hj
  · intro hp
    rw [hf] at hp
    exact absurd hp (Flight.permit_enter_ne _ i)
  · intro j hj
    rw [hf] at hj
    rcases Flight.permit_of_permit_enter hj with ⟨hp, he⟩ | hp
    · rw [he]
      exact ha hp
    · have hne : j ≠ i := fun he => hnew (Flight.mem_line_iff.2 (.inl (he ▸ hp)))
      exact hm.awake_of_awake hne (h.awake j hp)
  · intro j hj
    rw [hf] at hj
    by_cases hne : j = i
    · rw [hne]
      exact hm.self
    · rw [hm.other j hne]
      exact h.waiting j ((Flight.mem_queue_of_mem_enter hj).resolve_left hne)

/-- A flight whose line a task has left. -/
theorem openFlight_leave (h : b.OpenFlight n)
    (hm : Moved i .dropped ((b.coalescer.flight n).leave i).2 b b')
    (hf : b'.coalescer.flight n = ((b.coalescer.flight n).leave i).1) : b'.OpenFlight n := by
  have hmem : ∀ j, j ∈ (b'.coalescer.flight n).line ↔ j ≠ i ∧ j ∈ (b.coalescer.flight n).line := by
    intro j
    rw [hf, Flight.line_leave, h.nodup.mem_erase_iff]
  constructor
  · rw [hf, Flight.line_leave]
    exact h.nodup.erase i
  · intro j
    rw [hmem, h.mem_iff]
    by_cases hj : j = i
    · subst hj
      exact iff_of_false (fun hl => hl.1 rfl) fun hl => nomatch hm.on_self.1 hl
    · rw [hm.on_of_ne hj]
      exact and_iff_right hj
  · intro hp
    rw [hf] at hp ⊢
    exact Flight.queue_leave_eq_nil h.queue_eq_nil hp
  · intro j hj
    obtain ⟨hne, hl⟩ := (hmem j).1 (Flight.mem_line_iff.2 (.inl hj))
    rw [hf] at hj
    rw [hm.awake j hne]
    rcases Flight.permit_leave hj with ⟨hp, -⟩ | hw
    · exact .inl (h.awake j hp)
    · exact .inr ⟨hw, Batch.lt_of_on ((h.mem_iff j).1 hl)⟩
  · intro j hj
    obtain ⟨hne, -⟩ := (hmem j).1 (Flight.mem_line_iff.2 (.inr hj))
    rw [hf] at hj
    rw [hm.other j hne]
    exact h.waiting j (Flight.queue_leave_subset _ i hj)

/-- A flight whose work is done. -/
theorem settledFlight_complete (h : b.Sound) {q : Nat} (hw : b.phase i = .working n q)
    (hm : Moved i (.returned .leader v) (b.coalescer.flight n).queue b b') :
    b'.SettledFlight n v := by
  obtain ⟨hv, hp⟩ := h.of_working hw
  have ho := h.open_ n hv
  have hon := on_of_working hw
  have hne : ∀ j, b'.On j n → j ≠ i := fun j hj he => nomatch hm.on_self.1 (he ▸ hj)
  refine ⟨fun j hj => ?_, i, hm.self, fun j hj => ?_⟩
  · have hj' := (hm.on_of_ne (hne j hj)).1 hj
    have hq : j ∈ (b.coalescer.flight n).queue := by
      refine (Flight.mem_line_iff.1 ((ho.mem_iff j).2 hj')).resolve_left fun hpj => hne j hj ?_
      exact Option.some.inj (hpj.symm.trans hp)
    refine ⟨(hm.other j (hne j hj)).trans (ho.waiting j hq), ?_⟩
    exact (hm.awake j (hne j hj)).2 (.inr ⟨hq, Batch.lt_of_on hj'⟩)
  · rw [hm.key, hm.key]
    exact h.key_eq_of_on ((hm.on_of_ne (hne j hj)).1 hj) hon

theorem flight_leave (h : b.Sound) (was : b.On i n)
    (hc : b'.coalescer = b.coalescer.set n ((b.coalescer.flight n).leave i).1) (m : Nat) :
    b'.coalescer.flight m =
      if m = n then ((b.coalescer.flight n).leave i).1 else b.coalescer.flight m := by
  rw [hc, Coalescer.flight_set (h.lt_of_on was)]

theorem leave (h : b.Sound) (was : b.On i n)
    (hm : Moved i .dropped ((b.coalescer.flight n).leave i).2 b b')
    (hc : b'.coalescer = b.coalescer.set n ((b.coalescer.flight n).leave i).1) : b'.Sound := by
  have hi : ∀ r v, b.phase i ≠ .returned r v := fun r v he => by
    unfold On at was
    rw [he] at was
    cases was
  have hf := h.flight_leave was hc
  have hfn : b'.coalescer.flight n = ((b.coalescer.flight n).leave i).1 := (hf n).trans (if_pos rfl)
  have hvn : (b'.coalescer.flight n).value = (b.coalescer.flight n).value := by
    rw [hfn, Flight.value_leave]
  obtain ⟨hopen, hsettled⟩ := h.flights hm hi (fun m hne => (hf m).trans (if_neg hne))
    (fun m hne ho => hne (Option.some.inj (ho.symm.trans was))) (fun _ _ => nofun)
    (fun hv => openFlight_leave (h.open_ n (hvn.symm.trans hv)) hm hfn)
    (fun w hv => (h.settled n w (hvn.symm.trans hv)).frame hm hi nofun)
  refine ⟨h.fresh_of_moved hm nofun, hopen, hsettled, fun j m hj hvm => ?_, ?_,
    h.followed_of_moved hm hi nofun⟩
  · have hji : j ≠ i := fun he => nomatch hm.on_self.1 (he ▸ hj)
    have hold : (b.coalescer.flight m).value = none := by
      by_cases he : m = n
      · rw [he, ← hvn, ← he, hvm]
      · rw [← hvm, hf, if_neg he]
    rw [hc, hm.key]
    exact h.slot j m ((hm.on_of_ne hji).1 hj) hold
  · rw [hc]
    exact h.coalescer.set (h.lt_of_on was) (Flight.value_leave ..)

/-- What always holds is kept by staying. -/
theorem rest (h : b.Sound) (r : Rest i b b') : b'.Sound where
  fresh j hj := by
    rw [r.phase_eq] at hj
    exact r.awake_of_awake (h.fresh j hj) fun n hw => nomatch hj.symm.trans hw
  open_ n hv := by
    rw [r.coalescer] at hv
    exact (h.open_ n hv).rest r
  settled n v hv := by
    rw [r.coalescer] at hv
    exact (h.settled n v hv).rest hv r
  slot j n hj hv := by
    rw [r.coalescer] at hv ⊢
    rw [r.moved.key]
    exact h.slot j n (r.on_iff.1 hj) hv
  coalescer := by
    rw [r.coalescer]
    exact h.coalescer
  followed j v hj := by
    rw [r.phase_eq] at hj
    obtain ⟨l, hl, hk⟩ := h.followed j v hj
    exact ⟨l, by rw [r.phase_eq, hl], by rw [r.moved.key, r.moved.key, hk]⟩

variable [BEq κ]

theorem flight_complete (h : b.Sound) {q : Nat} (was : b.phase i = .working n q)
    (hc : b'.coalescer = (b.coalescer.set n ((b.coalescer.flight n).settle v).1).close k n)
    (m : Nat) : b'.coalescer.flight m =
      if m = n then ((b.coalescer.flight n).settle v).1 else b.coalescer.flight m := by
  rw [hc, Coalescer.flight_close, Coalescer.flight_set (h.lt_of_on (on_of_working was))]

variable [LawfulBEq κ]

/-- The flight that a key leads to has no value. -/
theorem open_of_join (h : b.Sound) (number : (b.coalescer.join k).2 = n) :
    n < (b.coalescer.join k).1.flights.length ∧ (b.coalescer.flight n).value = none := by
  have hopen := (h.coalescer.join k).open_ _ _ (b.coalescer.mem_slots_join k)
  rwa [Coalescer.flight_join, number] at hopen

theorem flight_enter (h : b.Sound) (number : (b.coalescer.join k).2 = n)
    (hc : b'.coalescer = (b.coalescer.join k).1.set n ((b.coalescer.flight n).enter i)) (m : Nat) :
    b'.coalescer.flight m =
      if m = n then (b.coalescer.flight n).enter i else b.coalescer.flight m := by
  rw [hc, Coalescer.flight_set (h.open_of_join number).1, Coalescer.flight_join]

theorem enter (h : b.Sound) (own : b.job? i = some job) (was : b.phase i = .fresh)
    (number : (b.coalescer.join job.key).2 = n) (hm : Moved i (.waiting n) [] b b')
    (awake : (b.coalescer.flight n).permit = none → b'.isAwake i = true)
    (hc : b'.coalescer = (b.coalescer.join job.key).1.set n ((b.coalescer.flight n).enter i)) :
    b'.Sound := by
  have hi : ∀ r v, b.phase i ≠ .returned r v := fun r v he => nomatch was.symm.trans he
  have hoff := not_on_of_fresh was
  obtain ⟨hlt, hv⟩ := h.open_of_join number
  have hf := h.flight_enter number hc
  have hfn : b'.coalescer.flight n = (b.coalescer.flight n).enter i := (hf n).trans (if_pos rfl)
  have hvn : (b'.coalescer.flight n).value = none := by rw [hfn, Flight.value_enter, hv]
  obtain ⟨hopen, hsettled⟩ := h.flights hm hi (fun m hne => (hf m).trans (if_neg hne))
    (fun m _ => hoff m) (fun m hne he => hne (Option.some.inj he).symm)
    (fun _ => openFlight_enter (h.open_ n hv) hm awake (hoff n) hfn)
    (fun w hw => nomatch hvn.symm.trans hw)
  refine ⟨h.fresh_of_moved hm nofun, hopen, hsettled, fun j m hj hvm => ?_, ?_,
    h.followed_of_moved hm hi nofun⟩
  · rw [show b'.coalescer.slots = (b.coalescer.join job.key).1.slots from hc ▸ rfl, hm.key]
    by_cases hne : j = i
    · subst hne
      obtain rfl : n = m := Option.some.inj (hm.on_self.1 hj)
      refine ⟨job.key, ?_, number ▸ b.coalescer.mem_slots_join job.key⟩
      unfold key?
      rw [own]
      rfl
    · have hold : (b.coalescer.flight m).value = none := by
        by_cases he : m = n
        · rw [he]
          exact hv
        · rw [← hvm, hf, if_neg he]
      obtain ⟨k, hk, hs⟩ := h.slot j m ((hm.on_of_ne hne).1 hj) hold
      exact ⟨k, hk, b.coalescer.slots_subset_join job.key hs⟩
  · rw [hc]
    exact (h.coalescer.join job.key).set hlt (by rw [Flight.value_enter, Coalescer.flight_join])

theorem complete (h : b.Sound) (own : b.job? i = some job) {q : Nat}
    (was : b.phase i = .working n q)
    (hm : Moved i (.returned .leader v) (b.coalescer.flight n).queue b b')
    (hc : b'.coalescer =
      (b.coalescer.set n ((b.coalescer.flight n).settle v).1).close job.key n) : b'.Sound := by
  have hi : ∀ r w, b.phase i ≠ .returned r w := fun r w he => nomatch was.symm.trans he
  have hon := on_of_working was
  obtain ⟨hv, -⟩ := h.of_working was
  obtain ⟨k, hk, hs⟩ := h.slot i n hon hv
  have hkey : k = job.key := by
    unfold key? at hk
    rw [own] at hk
    exact (Option.some.inj hk).symm
  subst hkey
  have hf := h.flight_complete was hc
  have hvn : (b'.coalescer.flight n).value = some v := by
    rw [hf, if_pos rfl]
    rfl
  obtain ⟨hopen, hsettled⟩ := h.flights hm hi (fun m hne => (hf m).trans (if_neg hne))
    (fun m hne ho => hne (Option.some.inj (ho.symm.trans hon))) (fun _ _ => nofun)
    (fun hw => nomatch hvn.symm.trans hw)
    (fun w hw => Option.some.inj (hvn.symm.trans hw) ▸ h.settledFlight_complete was hm)
  refine ⟨h.fresh_of_moved hm nofun, hopen, hsettled, fun j m hj hvm => ?_, ?_,
    h.followed_of_moved hm hi nofun⟩
  · have hne : m ≠ n := by
      rintro rfl
      rw [hvn] at hvm
      cases hvm
    have hji : j ≠ i := fun he => nomatch hm.on_self.1 (he ▸ hj)
    rw [hf, if_neg hne] at hvm
    obtain ⟨k, hk, hs'⟩ := h.slot j m ((hm.on_of_ne hji).1 hj) hvm
    rw [hc, hm.key]
    exact ⟨k, hk, Coalescer.mem_close_iff.2 ⟨hs', fun he => hne he.2⟩⟩
  · rw [hc]
    exact h.coalescer.close hs _

/-- **What always holds is kept by every move.** -/
theorem move (h : b.Sound) (m : Move i b b') : b'.Sound := by
  cases m with
  | found own was look moved coalescer shared =>
    exact h.aside moved coalescer (fun r v he => nomatch was.symm.trans he) nofun
      (fun n _ hon => absurd hon (not_on_of_fresh was n)) nofun nofun
  | enter own was look number moved awake coalescer shared =>
    exact h.enter own was number moved awake coalescer
  | @follow _ n v own was value moved coalescer shared =>
    have hon := on_of_waiting was
    refine h.aside moved coalescer (fun r w he => nomatch was.symm.trans he) nofun
      (fun n' hv hon' => ?_) nofun fun w hw => ?_
    · obtain rfl : n' = n := Option.some.inj (hon'.symm.trans hon)
      rw [value] at hv
      cases hv
    · cases hw
      obtain ⟨l, hl, hk⟩ := (h.settled n v value).leader
      exact ⟨l, hl, hk i hon⟩
  | begin own was value permit moved awake coalescer shared =>
    exact h.work (on_of_waiting was) value permit (fun r v he => nomatch was.symm.trans he)
      moved coalescer awake
  | pause was less moved awake coalescer shared =>
    obtain ⟨hv, hp⟩ := h.of_working was
    exact h.work (on_of_working was) hv hp (fun r v he => nomatch was.symm.trans he)
      moved coalescer awake
  | complete own was value moved coalescer shared => exact h.complete own was moved coalescer
  | leave was moved coalescer shared => exact h.leave was moved coalescer
  | forgo was moved coalescer shared =>
    exact h.aside moved coalescer (fun r v he => nomatch was.symm.trans he) nofun
      (fun n _ hon => absurd hon (not_on_of_fresh was n)) nofun nofun

end Sound

variable [BEq κ]

/-- A move is one of a task that is neither returned nor dropped. -/
theorem Move.live (m : Move i b b') :
    b.phase i ≠ .dropped ∧ ∀ r v, b.phase i ≠ .returned r v := by
  have hne : b.phase i = .fresh ∨ ∃ n, b.On i n := by
    cases m with
    | found own was => exact .inl was
    | enter own was => exact .inl was
    | follow own was => exact .inr ⟨_, on_of_waiting was⟩
    | begin own was => exact .inr ⟨_, on_of_waiting was⟩
    | pause was => exact .inr ⟨_, on_of_working was⟩
    | complete own was => exact .inr ⟨_, on_of_working was⟩
    | leave was => exact .inr ⟨_, was⟩
    | forgo was => exact .inl was
  unfold On at hne
  refine ⟨fun hd => ?_, fun r v hr => ?_⟩
  · rw [hd] at hne
    rcases hne with hf | ⟨n, ho⟩
    · cases hf
    · cases ho
  · rw [hr] at hne
    rcases hne with hf | ⟨n, ho⟩
    · cases hf
    · cases ho

theorem Move.moved (m : Move i b b') : ∃ p woken, Moved i p woken b b' := by
  cases m with
  | found own was look moved => exact ⟨_, _, moved⟩
  | enter own was look number moved => exact ⟨_, _, moved⟩
  | follow own was value moved => exact ⟨_, _, moved⟩
  | begin own was value permit moved => exact ⟨_, _, moved⟩
  | pause was less moved => exact ⟨_, _, moved⟩
  | complete own was value moved => exact ⟨_, _, moved⟩
  | leave was moved => exact ⟨_, _, moved⟩
  | forgo was moved => exact ⟨_, _, moved⟩

variable [LawfulBEq κ]

/-- Flights under a move of another task: one without value stays that of the task that may do its
work, unless it gets its value. -/
theorem Move.permit_of_ne (m : Move i b b') (h : b.Sound) (hj : j ≠ i)
    (hp : (b.coalescer.flight n).permit = some j) :
    (b'.coalescer.flight n).permit = some j ∨ (b'.coalescer.flight n).value ≠ none := by
  cases m with
  | enter own was look number moved awake coalescer shared =>
    rw [h.flight_enter number coalescer]
    split
    · rename_i he
      rw [he] at hp
      refine .inl ?_
      unfold Flight.enter
      rw [hp]
    · exact .inl hp
  | complete own was value moved coalescer shared =>
    rw [h.flight_complete was coalescer]
    split
    · exact .inr (Option.some_ne_none _)
    · exact .inl hp
  | leave was moved coalescer shared =>
    rw [h.flight_leave was coalescer]
    split
    · rename_i he
      rw [he] at hp
      refine .inl ?_
      unfold Flight.leave
      rw [if_neg (by rw [hp]; simpa using hj)]
      exact hp
    · exact .inl hp
  | found own was look moved coalescer shared => rw [coalescer]; exact .inl hp
  | follow own was value moved coalescer shared => rw [coalescer]; exact .inl hp
  | begin own was value permit moved awake coalescer shared => rw [coalescer]; exact .inl hp
  | pause was less moved awake coalescer shared => rw [coalescer]; exact .inl hp
  | forgo was moved coalescer shared => rw [coalescer]; exact .inl hp

/-- A value stays, and a new one comes with the end of the work of a flight. -/
theorem Move.value_eq (m : Move i b b') (h : b.Sound) (n : Nat) :
    (b'.coalescer.flight n).value = (b.coalescer.flight n).value ∨
      ∃ q v, b.phase i = .working n q ∧ b'.phase i = .returned .leader v ∧
        (b'.coalescer.flight n).value = some v := by
  cases m with
  | enter own was look number moved awake coalescer shared =>
    rw [h.flight_enter number coalescer]
    split
    · rename_i he
      rw [he, Flight.value_enter]
      exact .inl rfl
    · exact .inl rfl
  | complete own was value moved coalescer shared =>
    rw [h.flight_complete was coalescer]
    split
    · rename_i he
      rw [he]
      exact .inr ⟨_, _, was, moved.self, rfl⟩
    · exact .inl rfl
  | leave was moved coalescer shared =>
    rw [h.flight_leave was coalescer]
    split
    · rename_i he
      rw [he, Flight.value_leave]
      exact .inl rfl
    · exact .inl rfl
  | found own was look moved coalescer shared => rw [coalescer]; exact .inl rfl
  | follow own was value moved coalescer shared => rw [coalescer]; exact .inl rfl
  | begin own was value permit moved awake coalescer shared => rw [coalescer]; exact .inl rfl
  | pause was less moved awake coalescer shared => rw [coalescer]; exact .inl rfl
  | forgo was moved coalescer shared => rw [coalescer]; exact .inl rfl

end Batch

end EdgeInclude

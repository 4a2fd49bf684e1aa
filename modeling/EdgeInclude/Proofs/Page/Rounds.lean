import EdgeInclude.Proofs.Page.Schedule
import Mathlib.Algebra.Order.BigOperators.Group.List
import Mathlib.Algebra.Order.Ring.Nat

/-!
# Rounds come to an end

Every move of a task makes it lighter, and as long as there is a task that has neither returned nor
been dropped, the next round moves one.

* `Batch.start`, `Batch.sound_start` — tasks of which none has begun.
* `Batch.weight`, `Batch.Move.weight_lt` — every move costs weight.
* `Batch.Sound.exists_eager` — no task waits for a value that nobody works for.
* `Batch.weight_start_le` — the bound on the rounds of a batch is enough.
* `Batch.ended_rounds` — after enough rounds, every task has returned or been dropped.
-/

namespace EdgeInclude

namespace Batch

open Relation (TransGen)

variable {σ κ ν : Type} {b b' : Batch σ κ ν} {i j n : Nat} {p : Phase ν} {job : Job σ κ ν}
  {woken : List Nat}

/-! ## 1. The start -/

/-- Jobs of which none has begun. A job with the limit 0 is given up before it begins. -/
def start (s : σ) (jobs : List (Job σ κ ν × Option Nat)) : Batch σ κ ν :=
  ⟨.empty, s, jobs.map fun (job, limit) => Task.new job limit⟩

section Start

variable (s : σ) (jobs : List (Job σ κ ν × Option Nat))

theorem getElem?_tasks_start (i : Nat) :
    (start s jobs).tasks[i]? = jobs[i]?.map fun (job, limit) => Task.new job limit :=
  List.getElem?_map

theorem job?_start (i : Nat) : (start s jobs).job? i = jobs[i]?.map (·.1) := by
  unfold job?
  rw [getElem?_tasks_start, Option.map_map]
  rfl

theorem phase_start (i : Nat) :
    (start s jobs).phase i = .fresh ∧ (start s jobs).isAwake i = true ∨
      (start s jobs).phase i = .dropped := by
  unfold phase isAwake
  rw [getElem?_tasks_start]
  cases jobs[i]? with
  | none => exact .inr rfl
  | some entry =>
    obtain ⟨job, limit⟩ := entry
    show (if limit == some 0 then Phase.dropped else .fresh) = .fresh ∧ true = true ∨
      (if limit == some 0 then Phase.dropped else .fresh) = .dropped
    split
    · exact .inr rfl
    · exact .inl ⟨rfl, rfl⟩

theorem sound_start : (start s jobs).Sound := by
  have hoff : ∀ i n, ¬ (start s jobs).On i n := fun i n ho => by
    unfold On at ho
    rcases phase_start s jobs i with ⟨hp, -⟩ | hp
    · rw [hp] at ho
      cases ho
    · rw [hp] at ho
      cases ho
  have hnew : ∀ n, (start s jobs).coalescer.flight n = .new := fun n => rfl
  constructor
  · intro i hi
    rcases phase_start s jobs i with ⟨-, ha⟩ | hp
    · exact ha
    · exact nomatch hp.symm.trans hi
  · intro n _
    exact ⟨.nil, fun i => iff_of_false (by rw [hnew]; exact List.not_mem_nil) (hoff i n),
      fun _ => rfl, nofun, nofun⟩
  · exact fun n v hv => nomatch hv
  · exact fun i n ho => absurd ho (hoff i n)
  · exact ⟨nofun, .nil, .nil⟩
  · intro i v hi
    rcases phase_start s jobs i with ⟨hp, -⟩ | hp
    · exact nomatch hp.symm.trans hi
    · exact nomatch hp.symm.trans hi

end Start

/-! ## 2. Weights -/

/-- An upper bound of the number of moves that a task has still to make. -/
def weightOf (job : Job σ κ ν) : Phase ν → Nat
  | .fresh => job.pauses + 3
  | .waiting _ => job.pauses + 2
  | .working _ p => p + 1
  | .returned .. | .dropped => 0

def taskWeight (b : Batch σ κ ν) (i : Nat) : Nat :=
  match b.job? i with
  | some job => weightOf job (b.phase i)
  | none => 0

def weight (b : Batch σ κ ν) : Nat := ((List.range b.tasks.length).map b.taskWeight).sum

theorem taskWeight_of_job? (own : b.job? i = some job) :
    b.taskWeight i = weightOf job (b.phase i) := by
  unfold taskWeight
  rw [own]

theorem exists_job? (h : i < b.tasks.length) : ∃ job, b.job? i = some job := by
  unfold job?
  rw [List.getElem?_eq_getElem h]
  exact ⟨_, rfl⟩

theorem Moved.taskWeight_of_ne (h : Moved i p woken b b') (hj : j ≠ i) :
    b'.taskWeight j = b.taskWeight j := by
  unfold taskWeight
  rw [h.job, h.other j hj]

theorem Moved.weight_lt (h : Moved i p woken b b') (hi : i < b.tasks.length)
    (hlt : b'.taskWeight i < b.taskWeight i) : b'.weight < b.weight := by
  unfold weight
  rw [h.length]
  refine List.sum_lt_sum _ _ (fun j _ => ?_) ⟨i, List.mem_range.2 hi, hlt⟩
  by_cases hj : j = i
  · rw [hj]
    exact Nat.le_of_lt hlt
  · rw [h.taskWeight_of_ne hj]

/-- Staying costs nothing. -/
theorem Rest.weight_eq (r : Rest i b b') : b'.weight = b.weight := by
  unfold weight
  rw [r.moved.length]
  refine congrArg List.sum (List.map_congr_left fun j _ => ?_)
  unfold taskWeight
  rw [r.moved.job, r.phase_eq]

/-- **Every move costs weight.** -/
theorem Move.weight_lt [BEq κ] (m : Move i b b') : b'.weight < b.weight := by
  have hi : i < b.tasks.length := lt_of_phase_ne m.live.1
  obtain ⟨job, own⟩ := exists_job? hi
  have hw := taskWeight_of_job? own
  have hlight : ∀ {p : Phase ν} {woken : List Nat}, Moved i p woken b b' →
      weightOf job p < weightOf job (b.phase i) → b'.weight < b.weight := fun {p woken} hm hlt => by
    refine hm.weight_lt hi ?_
    rwa [hw, taskWeight_of_job? ((hm.job i).trans own), hm.self]
  cases m with
  | found own' was look moved => exact hlight moved (by rw [was]; exact Nat.succ_pos _)
  | enter own' was look number moved => exact hlight moved (by rw [was]; exact Nat.lt_succ_self _)
  | follow own' was value moved => exact hlight moved (by rw [was]; exact Nat.succ_pos _)
  | begin own' was value permit moved =>
    cases own.symm.trans own'
    exact hlight moved (by rw [was]; exact Nat.lt_succ_self _)
  | pause was less moved => exact hlight moved (by rw [was]; exact Nat.succ_lt_succ less)
  | complete own' was value moved => exact hlight moved (by rw [was]; exact Nat.succ_pos _)
  | leave was moved =>
    refine hlight moved ?_
    unfold On at was
    cases hp : b.phase i with
    | waiting n => exact Nat.succ_pos _
    | working n p => exact Nat.succ_pos _
    | fresh => exact Nat.succ_pos _
    | returned r v => rw [hp] at was; cases was
    | dropped => rw [hp] at was; cases was
  | forgo was moved => exact hlight moved (by rw [was]; exact Nat.succ_pos _)

theorem bound_eq (jobs : List (Job σ κ ν × Option Nat)) :
    bound (jobs.map (·.1)) = (jobs.map fun entry => entry.1.pauses + 3).sum + 1 := by
  induction jobs with
  | nil => rfl
  | cons entry rest ih =>
    unfold bound at ih ⊢
    rw [List.map_cons, List.foldr_cons, ih, List.map_cons, List.sum_cons]
    omega

/-- The weight of tasks that have not begun is within the bound on the rounds of a batch. -/
theorem weight_start_le (s : σ) (jobs : List (Job σ κ ν × Option Nat)) :
    (start s jobs).weight ≤ bound (jobs.map (·.1)) := by
  have htask : ∀ i, (start s jobs).taskWeight i ≤
      (jobs[i]?.map fun entry => entry.1.pauses + 3).getD 0 := by
    intro i
    unfold taskWeight
    rw [job?_start]
    cases jobs[i]? with
    | none => exact Nat.le_refl _
    | some entry =>
      show weightOf entry.1 _ ≤ entry.1.pauses + 3
      rcases phase_start s jobs i with ⟨hp, -⟩ | hp
      · rw [hp]
        exact Nat.le_refl _
      · rw [hp]
        exact Nat.zero_le _
  have hrange : (List.range jobs.length).map
      (fun i => (jobs[i]?.map fun entry => entry.1.pauses + 3).getD 0) =
      jobs.map fun entry => entry.1.pauses + 3 := by
    refine List.ext_getElem (by simp) fun i hi _ => ?_
    rw [List.length_map, List.length_range] at hi
    simp [List.getElem?_eq_getElem hi]
  have hbound := bound_eq jobs
  unfold weight
  have hlen : (start s jobs).tasks.length = jobs.length := List.length_map ..
  rw [hlen]
  calc ((List.range jobs.length).map (start s jobs).taskWeight).sum
      ≤ ((List.range jobs.length).map
          fun i => (jobs[i]?.map fun entry => entry.1.pauses + 3).getD 0).sum :=
        List.sum_le_sum fun i _ => htask i
    _ = (jobs.map fun entry => entry.1.pauses + 3).sum := by rw [hrange]
    _ ≤ bound (jobs.map (·.1)) := by omega

/-! ## 3. Eager tasks -/

/-- An eager task is awake. -/
theorem Sound.awake_of_eager (h : b.Sound) (he : b.Eager i) : b.isAwake i = true := by
  rcases he with hf | ⟨n, q, hw⟩ | ⟨n, hw, hn⟩
  · exact h.fresh i hf
  · obtain ⟨hv, hp⟩ := h.of_working hw
    exact (h.open_ n hv).awake i hp
  · cases hv : (b.coalescer.flight n).value with
    | some v => exact ((h.settled n v hv).waiting i (on_of_waiting hw)).2
    | none => exact (h.open_ n hv).awake i (hn.resolve_left fun hne => hne hv)

/-- The first in the line of a flight is eager. -/
theorem Sound.eager_of_permit (h : b.Sound) (hv : (b.coalescer.flight n).value = none)
    (hp : (b.coalescer.flight n).permit = some i) : b.Eager i := by
  have hon := ((h.open_ n hv).mem_iff i).1 (Flight.mem_line_iff.2 (.inl hp))
  unfold On at hon
  cases hw : b.phase i with
  | working n' q => exact .inr (.inl ⟨n', q, hw⟩)
  | waiting n' =>
    rw [hw] at hon
    cases hon
    exact .inr (.inr ⟨n, hw, .inr hp⟩)
  | fresh => exact .inl hw
  | returned r v => rw [hw] at hon; cases hon
  | dropped => rw [hw] at hon; cases hon

/-- **As long as a task has neither returned nor been dropped, there is an eager one**: no task
waits for a value that nobody works for. -/
theorem Sound.exists_eager (h : b.Sound) (hd : b.phase i ≠ .dropped)
    (hr : ∀ r v, b.phase i ≠ .returned r v) : ∃ j, b.Eager j := by
  cases hw : b.phase i with
  | fresh => exact ⟨i, .inl hw⟩
  | working n q => exact ⟨i, .inr (.inl ⟨n, q, hw⟩)⟩
  | waiting n =>
    cases hv : (b.coalescer.flight n).value with
    | some v => exact ⟨i, .inr (.inr ⟨n, hw, .inl (by rw [hv]; exact Option.some_ne_none v)⟩)⟩
    | none =>
      have ho := h.open_ n hv
      have hi : i ∈ (b.coalescer.flight n).line := (ho.mem_iff i).2 (on_of_waiting hw)
      cases hp : (b.coalescer.flight n).permit with
      | some t => exact ⟨t, h.eager_of_permit hv hp⟩
      | none =>
        unfold Flight.line at hi
        rw [hp, ho.queue_eq_nil hp] at hi
        cases hi
  | returned r v => exact absurd hw (hr r v)
  | dropped => exact absurd hw hd

/-- A task that stays takes no task its eagerness. -/
theorem Rest.eager (r : Rest i b b') (he : b.Eager j) : b'.Eager j := by
  unfold Eager at he ⊢
  rwa [r.phase_eq, r.coalescer]

theorem lt_of_eager (he : b.Eager i) : i < b.tasks.length :=
  lt_of_phase_ne fun hd => not_eager_of_ended (.inl hd) he

/-- An eager task is one that a round polls. -/
theorem Sound.exists_task_of_eager (h : b.Sound) (he : b.Eager i) :
    ∃ t, b.tasks[i]? = some t ∧ t.awake = true ∧ t.isLive = true := by
  obtain ⟨t, ht⟩ : ∃ t, b.tasks[i]? = some t := ⟨_, List.getElem?_eq_getElem (lt_of_eager he)⟩
  have hp := phase_of_getElem? ht
  refine ⟨t, ht, ?_, Task.isLive_iff.2 ⟨fun hd => ?_, fun r v hr => ?_⟩⟩
  · have ha := h.awake_of_eager he
    unfold isAwake at ha
    rwa [ht] at ha
  · exact not_eager_of_ended (.inl (hp.trans hd)) he
  · exact not_eager_of_ended (.inr ⟨r, v, hp.trans hr⟩) he

/-- Where nobody has anything to do, everybody has returned or been dropped. -/
theorem ended_of_quiet (h : b.Sound) (hq : b.isQuiet = true) (i : Nat) :
    b.phase i = .dropped ∨ ∃ r v, b.phase i = .returned r v := by
  by_contra hno
  rw [not_or, not_exists] at hno
  obtain ⟨j, hj⟩ := h.exists_eager hno.1 fun r v hr => hno.2 r ⟨v, hr⟩
  obtain ⟨t, ht, ha, hl⟩ := h.exists_task_of_eager hj
  have hidle := List.all_eq_true.1 hq t (List.mem_of_getElem? ht)
  rw [ha, hl] at hidle
  cases hidle

theorem exists_eager_of_not_quiet (h : b.Sound) (hq : b.isQuiet = false) : ∃ i, b.Eager i := by
  obtain ⟨t, ht, hbusy⟩ := List.all_eq_false.1 hq
  obtain ⟨i, hi⟩ := List.getElem?_of_mem ht
  have hp := phase_of_getElem? hi
  have hl : t.isLive = true := by
    rw [Bool.not_eq_true, Bool.not_eq_false', Bool.and_eq_true] at hbusy
    exact hbusy.2
  obtain ⟨hd, hr⟩ := Task.isLive_iff.1 hl
  exact h.exists_eager (fun he => hd (hp.symm.trans he)) fun r v he => hr r v (hp.symm.trans he)

variable [BEq κ]

theorem weight_lt_of_moves (hm : TransGen (Move i) b b') : b'.weight < b.weight := by
  induction hm with
  | single m => exact m.weight_lt
  | tail _ m ih => exact Nat.lt_trans m.weight_lt ih

variable [LawfulBEq κ]

/-- A task that moves takes no other one its eagerness. -/
theorem Move.eager (m : Move i b b') (h : b.Sound) (hj : j ≠ i) (he : b.Eager j) : b'.Eager j := by
  obtain ⟨_, _, hm⟩ := m.moved
  unfold Eager at he ⊢
  rw [hm.other j hj]
  rcases he with hf | hw | ⟨n, hw, hn⟩
  · exact .inl hf
  · exact .inr (.inl hw)
  · refine .inr (.inr ⟨n, hw, ?_⟩)
    rcases hn with hv | hp
    · rcases m.value_eq h n with he | ⟨_, v, -, -, hv'⟩
      · rw [he]
        exact .inl hv
      · rw [hv']
        exact .inl (Option.some_ne_none v)
    · exact (m.permit_of_ne h hj hp).symm

/-! ## 4. Rounds come to an end -/

theorem weight_play_le (h : b.Sound) (es : List Event) : (b.play es).weight ≤ b.weight :=
  (play_keeps (P := fun x => x.weight ≤ b.weight)
    (fun _ hw m => Nat.le_trans (Nat.le_of_lt m.weight_lt) hw)
    (fun _ hw r => r.weight_eq ▸ hw) h (Nat.le_refl _) es).2

theorem weight_poll_le (h : b.Sound) (i : Nat) : (b.poll i).weight ≤ b.weight := by
  obtain ⟨es, hes, -⟩ := b.exists_play_poll i
  rw [hes]
  exact weight_play_le h es

/-- An eager task makes a move when it is polled. -/
theorem weight_poll_lt (h : b.Sound) (he : b.Eager i) : (b.poll i).weight < b.weight := by
  obtain ⟨t, ht, ha, hl⟩ := h.exists_task_of_eager he
  obtain ⟨es, hes, -⟩ := (b.step (.poll i)).exists_play_charge i
  rw [poll_of_awake ht ha hl, hes]
  refine Nat.lt_of_le_of_lt (weight_play_le (sound_play h [.poll i]) es) ?_
  exact weight_lt_of_moves ((moves_poll h i).resolve_right fun hr => hr.2 he)

theorem eager_poll (h : b.Sound) (hj : j ≠ i) (he : b.Eager j) : (b.poll i).Eager j := by
  obtain ⟨es, hes, htask⟩ := b.exists_play_poll i
  rw [hes]
  exact (play_keeps_of (T := fun k => k = i) (P := fun x => x.Eager j)
    (fun hk hs hx m => m.eager hs (hk ▸ hj) hx) (fun _ _ hx r => r.eager hx)
    (fun e he => (htask e he).1) h he).2

/-- Polls of many tasks, of which one is eager. -/
theorem weight_polls_lt (h : b.Sound) (he : b.Eager i) {is : List Nat} (hi : i ∈ is) :
    (is.foldl poll b).weight < b.weight := by
  have hle : ∀ (is : List Nat) {b : Batch σ κ ν}, b.Sound →
      (is.foldl poll b).weight ≤ b.weight := by
    intro is
    induction is with
    | nil => exact fun _ => Nat.le_refl _
    | cons j rest ih => exact fun h => Nat.le_trans (ih (sound_poll h j)) (weight_poll_le h j)
  induction is generalizing b with
  | nil => cases hi
  | cons j rest ih =>
    rw [List.foldl_cons]
    by_cases hj : i = j
    · subst hj
      exact Nat.lt_of_le_of_lt (hle rest (sound_poll h i)) (weight_poll_lt h he)
    · exact Nat.lt_of_lt_of_le
        (ih (sound_poll h j) (eager_poll h hj he) (List.mem_of_ne_of_mem hj hi))
        (weight_poll_le h j)

theorem sound_round (h : b.Sound) : b.round.Sound := by
  obtain ⟨es, hes, -⟩ := exists_play_round h
  rw [hes]
  exact sound_play h es

theorem weight_round_lt (h : b.Sound) (he : b.Eager i) : b.round.weight < b.weight :=
  weight_polls_lt h he (List.mem_range.2 (lt_of_eager he))

/-- **After as many rounds as the tasks have weight, every task has returned or been dropped.** -/
theorem ended_rounds (h : b.Sound) (hn : b.weight ≤ n) (i : Nat) :
    (b.rounds n).phase i = .dropped ∨ ∃ r v, (b.rounds n).phase i = .returned r v := by
  induction n generalizing b with
  | zero =>
    refine ended_of_quiet h ?_ i
    by_contra hq
    obtain ⟨j, hj⟩ := exists_eager_of_not_quiet h (Bool.eq_false_iff.2 hq)
    exact absurd (weight_poll_lt h hj) (Nat.not_lt.2 (Nat.le_trans hn (Nat.zero_le _)))
  | succ n ih =>
    unfold rounds
    split
    · rename_i hq
      exact ended_of_quiet h hq i
    · rename_i hq
      obtain ⟨j, hj⟩ := exists_eager_of_not_quiet h (Bool.eq_false_iff.2 hq)
      exact ih (sound_round h) (Nat.le_of_lt_succ (Nat.lt_of_lt_of_le (weight_round_lt h hj) hn))

end Batch

end EdgeInclude

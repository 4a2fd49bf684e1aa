import EdgeInclude.Proofs.Page.Moves
import Mathlib.Logic.Relation

/-!
# Schedules

Tasks are polled and given up in any order; rounds of polls are one such order.

* `Batch.Event`, `Batch.play` — schedules.
* `Batch.moves_poll`, `Batch.move_drop`, `Batch.rest_count` — what an event does is done in moves.
* `Batch.play_keeps` — what moves keep holds after every schedule.
* `Batch.dropped_of_play` — a task is given up only when an event says so.
* `Batch.exists_play_rounds` — rounds of polls are schedules.
-/

namespace EdgeInclude

namespace Batch

open Relation (TransGen ReflTransGen)

variable {σ κ ν : Type} {b b' m y : Batch σ κ ν} {i j n : Nat} {p : Phase ν} {job : Job σ κ ν}
  {t : Task σ κ ν} {v : ν}

/-! ## 1. Schedules -/

/-- What can happen to tasks that run together, at any time and in any order. -/
inductive Event where
  /-- A task is polled, whether it is awake or not. -/
  | poll (i : Nat)
  /-- A task is given up. -/
  | drop (i : Nat)
  /-- The limit of a task is counted, which wakes it. -/
  | count (i : Nat)
  deriving DecidableEq, Repr

/-- The task of an event. -/
def Event.task : Event → Nat
  | .poll i | .drop i | .count i => i

/-- What has become of the tasks after an event. Nothing happens to a task that has returned or has
been dropped. -/
def step [BEq κ] (b : Batch σ κ ν) : Event → Batch σ κ ν
  | .poll i =>
    match b.tasks[i]? with
    | none => b
    | some t =>
      if t.isLive then
        ({ b with tasks := b.tasks.modify i fun t => { t with awake := false } } :
          Batch σ κ ν).advance i t.job t.phase
      else b
  | .drop i =>
    match b.tasks[i]? with
    | none => b
    | some t => if t.isLive then b.drop i t else b
  | .count i =>
    { b with tasks := b.tasks.modify i fun t =>
      { t with limit := t.limit.map (· - 1), awake := true } }

/-- All events of a schedule, one after the other. -/
def play [BEq κ] (b : Batch σ κ ν) (es : List Event) : Batch σ κ ν := es.foldl step b

section Rounds

variable [BEq κ]

theorem play_append (b : Batch σ κ ν) (es fs : List Event) :
    b.play (es ++ fs) = (b.play es).play fs := List.foldl_append ..

/-- Counting a limit is counting it, and giving the task up if that was its last poll. -/
theorem exists_play_charge (b : Batch σ κ ν) (i : Nat) : ∃ es, b.charge i = b.play es ∧
    ∀ e ∈ es, e.task = i ∧ (e = .drop i → b.limited? i = some true) := by
  unfold charge
  cases ht : b.tasks[i]? with
  | none => exact ⟨[], rfl, nofun⟩
  | some t =>
    dsimp only
    cases hl : t.limit with
    | none => exact ⟨[], rfl, nofun⟩
    | some n =>
      have hlimited : b.limited? i = some true := by
        unfold limited?
        rw [ht, Option.map_some, hl]
        rfl
      have hcount : ({ b with tasks := b.tasks.modify i fun t =>
          { t with limit := some (n - 1), awake := true } } : Batch σ κ ν) = b.step (.count i) :=
        congrArg (fun ts => ({ b with tasks := ts } : Batch σ κ ν))
          (Task.modify_congr ht (by rw [hl]; rfl))
      dsimp only
      rw [hcount]
      split
      · rename_i hd
        refine ⟨[.count i, .drop i], ?_, by simp [Event.task, hlimited]⟩
        have ht' : (b.step (.count i)).tasks[i]? =
            some { t with limit := t.limit.map (· - 1), awake := true } := by
          show (b.tasks.modify i _)[i]? = _
          rw [Task.getElem?_modify_self, ht]
          rfl
        have hlive : ({ t with limit := t.limit.map (· - 1), awake := true } : Task σ κ ν).isLive =
            true := (Bool.and_eq_true_iff.1 hd).2
        show _ = (b.step (.count i)).step (.drop i)
        rw [step, ht']
        dsimp only
        rw [if_pos hlive]
        rfl
      · exact ⟨[.count i], rfl, by simp [Event.task]⟩

/-- A task that is awake and live is polled. -/
theorem poll_of_awake (ht : b.tasks[i]? = some t) (ha : t.awake = true) (hl : t.isLive = true) :
    b.poll i = (b.step (.poll i)).charge i := by
  have hstep : b.step (.poll i) =
      ({ b with tasks := b.tasks.modify i fun t => { t with awake := false } } :
        Batch σ κ ν).advance i t.job t.phase := by
    unfold step
    dsimp only
    rw [ht]
    exact if_pos hl
  rw [hstep]
  unfold poll
  rw [ht]
  exact if_pos (Bool.and_eq_true_iff.2 ⟨ha, hl⟩)

theorem exists_play_poll (b : Batch σ κ ν) (i : Nat) : ∃ es, b.poll i = b.play es ∧
    ∀ e ∈ es, e.task = i ∧ (e = .drop i → (b.step (.poll i)).limited? i = some true) := by
  cases ht : b.tasks[i]? with
  | none =>
    refine ⟨[], ?_, nofun⟩
    unfold poll
    rw [ht]
    rfl
  | some t =>
    by_cases hl : (t.awake && t.isLive) = true
    · obtain ⟨ha, hl⟩ := Bool.and_eq_true_iff.1 hl
      obtain ⟨es, hes, htask⟩ := exists_play_charge (b.step (.poll i)) i
      refine ⟨.poll i :: es, (poll_of_awake ht ha hl).trans hes, ?_⟩
      exact List.forall_mem_cons.2 ⟨⟨rfl, nofun⟩, htask⟩
    · refine ⟨[], ?_, nofun⟩
      unfold poll
      rw [ht]
      exact if_neg hl

end Rounds

/-! ## 2. Events are moves -/

theorem phase_of_getElem? (h : b.tasks[i]? = some t) : b.phase i = t.phase := by
  unfold phase
  rw [h]
  rfl

theorem job?_of_getElem? (h : b.tasks[i]? = some t) : b.job? i = some t.job := by
  unfold job?
  rw [h]
  rfl

theorem lt_of_job? (h : b.job? i = some job) : i < b.tasks.length := by
  refine Nat.lt_of_not_le fun hle => ?_
  unfold job? at h
  rw [List.getElem?_eq_none hle] at h
  cases h

theorem Rest.refl (b : Batch σ κ ν) (i : Nat) : Rest i b b := ⟨.refl b i, .inl, rfl, rfl⟩

section Dropped

theorem phase_finish (hi : i < b.tasks.length) (job : Job σ κ ν) (r : Role) (v : ν) :
    (b.finish i job r v).phase i = .returned r v := phase_setPhase_self hi _

variable [BEq κ]

theorem phase_complete (hi : i < b.tasks.length) (job : Job σ κ ν) (n : Nat) :
    (b.complete i job n).phase i = .returned .leader (job.finish b.shared).2 :=
  phase_finish (Nat.lt_of_lt_of_eq hi (length_wake ..).symm) job .leader _

theorem phase_ask_ne (hi : i < b.tasks.length) (job : Job σ κ ν) (n : Nat) :
    (b.ask i job n).phase i ≠ .dropped := by
  unfold ask
  dsimp only
  split
  · rw [phase_finish (by exact hi)]
    exact nofun
  · rw [phase_setPhase_self (by exact hi)]
    exact nofun
  · split
    · rw [phase_complete (by exact hi)]
      exact nofun
    · rw [phase_wake, phase_setPhase_self (by exact hi)]
      exact nofun

/-- Nobody is given up by doing something. -/
theorem phase_advance_ne (hi : i < b.tasks.length) (job : Job σ κ ν) {p : Phase ν}
    (hp : p = .fresh ∨ (∃ n, p = .waiting n) ∨ ∃ n q, p = .working n q) :
    (b.advance i job p).phase i ≠ .dropped := by
  rcases hp with rfl | ⟨n, rfl⟩ | ⟨n, q, rfl⟩
  · unfold advance
    dsimp only
    split
    · rw [phase_finish (by exact hi)]
      exact nofun
    · exact phase_ask_ne (by exact hi) job _
  · exact phase_ask_ne (by exact hi) job n
  · unfold advance
    dsimp only
    split
    · rw [phase_complete (by exact hi)]
      exact nofun
    · rw [phase_wake, phase_setPhase_self (by exact hi)]
      exact nofun

theorem phase_poll_ne (h : b.phase i ≠ .dropped) : (b.step (.poll i)).phase i ≠ .dropped := by
  have hlt := lt_of_phase_ne h
  have ht := List.getElem?_eq_getElem hlt
  have hp := phase_of_getElem? ht
  unfold step
  dsimp only
  rw [ht]
  dsimp only
  split
  · rename_i hlive
    refine phase_advance_ne (Nat.lt_of_lt_of_eq hlt (List.length_modify ..).symm) _ ?_
    unfold Task.isLive at hlive
    cases hphase : (b.tasks[i]).phase with
    | fresh => exact .inl rfl
    | waiting n => exact .inr (.inl ⟨n, rfl⟩)
    | working n q => exact .inr (.inr ⟨n, q, rfl⟩)
    | returned r v => rw [hphase] at hlive; cases hlive
    | dropped => exact absurd (hp.trans hphase) h
  · exact h

end Dropped

/-- A task that moves as soon as it is polled. -/
def Eager (b : Batch σ κ ν) (i : Nat) : Prop :=
  b.phase i = .fresh ∨ (∃ n p, b.phase i = .working n p) ∨ ∃ n, b.phase i = .waiting n ∧
    ((b.coalescer.flight n).value ≠ none ∨ (b.coalescer.flight n).permit = some i)

theorem not_eager_of_ended (h : b.phase i = .dropped ∨ ∃ r v, b.phase i = .returned r v) :
    ¬ b.Eager i := by
  rcases h with h | ⟨r, v, h⟩
  all_goals
    rintro (hf | ⟨n, q, hw⟩ | ⟨n, hw, -⟩)
    · exact nomatch h.symm.trans hf
    · exact nomatch h.symm.trans hw
    · exact nomatch h.symm.trans hw

/-- A task in the queue of a flight waits for another one. -/
theorem not_eager_of_mem_queue (h : m.Sound) (was : m.phase i = .waiting n)
    (hv : (m.coalescer.flight n).value = none) (hq : i ∈ (m.coalescer.flight n).queue) :
    ¬ m.Eager i := by
  rintro (hf | ⟨n', q, hw⟩ | ⟨n', hw, he⟩)
  · exact nomatch was.symm.trans hf
  · exact nomatch was.symm.trans hw
  · cases was.symm.trans hw
    rcases he with he | he
    · exact he hv
    · exact (h.open_ n hv).not_mem_queue he hq

variable [BEq κ]

/-- The work of a task is done where the task stands. -/
theorem move_complete (own : m.job? i = some job) (was : m.phase i = .working n j)
    (hm : Moved i p [] m y) (hc : y.coalescer = m.coalescer) (hs : y.shared = m.shared) :
    Move i m (y.complete i job n) := by
  obtain ⟨c, s, ts⟩ := y
  cases hc
  cases hs
  exact .complete own was rfl ((((hm.apart _ _).wake _).setPhase (lt_of_job? own) _).apart _ _)
    rfl rfl

/-- A task that may do the work begins to, and ends it if it never gives way. -/
theorem moves_work (own : m.job? i = some job) (was : m.phase i = .waiting n)
    (hv : (m.coalescer.flight n).value = none) (hp : (m.coalescer.flight n).permit = some i)
    (hm : Moved i p [] m y) (hc : y.coalescer = m.coalescer) (hs : y.shared = m.shared) :
    TransGen (Move i) m (if job.pauses == 0 then
      ({ y with shared := job.start y.shared } : Batch σ κ ν).complete i job n
      else (({ y with shared := job.start y.shared } : Batch σ κ ν).setPhase i
        (.working n job.pauses)).wake [i]) := by
  have hlt := lt_of_job? own
  have hy : Moved i p [] m { y with shared := job.start y.shared } := hm.apart _ _
  have hset := hy.setPhase hlt (.working n job.pauses)
  have hbegin : Move i m ((({ y with shared := job.start y.shared } : Batch σ κ ν).setPhase i
      (.working n job.pauses)).wake [i]) :=
    .begin own was hv hp hset.wakeSelf (isAwake_wake_self (hset.length ▸ hlt)) hc
      (congrArg job.start hs)
  split
  · -- the work ends in the poll in which it began
    refine .tail (.single hbegin) ?_
    exact move_complete ((hset.wakeSelf.job i).trans own) hset.wakeSelf.self
      (hy.after hset.wakeSelf) rfl rfl
  · exact .single hbegin

/-- A task that waits asks its flight. -/
theorem moves_ask (h : m.Sound) (own : m.job? i = some job) (was : m.phase i = .waiting n)
    (hm : Moved i p [] m y) (hc : y.coalescer = m.coalescer) (hs : y.shared = m.shared) :
    TransGen (Move i) m (y.ask i job n) ∨ Rest i m (y.ask i job n) ∧ ¬ m.Eager i := by
  have hlt := lt_of_job? own
  -- the flight has the task in its line already, and stays as it is
  have hset : y.coalescer.set n (m.coalescer.flight n) = m.coalescer := by
    rw [hc, Coalescer.set_flight]
  have hm' := hm.apart (y.coalescer.set n (m.coalescer.flight n)) y.shared
  have hflight : y.coalescer.flight n = m.coalescer.flight n := by rw [hc]
  unfold ask
  rw [hflight]
  cases hv : (m.coalescer.flight n).value with
  | some v =>
    rw [Flight.ask_of_value hv]
    exact .inl (.single (.follow own was hv ((hm'.setPhase hlt _).apart _ _) hset
      (congrArg (job.settle .follower v) hs)))
  | none =>
    by_cases hp : (m.coalescer.flight n).permit = some i
    · rw [Flight.ask_of_permit hv hp]
      exact .inl (moves_work own was hv hp hm' hset hs)
    · have hq := h.mem_queue_of_waiting was hv hp
      cases ht : (m.coalescer.flight n).permit with
      | none =>
        rw [(h.open_ n hv).queue_eq_nil ht] at hq
        cases hq
      | some t =>
        rw [Flight.ask_of_mem_queue hv ht (fun he => hp (by rw [ht, he])) hq]
        refine .inr ⟨⟨?_, fun _ => .inr ⟨n, was, hv, hq⟩, hset, hs⟩,
          not_eager_of_mem_queue h was hv hq⟩
        rw [was]
        exact hm'.setPhase hlt _

/-- What a task does when it is polled during its work. -/
theorem move_working (own : b.job? i = some job) {q : Nat} (was : b.phase i = .working n q)
    (hm : Moved i p [] b y) (hc : y.coalescer = b.coalescer) (hs : y.shared = b.shared) :
    Move i b (y.advance i job (.working n q)) := by
  have hlt := lt_of_job? own
  unfold advance
  dsimp only
  split
  · exact move_complete own was hm hc hs
  · rename_i hq
    have hset := hm.setPhase hlt (.working n (q - 1))
    exact .pause was (by omega) hset.wakeSelf (isAwake_wake_self (hset.length ▸ hlt)) hc hs

/-- To give a task up is a move, or nothing. -/
theorem move_drop (b : Batch σ κ ν) (i : Nat) :
    Move i b (b.step (.drop i)) ∨ Rest i b (b.step (.drop i)) := by
  unfold step
  dsimp only
  cases ht : b.tasks[i]? with
  | none => exact .inr (.refl b i)
  | some t =>
    have was := phase_of_getElem? ht
    have hlt := lt_of_job? (job?_of_getElem? ht)
    have hon : ∀ {n}, flightOf? t.phase = some n → b.On i n := fun hf => by
      unfold On
      rw [was, hf]
    unfold Task.isLive drop
    dsimp only
    cases hp : t.phase with
    | fresh => exact .inl (.forgo (was.trans hp) ((Moved.refl b i).setPhase hlt _) rfl rfl)
    | waiting n =>
      exact .inl (.leave (hon (by rw [hp]; rfl))
        ((((Moved.refl b i).apart _ _).setPhase hlt _).wake _) rfl rfl)
    | working n q =>
      exact .inl (.leave (hon (by rw [hp]; rfl))
        ((((Moved.refl b i).apart _ _).setPhase hlt _).wake _) rfl rfl)
    | returned r v => exact .inr (.refl b i)
    | dropped => exact .inr (.refl b i)

theorem rest_count (b : Batch σ κ ν) (i : Nat) : Rest i b (b.step (.count i)) := by
  refine ⟨(Moved.refl b i).modify (fun t => { t with limit := t.limit.map (· - 1), awake := true })
    (fun _ => rfl) (fun _ => Option.isSome_map) fun _ => rfl, fun ha => .inl ?_, rfl, rfl⟩
  unfold isAwake step at *
  dsimp only
  rw [Task.getElem?_modify_self]
  cases hb : b.tasks[i]? with
  | none =>
    rw [hb] at ha
    exact ha
  | some t => rfl

variable [LawfulBEq κ]

/-- A task that finds no value joins the line of the flight for its key, and does the work if it is
alone in it. -/
theorem moves_join (h : b.Sound) (own : b.job? i = some job) (was : b.phase i = .fresh)
    (look : (job.lookup b.shared).2 = none) (number : (b.coalescer.join job.key).2 = n)
    (hm : Moved i p [] b y) (hc : y.coalescer = (b.coalescer.join job.key).1)
    (hs : y.shared = (job.lookup b.shared).1) : TransGen (Move i) b (y.ask i job n) := by
  have hlt := lt_of_job? own
  have hmem : (job.key, n) ∈ (b.coalescer.join job.key).1.slots :=
    number ▸ b.coalescer.mem_slots_join job.key
  obtain ⟨hn, hv⟩ := (h.coalescer.join job.key).open_ _ _ hmem
  rw [Coalescer.flight_join] at hv
  have hi : i ∉ (b.coalescer.flight n).line := fun hl =>
    not_on_of_fresh was n (((h.open_ n hv).mem_iff i).1 hl)
  have hflight : y.coalescer.flight n = b.coalescer.flight n := by
    rw [hc, Coalescer.flight_join]
  have hy := hm.apart (y.coalescer.set n ((b.coalescer.flight n).enter i)) y.shared
  unfold ask
  rw [hflight, Flight.ask_of_new hv hi]
  cases hp : (b.coalescer.flight n).permit with
  | some t =>
    refine .single (.enter own was look number (hy.setPhase hlt _) (fun hno => ?_) ?_ hs)
    · rw [hp] at hno
      cases hno
    · exact congrArg (·.set n ((b.coalescer.flight n).enter i)) hc
  | none =>
    -- the task is alone: it joins, and then it does the work
    have hset := hy.setPhase hlt (.waiting n)
    have henter := Move.enter own was look number hset.wakeSelf
      (fun _ => isAwake_wake_self (hset.length ▸ hlt))
      (congrArg (·.set n ((b.coalescer.flight n).enter i)) hc) hs
    have hm := hset.wakeSelf
    have hf : (y.coalescer.set n ((b.coalescer.flight n).enter i)).flight n =
        (b.coalescer.flight n).enter i := by
      rw [Coalescer.flight_set (hc ▸ hn), if_pos rfl]
    refine .trans (.single henter) (moves_work ((hm.job i).trans own) hm.self ?_ ?_ (hy.after hm)
      rfl rfl)
    · exact (congrArg Flight.value hf).trans ((Flight.value_enter _ i).trans hv)
    · exact (congrArg Flight.permit hf).trans (Flight.permit_enter hp i)

/-- What a task does when it is polled for the first time. -/
theorem moves_fresh (h : b.Sound) (own : b.job? i = some job) (was : b.phase i = .fresh)
    (hm : Moved i p [] b y) (hc : y.coalescer = b.coalescer) (hs : y.shared = b.shared) :
    TransGen (Move i) b (y.advance i job .fresh) := by
  obtain ⟨c, s, ts⟩ := y
  cases hc
  cases hs
  unfold advance
  dsimp only
  cases hl : (job.lookup b.shared).2 with
  | some v =>
    exact .single (.found own was hl ((hm.setPhase (lt_of_job? own) _).apart _ _) rfl rfl)
  | none =>
    exact moves_join h own was hl rfl (hm.apart _ _) rfl rfl

/-- **A poll is one or more moves of the task**, or none if the task is not eager. -/
theorem moves_poll (h : b.Sound) (i : Nat) :
    TransGen (Move i) b (b.step (.poll i)) ∨ Rest i b (b.step (.poll i)) ∧ ¬ b.Eager i := by
  unfold step
  dsimp only
  cases ht : b.tasks[i]? with
  | none => exact .inr ⟨.refl b i, not_eager_of_ended (.inl (by unfold phase; rw [ht]; rfl))⟩
  | some t =>
    have own := job?_of_getElem? ht
    have was := phase_of_getElem? ht
    have hlt := lt_of_job? own
    have hm := (Moved.refl b i).modify (fun t => { t with awake := false }) (fun _ => rfl)
      (fun _ => rfl) fun _ => rfl
    unfold Task.isLive
    dsimp only
    cases hp : t.phase with
    | fresh => exact .inl (moves_fresh h own (was.trans hp) hm rfl rfl)
    | waiting n => exact moves_ask h own (was.trans hp) hm rfl rfl
    | working n q => exact .inl (.single (move_working own (was.trans hp) hm rfl rfl))
    | returned r v => exact .inr ⟨.refl b i, not_eager_of_ended (.inr ⟨r, v, was.trans hp⟩)⟩
    | dropped => exact .inr ⟨.refl b i, not_eager_of_ended (.inl (was.trans hp))⟩

/-- What the moves and stays of some tasks keep holds after every schedule of these tasks. -/
theorem play_keeps_of {T : Nat → Prop} {P : Batch σ κ ν → Prop}
    (hmove : ∀ {i} {b b' : Batch σ κ ν}, T i → b.Sound → P b → Move i b b' → P b')
    (hrest : ∀ {i} {b b' : Batch σ κ ν}, T i → b.Sound → P b → Rest i b b' → P b')
    {es : List Event} (hes : ∀ e ∈ es, T e.task) (h : b.Sound) (hp : P b) :
    (b.play es).Sound ∧ P (b.play es) := by
  have hmoves : ∀ {i} {b b' : Batch σ κ ν}, T i → TransGen (Move i) b b' → b.Sound ∧ P b →
      b'.Sound ∧ P b' := by
    intro i b b' hi ht hb
    induction ht with
    | single m => exact ⟨hb.1.move m, hmove hi hb.1 hb.2 m⟩
    | tail _ m ih => exact ⟨ih.1.move m, hmove hi ih.1 ih.2 m⟩
  have hstep : ∀ {b : Batch σ κ ν} (e : Event), T e.task → b.Sound ∧ P b →
      (b.step e).Sound ∧ P (b.step e) := by
    intro b e he hb
    cases e with
    | poll i =>
      rcases moves_poll hb.1 i with hm | ⟨hr, -⟩
      · exact hmoves he hm hb
      · exact ⟨hb.1.rest hr, hrest he hb.1 hb.2 hr⟩
    | drop i =>
      rcases move_drop b i with hm | hr
      · exact ⟨hb.1.move hm, hmove he hb.1 hb.2 hm⟩
      · exact ⟨hb.1.rest hr, hrest he hb.1 hb.2 hr⟩
    | count i => exact ⟨hb.1.rest (rest_count b i), hrest he hb.1 hb.2 (rest_count b i)⟩
  unfold play
  induction es generalizing b with
  | nil => exact ⟨h, hp⟩
  | cons e rest ih =>
    obtain ⟨hs, hq⟩ := hstep e (hes e List.mem_cons_self) ⟨h, hp⟩
    exact ih (fun e he => hes e (List.mem_cons_of_mem _ he)) hs hq

/-- **What every move and every stay keeps holds after every schedule.** -/
theorem play_keeps {P : Batch σ κ ν → Prop}
    (hmove : ∀ {i} {b b' : Batch σ κ ν}, b.Sound → P b → Move i b b' → P b')
    (hrest : ∀ {i} {b b' : Batch σ κ ν}, b.Sound → P b → Rest i b b' → P b') (h : b.Sound)
    (hp : P b) (es : List Event) : (b.play es).Sound ∧ P (b.play es) :=
  play_keeps_of (T := fun _ => True) (fun _ => hmove) (fun _ => hrest) (fun _ _ => trivial) h hp

theorem sound_play (h : b.Sound) (es : List Event) : (b.play es).Sound :=
  (play_keeps (P := fun _ => True) (fun _ _ _ => trivial) (fun _ _ _ => trivial) h trivial es).1

/-! ## 3. Giving up -/

/-- **A task is given up only when an event says so.** -/
theorem dropped_of_play (h : b.Sound) (es : List Event) (hd : (b.play es).phase i = .dropped) :
    b.phase i = .dropped ∨ .drop i ∈ es := by
  induction es generalizing b with
  | nil => exact .inl hd
  | cons e rest ih =>
    rcases ih (sound_play h [e]) hd with hd | hm
    · by_cases hb : b.phase i = .dropped
      · exact .inl hb
      · refine .inr ?_
        -- the event is one of the task, and neither a poll nor a count
        by_cases he : e.task = i
        · subst he
          cases e with
          | poll j => exact absurd hd (phase_poll_ne hb)
          | drop j => exact List.mem_cons_self
          | count j => exact absurd ((rest_count b j).moved.self.symm.trans hd) hb
        · have hone : ∀ x ∈ [e], x.task ≠ i := by simpa using he
          have hother := (play_keeps_of (T := fun j => j ≠ i) (P := fun x => x.phase i ≠ .dropped)
            (fun hj _ hx m => by
              obtain ⟨_, _, hm⟩ := m.moved
              rwa [hm.other i (Ne.symm hj)])
            (fun _ _ hx r => by rwa [r.phase_eq])
            hone h hb).2
          exact absurd hd hother
    · exact .inr (List.mem_cons_of_mem _ hm)

/-! ## 4. Rounds are schedules -/

theorem limited_play (h : b.Sound) (es : List Event) (i : Nat) :
    (b.play es).limited? i = b.limited? i :=
  (play_keeps (P := fun x => x.limited? i = b.limited? i)
    (fun _ hx m => by
      obtain ⟨_, _, hm⟩ := m.moved
      exact (hm.limited i).trans hx)
    (fun _ hx r => (r.moved.limited i).trans hx) h rfl es).2

theorem sound_poll (h : b.Sound) (i : Nat) : (b.poll i).Sound := by
  obtain ⟨es, hes, -⟩ := b.exists_play_poll i
  rw [hes]
  exact sound_play h es

/-- A round of polls gives only those up that have a limit. -/
theorem exists_play_round (h : b.Sound) : ∃ es, b.round = b.play es ∧
    ∀ i, .drop i ∈ es → b.limited? i = some true := by
  have hall : ∀ (is : List Nat) {b : Batch σ κ ν}, b.Sound → ∃ es, is.foldl poll b = b.play es ∧
      ∀ i, .drop i ∈ es → b.limited? i = some true := by
    intro is
    induction is with
    | nil => exact fun _ => ⟨[], rfl, nofun⟩
    | cons j rest ih =>
      intro b h
      obtain ⟨es, hes, hdrop⟩ := b.exists_play_poll j
      obtain ⟨fs, hfs, hdrop'⟩ := ih (sound_poll h j)
      refine ⟨es ++ fs, ?_, fun i hi => ?_⟩
      · rw [List.foldl_cons, hfs, play_append, hes]
      · rcases List.mem_append.1 hi with hi | hi
        · obtain ⟨rfl, hl⟩ := hdrop _ hi
          exact (limited_play h [.poll i] i).symm.trans (hl rfl)
        · have hl := hdrop' i hi
          rwa [hes, limited_play h] at hl
  exact hall _ h

/-- **Rounds of polls are one schedule among others**, in which only those are given up that have a
limit. -/
theorem exists_play_rounds (h : b.Sound) (n : Nat) : ∃ es, b.rounds n = b.play es ∧
    ∀ i, .drop i ∈ es → b.limited? i = some true := by
  induction n generalizing b with
  | zero => exact ⟨[], rfl, nofun⟩
  | succ n ih =>
    unfold rounds
    split
    · exact ⟨[], rfl, nofun⟩
    · obtain ⟨es, hes, hdrop⟩ := exists_play_round h
      have hs := sound_play h es
      rw [hes]
      obtain ⟨fs, hfs, hdrop'⟩ := ih hs
      refine ⟨es ++ fs, by rw [hfs, play_append], fun i hi => ?_⟩
      rcases List.mem_append.1 hi with hi | hi
      · exact hdrop i hi
      · exact (limited_play h es i).symm.trans (hdrop' i hi)

end Batch

end EdgeInclude

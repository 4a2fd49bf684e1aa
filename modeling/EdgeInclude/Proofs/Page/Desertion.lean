import EdgeInclude.Proofs.Page.SingleFlight
import Mathlib.Data.List.Induction

/-!
# Slots that nobody comes for

A key gets its slot from the first task that comes for it, and loses it when a work for the key is
done. A task that is given up takes its place in the line along and leaves the slot behind: if it
was the last one in the line, the slot stays, and nobody works or waits for it.

* `Batch.Attended` — a task works or waits for the slot of a key.
* `Batch.Deserted` — the last task of a slot has been given up, and nobody has come since.
* `Batch.Move.slot`, `Batch.slot_step` — where the slots come from, for one move and for one event.
* `Batch.Move.slot_or_value` — a slot stays until its flight has a value.
* `Batch.slots_accounted` — over every schedule, the slots are those that are attended or deserted.
* `Batch.exists_deserted_slot` — a slot that outlives all tasks.
-/

namespace EdgeInclude

namespace Batch

open Relation (TransGen)

variable {σ κ ν : Type} {b b' : Batch σ κ ν} {i j n : Nat} {k : κ} {p : Phase ν}
  {woken : List Nat} {es : List Event}

/-! ## 1. Who comes for a slot -/

/-- A task of the key works or waits in the flight. -/
def Attended (b : Batch σ κ ν) (k : κ) (n : Nat) : Prop := ∃ i, b.key? i = some k ∧ b.On i n

/-- Over a schedule, a task of the key has been given up in the flight, and since then nobody has
taken part in the flight. -/
def Deserted [BEq κ] (b : Batch σ κ ν) (es : List Event) (k : κ) (n : Nat) : Prop :=
  ∃ fore rest i, es = fore ++ .drop i :: rest ∧ (b.play fore).key? i = some k ∧
    (b.play fore).On i n ∧
    ∀ past, past <+: rest → ∀ j, ¬ (b.play (fore ++ .drop i :: past)).On j n

/-- A slot stays attended when a task moves, unless the task has been in its flight and leaves it.
-/
theorem Attended.moved (h : b.Attended k n) (hm : Moved i p woken b b')
    (hi : b.key? i = some k → b.On i n → flightOf? p = some n) : b'.Attended k n := by
  obtain ⟨j, hk, ho⟩ := h
  refine ⟨j, (hm.key j).trans hk, ?_⟩
  by_cases hj : j = i
  · subst hj
    exact hm.on_self.2 (hi hk ho)
  · exact (hm.on_of_ne hj).2 ho

theorem attended_iff_of_rest (r : Rest i b b') : b'.Attended k n ↔ b.Attended k n := by
  unfold Attended
  simp only [r.moved.key, r.on_iff]

/-- Nobody at all takes part in the flight of a slot that is not attended. -/
theorem Sound.not_on_of_not_attended (h : b.Sound) (hs : (k, n) ∈ b.coalescer.slots)
    (ha : ¬ b.Attended k n) (j : Nat) : ¬ b.On j n := by
  intro ho
  obtain ⟨k', hk, hs'⟩ := h.slot j n ho (h.coalescer.open_ k n hs).2
  exact ha ⟨j, h.coalescer.key_of_number hs' hs ▸ hk, ho⟩

/-! ## 2. Where the slots come from -/

variable [BEq κ]

theorem play_concat (b : Batch σ κ ν) (es : List Event) (e : Event) :
    b.play (es ++ [e]) = (b.play es).step e := play_append b es [e]

/-- A slot that was deserted stays so as long as nobody comes for it. -/
theorem Deserted.concat (h : b.Deserted es k n) {e : Event}
    (hon : ∀ j, ¬ (b.play (es ++ [e])).On j n) : b.Deserted (es ++ [e]) k n := by
  obtain ⟨fore, rest, i, rfl, hk, ho, hpast⟩ := h
  refine ⟨fore, rest ++ [e], i, by simp, hk, ho, fun past hp => ?_⟩
  rcases List.prefix_concat_iff.1 hp with rfl | hp
  · simpa using hon
  · exact hpast past hp

variable [LawfulBEq κ]

/-- **A slot after a move** is attended, or it has not been attended before, or it has just lost the
task that has moved. -/
theorem Move.slot (m : Move i b b') (h : b.Sound) (hs : (k, n) ∈ b'.coalescer.slots) :
    b'.Attended k n ∨ (k, n) ∈ b.coalescer.slots ∧ ¬ b.Attended k n ∨
      b'.phase i = .dropped ∧ b.key? i = some k ∧ b.On i n := by
  -- a slot that was there and was attended: who attends it, if it is not the task that has moved?
  have hold : ∀ {p : Phase ν} {woken}, Moved i p woken b b' → (k, n) ∈ b.coalescer.slots →
      (b.key? i = some k → b.On i n → flightOf? p = some n) →
      b'.Attended k n ∨ (k, n) ∈ b.coalescer.slots ∧ ¬ b.Attended k n ∨
        b'.phase i = .dropped ∧ b.key? i = some k ∧ b.On i n := by
    intro p woken hm hs hi
    by_cases ha : b.Attended k n
    · exact .inl (ha.moved hm hi)
    · exact .inr (.inl ⟨hs, ha⟩)
  cases m with
  | found own was look moved coalescer shared =>
    rw [coalescer] at hs
    exact hold moved hs fun _ ho => absurd ho (not_on_of_fresh was n)
  | @enter job n' own was look number moved awake coalescer shared =>
    have hs' : (k, n) ∈ (b.coalescer.join job.key).1.slots := by
      rw [coalescer] at hs
      exact hs
    have hi : b.key? i = some k → b.On i n →
        flightOf? (.waiting n' : Phase ν) = some n :=
      fun _ ho => absurd ho (not_on_of_fresh was n)
    rcases b.coalescer.slots_join job.key with ⟨-, hj⟩ | ⟨-, hn, hj⟩
    · rw [hj] at hs'
      exact hold moved hs' hi
    · rw [hj] at hs'
      rcases List.mem_cons.1 hs' with he | hs'
      · -- the slot is the new one
        cases he
        refine .inl ⟨i, ?_, moved.on_self.2 (congrArg some (number.symm.trans hn))⟩
        rw [moved.key]
        unfold key?
        rw [own]
        rfl
      · exact hold moved hs' hi
  | @follow job n' v own was value moved coalescer shared =>
    rw [coalescer] at hs
    refine hold moved hs fun _ ho => ?_
    obtain rfl : n' = n := Option.some.inj ((on_of_waiting was).symm.trans ho)
    exact nomatch value.symm.trans (h.coalescer.open_ k n' hs).2
  | begin own was value permit moved awake coalescer shared =>
    rw [coalescer] at hs
    exact hold moved hs fun _ ho => (on_of_waiting was).symm.trans ho
  | pause was less moved awake coalescer shared =>
    rw [coalescer] at hs
    exact hold moved hs fun _ ho => (on_of_working was).symm.trans ho
  | @complete job n' q v own was value moved coalescer shared =>
    rw [coalescer] at hs
    obtain ⟨hs, hne⟩ := Coalescer.mem_close_iff.1 hs
    refine hold moved hs fun hk ho => absurd ⟨?_, ?_⟩ hne
    · unfold key? at hk
      rw [own] at hk
      exact (Option.some.inj hk).symm
    · exact (Option.some.inj ((on_of_working was).symm.trans ho)).symm
  | leave was moved coalescer shared =>
    have hs' : (k, n) ∈ b.coalescer.slots := by
      rw [coalescer] at hs
      exact hs
    by_cases ho : b.key? i = some k ∧ b.On i n
    · exact .inr (.inr ⟨moved.self, ho.1, ho.2⟩)
    · exact hold moved hs' fun hk hon => absurd ⟨hk, hon⟩ ho
  | forgo was moved coalescer shared =>
    rw [coalescer] at hs
    exact hold moved hs fun _ ho => absurd ho (not_on_of_fresh was n)

/-- Moves after which a task has not been given up desert no slot. -/
theorem slot_of_moves (hm : TransGen (Move i) b b') (h : b.Sound) (hd : b'.phase i ≠ .dropped)
    (hs : (k, n) ∈ b'.coalescer.slots) :
    b'.Attended k n ∨ (k, n) ∈ b.coalescer.slots ∧ ¬ b.Attended k n := by
  have hall : ∀ {y : Batch σ κ ν}, TransGen (Move i) b y → y.Sound := fun hy => by
    induction hy with
    | single m => exact h.move m
    | tail _ m ih => exact ih.move m
  induction hm with
  | single m =>
    rcases m.slot h hs with ha | hold | ⟨hp, -⟩
    · exact .inl ha
    · exact .inr hold
    · exact absurd hp hd
  | tail hfirst m ih =>
    rcases m.slot (hall hfirst) hs with ha | ⟨hs, hna⟩ | ⟨hp, -⟩
    · exact .inl ha
    · exact .inr ((ih m.live.1 hs).resolve_left hna)
    · exact absurd hp hd

/-- **A slot after an event** is attended, or it has not been attended before, or the event gives up
a task in its flight. -/
theorem slot_step (h : b.Sound) (e : Event) (hs : (k, n) ∈ (b.step e).coalescer.slots) :
    (b.step e).Attended k n ∨ (k, n) ∈ b.coalescer.slots ∧ ¬ b.Attended k n ∨
      ∃ i, e = .drop i ∧ b.key? i = some k ∧ b.On i n := by
  have hstay : ∀ {i}, Rest i b (b.step e) → (b.step e).Attended k n ∨
      (k, n) ∈ b.coalescer.slots ∧ ¬ b.Attended k n := by
    intro i r
    rw [r.coalescer] at hs
    rw [attended_iff_of_rest r]
    exact (Classical.em _).imp_right fun ha => ⟨hs, ha⟩
  cases e with
  | poll i =>
    rcases moves_poll h i with hm | ⟨hr, -⟩
    · have hd : b.phase i ≠ .dropped := by
        obtain ⟨_, m, -⟩ := TransGen.head'_iff.1 hm
        exact m.live.1
      exact (slot_of_moves hm h (phase_poll_ne hd) hs).imp_right .inl
    · exact (hstay hr).imp_right .inl
  | drop i =>
    rcases move_drop b i with m | hr
    · rcases m.slot h hs with ha | hold | ⟨-, hk, ho⟩
      · exact .inl ha
      · exact .inr (.inl hold)
      · exact .inr (.inr ⟨i, rfl, hk, ho⟩)
    · exact (hstay hr).imp_right .inl
  | count i => exact (hstay (rest_count b i)).imp_right .inl

/-- A value that is there stays there. -/
theorem Move.value_ne_none (m : Move i b b') (h : b.Sound)
    (hv : (b.coalescer.flight n).value ≠ none) : (b'.coalescer.flight n).value ≠ none := by
  rcases m.value_eq h n with he | ⟨_, v, -, -, hv'⟩
  · rwa [he]
  · rw [hv']
    exact Option.some_ne_none v

/-- A slot stays until its flight has a value. -/
theorem Move.slot_or_value (m : Move i b b') (h : b.Sound) (hs : (k, n) ∈ b.coalescer.slots) :
    (k, n) ∈ b'.coalescer.slots ∨ (b'.coalescer.flight n).value ≠ none := by
  cases m with
  | @enter job n' own was look number moved awake coalescer shared =>
    rw [coalescer]
    exact .inl (b.coalescer.slots_subset_join job.key hs)
  | @complete job n' q v own was value moved coalescer shared =>
    by_cases hn : n = n'
    · rw [h.flight_complete was coalescer, if_pos hn]
      exact .inr (Option.some_ne_none v)
    · rw [coalescer]
      exact .inl (Coalescer.mem_close_iff.2 ⟨hs, fun he => hn he.2⟩)
  | leave was moved coalescer shared => rw [coalescer]; exact .inl hs
  | found own was look moved coalescer shared => rw [coalescer]; exact .inl hs
  | follow own was value moved coalescer shared => rw [coalescer]; exact .inl hs
  | begin own was value permit moved awake coalescer shared => rw [coalescer]; exact .inl hs
  | pause was less moved awake coalescer shared => rw [coalescer]; exact .inl hs
  | forgo was moved coalescer shared => rw [coalescer]; exact .inl hs

/-! ## 3. Over a schedule -/

theorem value_play (h : b.Sound) (hv : (b.coalescer.flight n).value ≠ none) (es : List Event) :
    ((b.play es).coalescer.flight n).value ≠ none :=
  (play_keeps (P := fun x => (x.coalescer.flight n).value ≠ none)
    (fun hs hx m => m.value_ne_none hs hx) (fun _ hx r => by rwa [r.coalescer]) h hv es).2

/-- A slot of a flight that never gets a value is never given back. -/
theorem slot_play (h : b.Sound) (hs : (k, n) ∈ b.coalescer.slots) (es : List Event)
    (hv : ((b.play es).coalescer.flight n).value = none) :
    (k, n) ∈ (b.play es).coalescer.slots :=
  (play_keeps (P := fun x => (k, n) ∈ x.coalescer.slots ∨ (x.coalescer.flight n).value ≠ none)
    (fun hs hx m => by
      rcases hx with hx | hx
      · exact m.slot_or_value hs hx
      · exact .inr (m.value_ne_none hs hx))
    (fun _ hx r => by rwa [r.coalescer]) h (.inl hs) es).2.resolve_right fun hne => hne hv

/-- The slot of a task that was given up before its flight had a value. -/
theorem slot_of_deserted (h : b.Sound) (hd : b.Deserted es k n)
    (hv : ((b.play es).coalescer.flight n).value = none) :
    (k, n) ∈ (b.play es).coalescer.slots := by
  obtain ⟨fore, rest, i, rfl, hk, ho, -⟩ := hd
  have hs := sound_play h fore
  rw [play_append] at hv ⊢
  have hfore : ((b.play fore).coalescer.flight n).value = none :=
    Classical.not_not.1 fun hne => value_play hs hne _ hv
  obtain ⟨k', hk', hslot⟩ := hs.slot i n ho hfore
  obtain rfl : k' = k := Option.some.inj (hk'.symm.trans hk)
  exact slot_play hs hslot _ hv

/-- **Each slot is attended or deserted**, after every schedule of tasks that began without slots.
-/
theorem attended_or_deserted (h : b.Sound) (hb : b.coalescer.slots = []) (es : List Event)
    (hs : (k, n) ∈ (b.play es).coalescer.slots) :
    (b.play es).Attended k n ∨ b.Deserted es k n := by
  induction es using List.reverseRecOn with
  | nil =>
    rw [show b.play [] = b from rfl, hb] at hs
    cases hs
  | append_singleton es e ih =>
    have hsound : (b.play (es ++ [e])).Sound := sound_play h _
    by_cases ha : (b.play (es ++ [e])).Attended k n
    · exact .inl ha
    · refine .inr ?_
      have hon := hsound.not_on_of_not_attended hs ha
      rw [play_concat] at hs ha
      rcases slot_step (sound_play h es) e hs with hatt | ⟨hs, hna⟩ | ⟨i, rfl, hk, ho⟩
      · exact absurd hatt ha
      · exact ((ih hs).resolve_left hna).concat hon
      · refine ⟨es, [], i, rfl, hk, ho, fun past hp => ?_⟩
        rw [List.prefix_nil.1 hp]
        exact hon

/-- What the slots are there for, after a schedule. -/
structure Accounted (b : Batch σ κ ν) (es : List Event) : Prop where
  /-- Each key is counted once. -/
  once : ((b.play es).coalescer.slots.map (·.1)).Nodup
  /-- A key has its slot for as long as its flight has no value and there is a task that works or
  waits for it; or else because the last one was given up. -/
  slot : ∀ k n, (k, n) ∈ (b.play es).coalescer.slots ↔
    ((b.play es).coalescer.flight n).value = none ∧
      ((b.play es).Attended k n ∨ b.Deserted es k n)
  /-- If no slot has been deserted, none is left when all tasks have returned or been dropped. -/
  ended : (∀ k n, ¬ b.Deserted es k n) → (∀ i, (b.play es).phase i = .dropped ∨
    ∃ r v, (b.play es).phase i = .returned r v) → (b.play es).coalescer.inflight = 0

/-- **Each slot has a task that works or waits for it, unless the last one has been given up**,
whatever the jobs are, in whatever order the tasks are polled, and whoever is given up at whatever
time. -/
theorem slots_accounted (s : σ) (jobs : List (Job σ κ ν × Option Nat)) (es : List Event) :
    (start s jobs).Accounted es := by
  have hstart : (start s jobs).Sound := sound_start s jobs
  have hsound := sound_play hstart es
  have hslot : ∀ k n, (k, n) ∈ ((start s jobs).play es).coalescer.slots →
      ((start s jobs).play es).Attended k n ∨ (start s jobs).Deserted es k n :=
    fun k n hs => attended_or_deserted hstart rfl es hs
  constructor
  · exact hsound.coalescer.keys_nodup
  · refine fun k n => ⟨fun hs => ⟨(hsound.coalescer.open_ k n hs).2, hslot k n hs⟩, ?_⟩
    rintro ⟨hv, ⟨i, hk, ho⟩ | hd⟩
    · obtain ⟨k', hk', hs⟩ := hsound.slot i n ho hv
      exact Option.some.inj (hk'.symm.trans hk) ▸ hs
    · exact slot_of_deserted hstart hd hv
  · refine fun hnone hend => List.length_eq_zero_iff.2 (List.eq_nil_iff_forall_not_mem.2 ?_)
    rintro ⟨k, n⟩ hs
    obtain ⟨i, -, ho⟩ := (hslot k n hs).resolve_right (hnone k n)
    unfold On at ho
    rcases hend i with hd | ⟨r, v, hr⟩
    · rw [hd] at ho
      cases ho
    · rw [hr] at ho
      cases ho

/-- The slot of the only task, which is given up in its work, is a deserted one. -/
theorem slots_accounted_sample :
    let ws : Works Nat Nat := [(⟨1, 1, fun _ => 5⟩, none)]
    (ws.start.play [.poll 0, .drop 0]).coalescer.slots = [(1, 0)] ∧
      ws.start.Deserted [.poll 0, .drop 0] 1 0 := by
  intro ws
  have hslots : (ws.start.play [.poll 0, .drop 0]).coalescer.slots = [(1, 0)] := by decide
  have haccounted : ws.start.Accounted [.poll 0, .drop 0] := slots_accounted [] ws.jobs _
  refine ⟨hslots, ((haccounted.slot 1 0).1 (hslots ▸ List.mem_cons_self)).2.resolve_left ?_⟩
  rintro ⟨i, hk, ho⟩
  cases i with
  | zero => cases ho
  | succ i => cases hk

/-! ## 4. A slot without tasks -/

/-- **A slot can outlive all tasks**: that of a task that is given up in the middle of its work
while nobody waits. -/
theorem exists_deserted_slot : ¬ ∀ (ws : Works Nat Nat) (es : List Event),
    (∀ i, (ws.start.play es).phase i = .dropped ∨
      ∃ r v, (ws.start.play es).phase i = .returned r v) →
    (ws.start.play es).coalescer.inflight = 0 := by
  intro h
  have hone := h [(⟨1, 1, fun _ => 5⟩, none)] [.poll 0, .drop 0] fun i => by
    cases i with
    | zero => exact .inl rfl
    | succ i => exact .inl rfl
  exact absurd hone (by decide)

/-- Rounds of polls leave it as well. -/
example : (run .empty [] (Works.jobs [(⟨1, 1, fun _ => 5⟩, some 1)] :
    List (Job (List (Note Nat)) Nat Nat × Option Nat))).coalescer.inflight = 1 := by decide

end Batch

end EdgeInclude

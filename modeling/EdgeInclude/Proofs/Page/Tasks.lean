import EdgeInclude.Page.Flight
import Mathlib.Data.List.Nodup

/-!
# Tasks and flights, seen from outside

What is seen of a task is how far it has come, whether it is awake, and its job. What is seen of a
flight is its line: the task that may do the work, and behind it those that wait.

* `Batch.phase`, `Batch.isAwake`, `Batch.job?` — what is seen of a task.
* `Batch.Moved` — one task has moved on, and others have been woken.
* `Flight.line_enter`, `Flight.line_leave` — a task comes to the end of a line, or leaves it.
* `Flight.ask_of_value`, `Flight.ask_of_permit`, `Flight.ask_of_mem_queue`, `Flight.ask_of_new` —
  what a flight answers.
* `Coalescer.Sound` — a key has at most one flight under way; joining and closing keep this.
-/

namespace EdgeInclude

variable {σ κ ν : Type}

/-! ## 1. What is seen of the tasks -/

section Seen

variable {ts : List (Task σ κ ν)} {i j : Nat}

/-- What a change of one task does not touch is seen of it as before. -/
theorem Task.map_getElem?_modify {α : Type} {g : Task σ κ ν → α} (f : Task σ κ ν → Task σ κ ν)
    (hg : ∀ t, g (f t) = g t) (ts : List (Task σ κ ν)) (i j : Nat) :
    (ts.modify i f)[j]?.map g = ts[j]?.map g := by
  rw [List.getElem?_modify]
  cases ts[j]? with
  | none => rfl
  | some t =>
    show some (g (if i = j then f t else t)) = some (g t)
    split
    · rw [hg]
    · rfl

theorem Task.getElem?_modify_of_ne (f : Task σ κ ν → Task σ κ ν) (ts : List (Task σ κ ν))
    (h : j ≠ i) : (ts.modify i f)[j]? = ts[j]? := by
  rw [List.getElem?_modify]
  cases ts[j]? with
  | none => rfl
  | some t => exact congrArg some (if_neg (Ne.symm h))

theorem Task.getElem?_modify_self (f : Task σ κ ν → Task σ κ ν) (ts : List (Task σ κ ν)) (i : Nat) :
    (ts.modify i f)[i]? = ts[i]?.map f := by
  rw [List.getElem?_modify]
  cases ts[i]? with
  | none => rfl
  | some t => exact congrArg some (if_pos rfl)

/-- Changes of a task that do the same to the one that is there. -/
theorem Task.modify_congr {f g : Task σ κ ν → Task σ κ ν} {t : Task σ κ ν} (ht : ts[i]? = some t)
    (h : f t = g t) : ts.modify i f = ts.modify i g := by
  refine List.ext_getElem? fun j => ?_
  by_cases hj : j = i
  · rw [hj, Task.getElem?_modify_self, Task.getElem?_modify_self, ht, Option.map_some, h]
    rfl
  · rw [Task.getElem?_modify_of_ne _ _ hj, Task.getElem?_modify_of_ne _ _ hj]

/-- A task is live as long as it has neither returned nor been dropped. -/
theorem Task.isLive_iff {t : Task σ κ ν} :
    t.isLive = true ↔ t.phase ≠ .dropped ∧ ∀ r v, t.phase ≠ .returned r v := by
  unfold isLive
  cases t.phase <;> simp

end Seen

namespace Batch

variable {b b' m : Batch σ κ ν} {i j : Nat} {p q : Phase ν} {is woken : List Nat}

/-- How far the task of a number has come. A number without a task counts as dropped. -/
def phase (b : Batch σ κ ν) (i : Nat) : Phase ν := (b.tasks[i]?.map (·.phase)).getD .dropped

def isAwake (b : Batch σ κ ν) (i : Nat) : Bool := (b.tasks[i]?.map (·.awake)).getD false

def job? (b : Batch σ κ ν) (i : Nat) : Option (Job σ κ ν) := b.tasks[i]?.map (·.job)

def key? (b : Batch σ κ ν) (i : Nat) : Option κ := (b.job? i).map (·.key)

/-- Whether a task is given up after a number of polls. -/
def limited? (b : Batch σ κ ν) (i : Nat) : Option Bool := b.tasks[i]?.map (·.limit.isSome)

/-- A number of which anything but dropping is seen is that of a task. -/
theorem lt_of_phase_ne (h : b.phase i ≠ .dropped) : i < b.tasks.length := by
  refine Nat.lt_of_not_le fun hle => h ?_
  unfold phase
  rw [List.getElem?_eq_none hle]
  rfl

theorem phase_setPhase_self (h : i < b.tasks.length) (p : Phase ν) :
    (b.setPhase i p).phase i = p := by
  unfold phase setPhase
  rw [Task.getElem?_modify_self, List.getElem?_eq_getElem h]
  rfl

theorem length_wake (b : Batch σ κ ν) (is : List Nat) :
    (b.wake is).tasks.length = b.tasks.length := by
  induction is generalizing b with
  | nil => rfl
  | cons i rest ih => exact (ih (b.wake [i])).trans (List.length_modify ..)

theorem map_getElem?_wake {α : Type} {g : Task σ κ ν → α}
    (hg : ∀ t : Task σ κ ν, g { t with awake := true } = g t) (b : Batch σ κ ν)
    (is : List Nat) (j : Nat) : (b.wake is).tasks[j]?.map g = b.tasks[j]?.map g := by
  induction is generalizing b with
  | nil => rfl
  | cons i rest ih => exact (ih (b.wake [i])).trans (Task.map_getElem?_modify _ hg b.tasks i j)

theorem phase_wake (b : Batch σ κ ν) (is : List Nat) (i : Nat) :
    (b.wake is).phase i = b.phase i := by
  unfold phase
  rw [map_getElem?_wake fun _ => rfl]

theorem isAwake_wake (b : Batch σ κ ν) (is : List Nat) (j : Nat) :
    (b.wake is).isAwake j = true ↔ b.isAwake j = true ∨ j ∈ is ∧ j < b.tasks.length := by
  induction is generalizing b with
  | nil =>
    rw [show b.wake [] = b from rfl]
    simp
  | cons i rest ih =>
    have hone : (b.wake [i]).isAwake j = true ↔
        b.isAwake j = true ∨ j = i ∧ j < b.tasks.length := by
      unfold isAwake wake
      show (((b.tasks.modify i fun t => { t with awake := true })[j]?.map (·.awake)).getD false) =
        true ↔ _
      by_cases hj : j = i
      · subst hj
        rw [Task.getElem?_modify_self]
        by_cases hl : j < b.tasks.length
        · rw [List.getElem?_eq_getElem hl]
          simp [hl]
        · rw [List.getElem?_eq_none (Nat.le_of_not_lt hl)]
          simp [hl]
      · rw [Task.getElem?_modify_of_ne _ _ hj]
        simp [hj]
    show ((b.wake [i]).wake rest).isAwake j = true ↔ _
    rw [ih, length_wake, hone, List.mem_cons, or_assoc, or_and_right]

theorem isAwake_wake_self (h : i < b.tasks.length) : (b.wake [i]).isAwake i = true :=
  (isAwake_wake b [i] i).2 (.inr ⟨List.mem_singleton.2 rfl, h⟩)

/-- Task `i` has moved on, other tasks have been woken, and nothing else has happened to them. -/
structure Moved (i : Nat) (p : Phase ν) (woken : List Nat) (b b' : Batch σ κ ν) : Prop where
  length : b'.tasks.length = b.tasks.length
  job : ∀ j, b'.job? j = b.job? j
  limited : ∀ j, b'.limited? j = b.limited? j
  self : b'.phase i = p
  other : ∀ j, j ≠ i → b'.phase j = b.phase j
  awake : ∀ j, j ≠ i → (b'.isAwake j = true ↔ b.isAwake j = true ∨ j ∈ woken ∧ j < b.tasks.length)

namespace Moved

theorem refl (b : Batch σ κ ν) (i : Nat) : Moved i (b.phase i) [] b b :=
  ⟨rfl, fun _ => rfl, fun _ => rfl, rfl, fun _ _ => rfl, fun _ _ => by simp⟩

/-- Whatever is done to the flights and to what all tasks share. -/
theorem apart (h : Moved i p woken b b') (c : Coalescer κ ν) (s : σ) :
    Moved i p woken b { b' with coalescer := c, shared := s } :=
  ⟨h.length, h.job, h.limited, h.self, h.other, h.awake⟩

/-- Whatever is done to the task besides: it stays the same job, in the same phase. -/
theorem modify (h : Moved i p woken b b') (f : Task σ κ ν → Task σ κ ν)
    (hj : ∀ t, (f t).job = t.job) (hl : ∀ t, (f t).limit.isSome = t.limit.isSome)
    (hp : ∀ t, (f t).phase = t.phase) :
    Moved i p woken b { b' with tasks := b'.tasks.modify i f } where
  length := (List.length_modify ..).trans h.length
  job j := (Task.map_getElem?_modify f hj b'.tasks i j).trans (h.job j)
  limited j := (Task.map_getElem?_modify f hl b'.tasks i j).trans (h.limited j)
  self := by
    rw [← h.self]
    unfold phase
    rw [Task.map_getElem?_modify f hp]
  other j hne := by
    rw [← h.other j hne]
    unfold phase
    rw [Task.getElem?_modify_of_ne f _ hne]
  awake j hne := by
    rw [← h.awake j hne]
    unfold isAwake
    rw [Task.getElem?_modify_of_ne f _ hne]

theorem setPhase (h : Moved i p woken b b') (hi : i < b.tasks.length) (q : Phase ν) :
    Moved i q woken b (b'.setPhase i q) where
  length := (List.length_modify ..).trans h.length
  job j := (Task.map_getElem?_modify (fun t => { t with phase := q }) (fun _ => rfl) b'.tasks i
    j).trans (h.job j)
  limited j := (Task.map_getElem?_modify (fun t => { t with phase := q }) (fun _ => rfl) b'.tasks i
    j).trans (h.limited j)
  self := phase_setPhase_self (h.length ▸ hi) q
  other j hne := by
    rw [← h.other j hne]
    unfold phase Batch.setPhase
    rw [Task.getElem?_modify_of_ne _ _ hne]
  awake j hne := by
    rw [← h.awake j hne]
    unfold isAwake Batch.setPhase
    rw [Task.getElem?_modify_of_ne _ _ hne]

theorem wake (h : Moved i p [] b b') (is : List Nat) : Moved i p is b (b'.wake is) where
  length := (length_wake ..).trans h.length
  job j := (map_getElem?_wake (fun _ => rfl) b' is j).trans (h.job j)
  limited j := (map_getElem?_wake (fun _ => rfl) b' is j).trans (h.limited j)
  self := by
    rw [← h.self]
    unfold phase
    rw [map_getElem?_wake fun _ => rfl]
  other j hne := by
    rw [← h.other j hne]
    unfold phase
    rw [map_getElem?_wake fun _ => rfl]
  awake j hne := by
    rw [isAwake_wake, h.awake j hne, h.length]
    simp

/-- Waking the task itself is none of its own business with others. -/
theorem wakeSelf (h : Moved i p woken b b') : Moved i p woken b (b'.wake [i]) where
  length := (length_wake ..).trans h.length
  job j := (map_getElem?_wake (fun _ => rfl) b' [i] j).trans (h.job j)
  limited j := (map_getElem?_wake (fun _ => rfl) b' [i] j).trans (h.limited j)
  self := by
    rw [← h.self]
    unfold phase
    rw [map_getElem?_wake fun _ => rfl]
  other j hne := by
    rw [← h.other j hne]
    unfold phase
    rw [map_getElem?_wake fun _ => rfl]
  awake j hne := by
    rw [isAwake_wake, h.awake j hne, List.mem_singleton]
    simp [hne]

/-- The second of two moves of one task, of which the first has woken nobody. -/
theorem after (h : Moved i q woken b b') (hm : Moved i p [] b m) : Moved i q woken m b' where
  length := h.length.trans hm.length.symm
  job j := (h.job j).trans (hm.job j).symm
  limited j := (h.limited j).trans (hm.limited j).symm
  self := h.self
  other j hne := (h.other j hne).trans (hm.other j hne).symm
  awake j hne := by
    rw [h.awake j hne, hm.awake j hne, hm.length]
    simp

end Moved

end Batch

/-! ## 2. Flights -/

namespace Flight

variable {f : Flight ν} {i t : Nat} {v : ν}

/-- The tasks of a flight without value: the one that may do the work, then those that wait. -/
def line (f : Flight ν) : List Nat := f.permit.toList ++ f.queue

/-- A task joins the line. -/
def enter (f : Flight ν) (i : Nat) : Flight ν :=
  match f.permit with
  | none => { f with permit := some i }
  | some _ => { f with queue := f.queue ++ [i] }

theorem mem_line_iff : i ∈ f.line ↔ f.permit = some i ∨ i ∈ f.queue := by
  unfold line
  rw [List.mem_append, Option.mem_toList]

theorem value_enter (f : Flight ν) (i : Nat) : (f.enter i).value = f.value := by
  unfold enter
  split <;> rfl

theorem line_enter (h : f.permit = none → f.queue = []) (i : Nat) :
    (f.enter i).line = f.line ++ [i] := by
  unfold enter line
  cases hp : f.permit with
  | none =>
    dsimp only
    rw [h hp]
    rfl
  | some t =>
    dsimp only
    rw [List.append_assoc]

theorem permit_enter_ne (f : Flight ν) (i : Nat) : (f.enter i).permit ≠ none := by
  unfold enter
  split
  · exact Option.some_ne_none i
  · rename_i hp
    rw [hp]
    exact Option.some_ne_none _

theorem permit_enter (h : f.permit = none) (i : Nat) : (f.enter i).permit = some i := by
  unfold enter
  rw [h]

theorem permit_of_permit_enter (h : (f.enter i).permit = some t) :
    f.permit = none ∧ t = i ∨ f.permit = some t := by
  unfold enter at h
  split at h
  · rename_i hp
    exact .inl ⟨hp, (Option.some.inj h).symm⟩
  · exact .inr h

theorem mem_queue_of_mem_enter (h : t ∈ (f.enter i).queue) : t = i ∨ t ∈ f.queue := by
  unfold enter at h
  split at h
  · exact .inr h
  · rcases List.mem_append.1 h with h | h
    · exact .inr h
    · exact .inl (List.mem_singleton.1 h)

theorem ask_of_value (h : f.value = some v) (i : Nat) : f.ask i = (f, .ready v) := by
  unfold ask
  rw [h]

theorem ask_of_permit (hv : f.value = none) (h : f.permit = some i) : f.ask i = (f, .work) := by
  unfold ask
  rw [hv, h]
  dsimp only
  rw [if_pos (beq_self_eq_true i)]

theorem ask_of_mem_queue (hv : f.value = none) (hp : f.permit = some t) (ht : t ≠ i)
    (hq : i ∈ f.queue) : f.ask i = (f, .wait) := by
  unfold ask
  rw [hv, hp]
  dsimp only
  rw [if_neg (by simpa using ht), if_pos (List.contains_iff_mem.2 hq)]

/-- A task that asks for the first time joins the line, and does the work if it is alone in it. -/
theorem ask_of_new (hv : f.value = none) (h : i ∉ f.line) : f.ask i =
    (f.enter i, match f.permit with | none => .work | some _ => .wait) := by
  rw [mem_line_iff, not_or] at h
  unfold ask enter
  rw [hv]
  cases hp : f.permit with
  | none => rfl
  | some t =>
    have ht : ¬ (t == i) = true := fun he => h.1 (by rw [hp, beq_iff_eq.1 he])
    have hq : ¬ f.queue.contains i = true := fun hc => h.2 (List.contains_iff_mem.1 hc)
    dsimp only
    rw [if_neg ht, if_neg hq]

theorem value_leave (f : Flight ν) (i : Nat) : (f.leave i).1.value = f.value := by
  unfold leave
  split
  · split <;> rfl
  · rfl

/-- A task that is given up leaves the line. -/
theorem line_leave (f : Flight ν) (i : Nat) : (f.leave i).1.line = f.line.erase i := by
  unfold leave line
  split
  · rename_i hp
    rw [beq_iff_eq.1 hp]
    cases f.queue with
    | nil => simp
    | cons t rest => simp
  · rename_i hp
    cases hq : f.permit with
    | none => simp
    | some t =>
      have ht : t ≠ i := fun he => hp (by rw [hq, he, beq_self_eq_true])
      simp [ht]

/-- What follows from who may do the work after a task has been given up: it is the same one as
before, or one that has been woken. -/
theorem permit_leave (h : (f.leave i).1.permit = some t) :
    f.permit = some t ∧ t ≠ i ∨ t ∈ (f.leave i).2 := by
  unfold leave at h ⊢
  split at h
  · rename_i hp
    rw [if_pos hp]
    cases hq : f.queue with
    | nil =>
      rw [hq] at h
      cases h
    | cons u rest =>
      rw [hq] at h
      cases h
      exact .inr List.mem_cons_self
  · rename_i hp
    exact .inl ⟨h, fun he => hp (by rw [← he]; exact beq_iff_eq.2 h)⟩

theorem queue_leave_subset (f : Flight ν) (i : Nat) : (f.leave i).1.queue ⊆ f.queue := by
  unfold leave
  split
  · split
    · rename_i hq
      rw [hq]
      exact List.subset_cons_self _ _
    · rename_i hq
      exact List.Subset.refl _
  · exact List.erase_subset

theorem queue_leave_eq_nil (h : f.permit = none → f.queue = [])
    (hn : (f.leave i).1.permit = none) : (f.leave i).1.queue = [] := by
  unfold leave at hn ⊢
  split at hn
  · rename_i hp
    rw [if_pos hp]
    cases hq : f.queue with
    | nil => rfl
    | cons u rest =>
      rw [hq] at hn
      cases hn
  · rename_i hp
    rw [if_neg hp, h hn]
    rfl

end Flight

namespace Coalescer

variable {c : Coalescer κ ν} {k key : κ} {n m : Nat}

theorem flight_set (h : n < c.flights.length) (f : Flight ν) (m : Nat) :
    (c.set n f).flight m = if m = n then f else c.flight m := by
  unfold flight set
  dsimp only
  rw [List.getElem?_set]
  by_cases hm : m = n
  · rw [if_pos hm.symm, if_pos hm, if_pos h]
    rfl
  · rw [if_neg (Ne.symm hm), if_neg hm]

theorem set_flight (c : Coalescer κ ν) (n : Nat) : c.set n (c.flight n) = c := by
  unfold set
  congr 1
  refine List.ext_getElem? fun m => ?_
  rw [List.getElem?_set]
  split
  · rename_i he
    subst he
    split
    · rename_i hlt
      unfold flight
      rw [List.getElem?_eq_getElem hlt]
      rfl
    · rename_i hle
      exact (List.getElem?_eq_none (Nat.le_of_not_lt hle)).symm
  · rfl

theorem flight_of_le (h : c.flights.length ≤ n) : c.flight n = .new := by
  unfold flight
  rw [List.getElem?_eq_none h]
  rfl

/-- A key has at most one flight under way, which has no value yet and is not that of another
key. -/
structure Sound (c : Coalescer κ ν) : Prop where
  open_ : ∀ k n, (k, n) ∈ c.slots → n < c.flights.length ∧ (c.flight n).value = none
  keys_nodup : (c.slots.map (·.1)).Nodup
  numbers_nodup : (c.slots.map (·.2)).Nodup

theorem Sound.number_of_key (h : c.Sound) (hn : (k, n) ∈ c.slots) (hm : (k, m) ∈ c.slots) : n = m :=
  congrArg Prod.snd (List.inj_on_of_nodup_map h.keys_nodup hn hm rfl)

theorem Sound.key_of_number (h : c.Sound) (hk : (k, n) ∈ c.slots) (hk' : (key, n) ∈ c.slots) :
    k = key :=
  congrArg Prod.fst (List.inj_on_of_nodup_map h.numbers_nodup hk hk' rfl)

/-- A flight in the place of another one that has as much of a value. -/
theorem Sound.set (h : c.Sound) (hn : n < c.flights.length) {f : Flight ν}
    (hf : f.value = (c.flight n).value) : (c.set n f).Sound := by
  refine ⟨fun k m hs => ?_, h.keys_nodup, h.numbers_nodup⟩
  obtain ⟨hlt, hv⟩ := h.open_ k m hs
  rw [flight_set hn]
  refine ⟨Nat.lt_of_lt_of_eq hlt (List.length_set ..).symm, ?_⟩
  split
  · rename_i he
    rw [hf, ← he, hv]
  · exact hv

variable [BEq κ]

theorem flight_close (c : Coalescer κ ν) (key : κ) (n m : Nat) :
    (c.close key n).flight m = c.flight m := rfl

/-- A new flight is like one that has never been asked. -/
theorem flight_join (c : Coalescer κ ν) (key : κ) (m : Nat) :
    (c.join key).1.flight m = c.flight m := by
  unfold join
  split
  · rfl
  · unfold flight
    dsimp only
    rw [List.getElem?_append]
    split
    · rfl
    · rename_i hm
      rw [List.getElem?_eq_none (Nat.le_of_not_lt hm), List.getElem?_singleton]
      split <;> rfl

variable [LawfulBEq κ]

/-- A key leads to its flight, and a key without one leads to a new flight. -/
theorem slots_join (c : Coalescer κ ν) (key : κ) :
    ((key, (c.join key).2) ∈ c.slots ∧ (c.join key).1 = c) ∨
      ((∀ n, (key, n) ∉ c.slots) ∧ (c.join key).2 = c.flights.length ∧
        (c.join key).1 = ⟨(key, c.flights.length) :: c.slots, c.flights ++ [.new]⟩) := by
  unfold join
  split
  · rename_i k n hf
    have hb := List.find?_some hf
    have hk : k = key := beq_iff_eq.1 hb
    exact .inl ⟨hk ▸ List.mem_of_find?_eq_some hf, rfl⟩
  · rename_i hf
    refine .inr ⟨fun n hn => ?_, rfl, rfl⟩
    have hno := List.find?_eq_none.1 hf _ hn
    exact hno (beq_self_eq_true key)

theorem mem_close_iff : (k, m) ∈ (c.close key n).slots ↔
    (k, m) ∈ c.slots ∧ ¬ (k = key ∧ m = n) := by
  unfold close
  rw [List.mem_filter]
  simp [imp_iff_not_or]

theorem mem_slots_join (c : Coalescer κ ν) (key : κ) :
    (key, (c.join key).2) ∈ (c.join key).1.slots := by
  rcases c.slots_join key with ⟨hs, hj⟩ | ⟨-, hn, hj⟩
  · rw [hj]
    exact hs
  · rw [hj, hn]
    exact List.mem_cons_self

theorem slots_subset_join (c : Coalescer κ ν) (key : κ) : c.slots ⊆ (c.join key).1.slots := by
  rcases c.slots_join key with ⟨-, hj⟩ | ⟨-, -, hj⟩
  · rw [hj]
    exact List.Subset.refl _
  · rw [hj]
    exact List.subset_cons_self _ _

theorem Sound.join (h : c.Sound) (key : κ) : (c.join key).1.Sound := by
  rcases c.slots_join key with ⟨-, hj⟩ | ⟨hno, -, hj⟩
  · rw [hj]
    exact h
  · have hlt : ∀ {k n}, (k, n) ∈ c.slots → n < c.flights.length := fun hs => (h.open_ _ _ hs).1
    refine ⟨fun k n hs => ?_, ?_, ?_⟩
    · rw [flight_join]
      rw [hj] at hs ⊢
      rw [List.length_append]
      rcases List.mem_cons.1 hs with he | hs
      · cases he
        exact ⟨Nat.lt_succ_self _, by rw [flight_of_le (Nat.le_refl _)]; rfl⟩
      · exact ⟨Nat.lt_succ_of_lt (hlt hs), (h.open_ k n hs).2⟩
    · rw [hj, List.map_cons, List.nodup_cons]
      refine ⟨fun hm => ?_, h.keys_nodup⟩
      obtain ⟨⟨k, n⟩, hs, rfl⟩ := List.mem_map.1 hm
      exact hno n hs
    · rw [hj, List.map_cons, List.nodup_cons]
      refine ⟨fun hm => ?_, h.numbers_nodup⟩
      obtain ⟨⟨k, n⟩, hs, hn⟩ := List.mem_map.1 hm
      exact absurd (hlt hs) (Nat.not_lt.2 (Nat.le_of_eq hn.symm))

/-- A flight that has its value and is no longer under way. -/
theorem Sound.close (h : c.Sound) (hs : (key, n) ∈ c.slots) (f : Flight ν) :
    ((c.set n f).close key n).Sound := by
  refine ⟨fun k m hm => ?_, ?_, ?_⟩
  · obtain ⟨hm, hne⟩ := mem_close_iff.1 hm
    obtain ⟨hlt, hv⟩ := h.open_ k m hm
    have hmn : m ≠ n := fun he => hne ⟨h.key_of_number (he ▸ hm) hs, he⟩
    rw [flight_close, flight_set (h.open_ _ _ hs).1, if_neg hmn]
    exact ⟨Nat.lt_of_lt_of_eq hlt (List.length_set ..).symm, hv⟩
  · exact (List.filter_sublist.map _).nodup h.keys_nodup
  · exact (List.filter_sublist.map _).nodup h.numbers_nodup

end Coalescer

end EdgeInclude

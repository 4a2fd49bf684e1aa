import EdgeInclude.Proofs.Page.Rounds
import Mathlib.Data.List.Induction

/-!
# Tasks that are joined

Tasks that are joined are polled once each, in whatever order, before one of them is polled again.
By then all that have found no value are in the flight of their key, and nobody comes for it any
more: one of them does its work, and the others return the value.

* `Batch.Idle`, `Batch.polls`, `Batch.Joins` — nobody is under way; polls that join tasks.
* `Batch.Boarded`, `Batch.boarded_polls` — who has been polled once has returned or is in a flight
  without value.
* `Batch.Carried`, `Batch.Carried.move` — what becomes of the tasks in these flights.
* `Batch.Led`, `Batch.led_of_joins` — one task of each key has led, and all others share its value.
* `Batch.exists_joins_rounds` — rounds of polls join the tasks.
-/

namespace EdgeInclude

/-- A flight without value hands out none. -/
theorem Flight.ask_ne_ready {ν : Type} {f : Flight ν} (h : f.value = none) (i : Nat) (v : ν) :
    (f.ask i).2 ≠ .ready v := by
  unfold ask
  rw [h]
  dsimp only
  split
  · exact nofun
  · split
    · exact nofun
    · split <;> exact nofun

namespace Batch

variable {σ κ ν : Type} {b₀ b b' c : Batch σ κ ν} {i j n : Nat} {job : Job σ κ ν} {v w : ν}
  {is polled : List Nat}

/-! ## 1. Joining -/

/-- Nobody is under way: each task has yet to begin, or has returned or been dropped. -/
def Idle (b : Batch σ κ ν) : Prop := ∀ i n, ¬ b.On i n

/-- All tasks have returned or been dropped. -/
def Ended (b : Batch σ κ ν) : Prop := ∀ i, b.phase i = .dropped ∨ ∃ r v, b.phase i = .returned r v

/-- The work of each task gives way. -/
def GivesWay (b : Batch σ κ ν) : Prop := ∀ i job, b.job? i = some job → job.pauses ≠ 0

/-- In polls of tasks, each that has not begun has its first poll before any has its second. -/
def Joins (b : Batch σ κ ν) (is : List Nat) : Prop :=
  ∃ first later, is = first ++ later ∧ first.Nodup ∧ ∀ i, b.phase i = .fresh → i ∈ first

theorem idle_start (s : σ) (jobs : List (Job σ κ ν × Option Nat)) : (start s jobs).Idle := by
  intro i n ho
  unfold On at ho
  rcases phase_start s jobs i with ⟨hp, -⟩ | hp
  · rw [hp] at ho
    cases ho
  · rw [hp] at ho
    cases ho

theorem not_on_of_returned {r : Role} (h : b.phase i = .returned r v) (n : Nat) : ¬ b.On i n := by
  unfold On
  rw [h]
  exact nofun

/-- Who has not begun and takes part in no flight has ended. -/
theorem ended_of_not_on (hf : b.phase i ≠ .fresh) (ho : ∀ n, ¬ b.On i n) :
    b.phase i = .dropped ∨ ∃ r v, b.phase i = .returned r v := by
  cases hp : b.phase i with
  | fresh => exact absurd hp hf
  | waiting n => exact absurd (on_of_waiting hp) (ho n)
  | working n q => exact absurd (on_of_working hp) (ho n)
  | returned r v => exact .inr ⟨r, v, rfl⟩
  | dropped => exact .inl rfl

/-- Counting does nothing to a task without a limit. -/
theorem charge_of_unlimited (hl : b.limited? i ≠ some true) : b.charge i = b := by
  unfold charge
  cases ht : b.tasks[i]? with
  | none => rfl
  | some t =>
    dsimp only
    cases hlimit : t.limit with
    | none => rfl
    | some n =>
      refine absurd ?_ hl
      unfold limited?
      rw [ht, Option.map_some, hlimit]
      rfl

section Step

variable [BEq κ]

/-- Polls of tasks, one after the other. -/
def polls (b : Batch σ κ ν) (is : List Nat) : Batch σ κ ν := b.play (is.map .poll)

theorem polls_append (b : Batch σ κ ν) (is js : List Nat) :
    b.polls (is ++ js) = (b.polls is).polls js := by
  unfold polls
  rw [List.map_append, play_append]

/-- Polling a task that has ended does nothing. -/
theorem step_poll_of_ended (h : b.phase i = .dropped ∨ ∃ r v, b.phase i = .returned r v) :
    b.step (.poll i) = b := by
  unfold step
  dsimp only
  cases ht : b.tasks[i]? with
  | none => rfl
  | some t =>
    refine if_neg fun hl => ?_
    have hp := phase_of_getElem? ht
    obtain ⟨hd, hr⟩ := Task.isLive_iff.1 hl
    rcases h with h | ⟨r, v, h⟩
    · exact hd (hp.symm.trans h)
    · exact hr r v (hp.symm.trans h)

/-- A task that asks a flight without value is in it from then on. -/
theorem on_ask (hi : i < b.tasks.length) (hv : (b.coalescer.flight n).value = none)
    (hp : job.pauses ≠ 0) : (b.ask i job n).On i n := by
  unfold ask
  dsimp only
  split
  · rename_i v hturn
    exact absurd hturn (Flight.ask_ne_ready hv i v)
  · exact on_of_waiting (phase_setPhase_self (by exact hi) _)
  · rw [if_neg (by simpa using hp)]
    refine on_of_working (q := job.pauses) ?_
    rw [phase_wake, phase_setPhase_self (by exact hi)]

variable [LawfulBEq κ]

theorem job?_play (h : b.Sound) (es : List Event) (i : Nat) : (b.play es).job? i = b.job? i :=
  (play_keeps (P := fun x => x.job? i = b.job? i)
    (fun _ hx m => by
      obtain ⟨_, _, hm⟩ := m.moved
      exact (hm.job i).trans hx)
    (fun _ hx r => (r.moved.job i).trans hx) h rfl es).2

/-- An event is about one task. -/
theorem phase_step_of_ne (h : b.Sound) (e : Event) (hi : i ≠ e.task) :
    (b.step e).phase i = b.phase i := by
  have hone : ∀ e' ∈ [e], i ≠ e'.task := by simpa using hi
  exact (play_keeps_of (T := fun j => i ≠ j) (P := fun x => x.phase i = b.phase i)
    (fun hj _ hx m => by
      obtain ⟨_, _, hm⟩ := m.moved
      exact (hm.other i hj).trans hx)
    (fun _ _ hx r => (r.phase_eq i).trans hx) hone h rfl).2

theorem on_step_of_ne (h : b.Sound) (e : Event) (hi : i ≠ e.task) :
    (b.step e).On i n ↔ b.On i n := by
  unfold On
  rw [phase_step_of_ne h e hi]

/-- Flights get their values from polls of those that return as leaders. -/
theorem value_poll (h : b.Sound) (hi : ∀ v, (b.step (.poll i)).phase i ≠ .returned .leader v)
    (n : Nat) : ((b.step (.poll i)).coalescer.flight n).value = (b.coalescer.flight n).value := by
  have hone : ∀ e ∈ [Event.poll i], e.task = i := by simp [Event.task]
  have hkeep := (play_keeps_of (T := fun j => j = i) (P := fun x =>
      (∃ v, x.phase i = .returned .leader v) ∨
        (x.coalescer.flight n).value = (b.coalescer.flight n).value)
    (fun hj hs hx m => by
      subst hj
      rcases hx with ⟨v, hx⟩ | hx
      · exact absurd hx (m.live.2 _ v)
      · rcases m.value_eq hs n with he | ⟨_, v, -, hr, -⟩
        · exact .inr (he.trans hx)
        · exact .inl ⟨v, hr⟩)
    (fun _ _ hx r => by rwa [r.phase_eq, r.coalescer]) hone h (.inr rfl)).2
  rcases hkeep with ⟨v, hv⟩ | hkeep
  · exact absurd hv (hi v)
  · exact hkeep

/-- Who is polled for the first time finds a value, or comes into a flight without value. -/
theorem phase_poll_of_fresh (h : b.Sound) (own : b.job? i = some job) (was : b.phase i = .fresh)
    (hp : job.pauses ≠ 0) : (∃ v, (b.step (.poll i)).phase i = .returned .ready v) ∨
      ∃ n, (b.step (.poll i)).On i n ∧ (b.coalescer.flight n).value = none := by
  have hlt := lt_of_job? own
  have ht := List.getElem?_eq_getElem hlt
  have hjob : (b.tasks[i]).job = job := Option.some.inj ((job?_of_getElem? ht).symm.trans own)
  have hphase : (b.tasks[i]).phase = .fresh := (phase_of_getElem? ht).symm.trans was
  have hlive : (b.tasks[i]).isLive = true := by
    unfold Task.isLive
    rw [hphase]
  have hlen : i < (b.tasks.modify i fun t => { t with awake := false }).length := by
    rwa [List.length_modify]
  unfold step
  dsimp only
  rw [ht]
  dsimp only
  rw [if_pos hlive, hjob, hphase]
  unfold advance
  dsimp only
  cases (job.lookup b.shared).2 with
  | some v => exact .inl ⟨v, phase_finish hlen job .ready v⟩
  | none =>
    obtain ⟨-, hv⟩ := h.open_of_join (k := job.key) rfl
    exact .inr ⟨_, on_ask hlen (by rw [Coalescer.flight_join]; exact hv) hp, hv⟩

end Step

/-! ## 2. First polls -/

/-- Some tasks have been polled once. Of those that had not begun, each has found a value or is in a
flight, and no flight that anybody is in has a value. -/
structure Boarded (b₀ : Batch σ κ ν) (polled : List Nat) (b : Batch σ κ ν) : Prop where
  apart : ∀ i, i ∉ polled ∨ b₀.phase i ≠ .fresh → b.phase i = b₀.phase i
  aboard : ∀ i ∈ polled, b₀.phase i = .fresh →
    (∃ v, b.phase i = .returned .ready v) ∨ ∃ n, b.On i n
  open_ : ∀ i n, b.On i n → (b.coalescer.flight n).value = none

namespace Boarded

/-- Who is in a flight had not begun before. -/
theorem fresh_of_on (hb : Boarded b₀ polled b) (idle : b₀.Idle) (ho : b.On i n) :
    b₀.phase i = .fresh := by
  by_contra hf
  unfold On at ho
  rw [hb.apart i (.inr hf)] at ho
  exact idle i n ho

/-- When all have been polled, nobody has yet to begin. -/
theorem not_fresh (hb : Boarded b₀ polled b) (hall : ∀ i, b₀.phase i = .fresh → i ∈ polled)
    (i : Nat) : b.phase i ≠ .fresh := by
  intro hf
  by_cases hf₀ : b₀.phase i = .fresh
  · rcases hb.aboard i (hall i hf₀) hf₀ with ⟨v, hr⟩ | ⟨n, ho⟩
    · exact nomatch hf.symm.trans hr
    · exact not_on_of_fresh hf n ho
  · exact hf₀ ((hb.apart i (.inr hf₀)).symm.trans hf)

variable [BEq κ] [LawfulBEq κ]

/-- One more task is polled for the first time. -/
theorem poll (hb : Boarded b₀ polled b) (h : b.Sound) (idle : b₀.Idle) (hp : b.GivesWay)
    (hi : i ∉ polled) : Boarded b₀ (polled ++ [i]) (b.step (.poll i)) := by
  by_cases hf : b₀.phase i = .fresh
  · have was : b.phase i = .fresh := (hb.apart i (.inl hi)).trans hf
    obtain ⟨job, own⟩ := exists_job? (lt_of_phase_ne fun hd => nomatch was.symm.trans hd)
    have hnow := phase_poll_of_fresh h own was (hp i job own)
    have hvalue := value_poll h (i := i) fun v hr => by
      rcases hnow with ⟨u, hu⟩ | ⟨n, ho, -⟩
      · exact nomatch hr.symm.trans hu
      · exact not_on_of_returned hr n ho
    refine ⟨fun j hj => ?_, fun j hj hfj => ?_, fun j n ho => ?_⟩
    · have hne : j ≠ i := by
        rintro rfl
        rcases hj with hj | hj
        · exact hj (List.mem_append_right _ (List.mem_singleton.2 rfl))
        · exact hj hf
      rw [phase_step_of_ne h (.poll i) hne]
      exact hb.apart j (hj.imp_left fun hm hin => hm (List.mem_append_left _ hin))
    · by_cases hne : j = i
      · subst hne
        exact hnow.imp_right fun ⟨n, ho, _⟩ => ⟨n, ho⟩
      · have hmem : j ∈ polled :=
          (List.mem_append.1 hj).resolve_right fun hm => hne (List.mem_singleton.1 hm)
        simp only [phase_step_of_ne h (.poll i) hne, on_step_of_ne h (.poll i) hne]
        exact hb.aboard j hmem hfj
    · rw [hvalue]
      by_cases hne : j = i
      · subst hne
        rcases hnow with ⟨u, hu⟩ | ⟨m, hm, hv⟩
        · exact absurd ho (not_on_of_returned hu n)
        · obtain rfl : m = n := Option.some.inj (hm.symm.trans ho)
          exact hv
      · exact hb.open_ j n ((on_step_of_ne h (.poll i) hne).1 ho)
  · -- it has ended long ago
    have hend : b.phase i = .dropped ∨ ∃ r v, b.phase i = .returned r v := by
      rw [hb.apart i (.inl hi)]
      exact ended_of_not_on hf (idle i)
    rw [step_poll_of_ended hend]
    refine ⟨fun j hj => hb.apart j (hj.imp_left fun hm hin => hm (List.mem_append_left _ hin)),
      fun j hj hfj => hb.aboard j ((List.mem_append.1 hj).resolve_right fun hm => ?_) hfj, hb.open_⟩
    exact hf (List.mem_singleton.1 hm ▸ hfj)

end Boarded

theorem givesWay_play [BEq κ] [LawfulBEq κ] (h : b.Sound) (hp : b.GivesWay) (es : List Event) :
    (b.play es).GivesWay := fun i job own => hp i job ((job?_play h es i).symm.trans own)

/-- **After its first poll, everybody is in a flight without value or has returned.** -/
theorem boarded_polls [BEq κ] [LawfulBEq κ] (h : b.Sound) (idle : b.Idle) (hp : b.GivesWay)
    (hn : is.Nodup) : Boarded b is (b.polls is) := by
  induction is using List.reverseRecOn with
  | nil => exact ⟨fun _ _ => rfl, nofun, fun i n ho => absurd ho (idle i n)⟩
  | append_singleton is i ih =>
    obtain ⟨his, -, hi⟩ := List.nodup_append.1 hn
    rw [polls_append]
    exact (ih his).poll (sound_play h _) idle (givesWay_play h hp _)
      fun hm => hi i hm i (List.mem_singleton.2 rfl) rfl

/-! ## 3. Flights with all their tasks -/

/-- What has become, from a time `b` on at which nobody had yet to begin, of the tasks that were in
flights then. -/
structure Carried (b c : Batch σ κ ν) : Prop where
  begun : ∀ i, c.phase i ≠ .fresh
  apart : ∀ i, (∀ n, ¬ b.On i n) → c.phase i = b.phase i
  /-- They are still there, or have been given up, or have returned the value of the flight. -/
  aboard : ∀ i n, b.On i n → c.On i n ∨ c.phase i = .dropped ∨
    ∃ v, (c.coalescer.flight n).value = some v ∧
      (c.phase i = .returned .leader v ∨ c.phase i = .returned .follower v)
  /-- A value comes from one of them. -/
  led : ∀ i n v, b.On i n → (c.coalescer.flight n).value = some v →
    ∃ j, b.On j n ∧ c.phase j = .returned .leader v
  alone : ∀ i j n v w, b.On i n → b.On j n → c.phase i = .returned .leader v →
    c.phase j = .returned .leader w → i = j

namespace Carried

theorem refl (hf : ∀ i, b.phase i ≠ .fresh)
    (ho : ∀ i n, b.On i n → (b.coalescer.flight n).value = none) : Carried b b where
  begun := hf
  apart _ _ := rfl
  aboard _ _ hon := .inl hon
  led i n _ hon hv := nomatch (ho i n hon).symm.trans hv
  alone _ _ n _ _ hi _ hr _ := absurd hi (not_on_of_returned hr n)

/-- Who is under way has been so from the beginning, in the same flight. -/
theorem on_of_on (hc : Carried b c) (ho : c.On i n) : b.On i n := by
  by_cases hb : ∃ m, b.On i m
  · obtain ⟨m, hm⟩ := hb
    rcases hc.aboard i m hm with hon | hd | ⟨v, -, hr | hr⟩
    · exact Option.some.inj (hon.symm.trans ho) ▸ hm
    · unfold On at ho
      rw [hd] at ho
      cases ho
    · exact absurd ho (not_on_of_returned hr n)
    · exact absurd ho (not_on_of_returned hr n)
  · have hphase := hc.apart i fun m hm => hb ⟨m, hm⟩
    unfold On at ho ⊢
    rwa [hphase] at ho

/-- Who has returned from a flight has returned its value. -/
theorem value_of_returned (hc : Carried b c) {r : Role} (ho : b.On i n)
    (hr : c.phase i = .returned r v) : (c.coalescer.flight n).value = some v := by
  rcases hc.aboard i n ho with hon | hd | ⟨u, hu, hl | hl⟩
  · exact absurd hon (not_on_of_returned hr n)
  · cases hr.symm.trans hd
  · cases hr.symm.trans hl
    exact hu
  · cases hr.symm.trans hl
    exact hu

theorem begun_moved (hc : Carried b c) {p : Phase ν} {woken : List Nat} (hm : c.Moved i p woken b')
    (hf : p ≠ .fresh) (j : Nat) : b'.phase j ≠ .fresh := by
  by_cases hj : j = i
  · rw [hj, hm.self]
    exact hf
  · rw [hm.other j hj]
    exact hc.begun j

theorem apart_moved (hc : Carried b c) {p : Phase ν} {woken : List Nat} (hm : c.Moved i p woken b')
    (hi : b.On i n) (j : Nat) (hno : ∀ m, ¬ b.On j m) : b'.phase j = b.phase j := by
  have hj : j ≠ i := fun he => hno n (he ▸ hi)
  rw [hm.other j hj]
  exact hc.apart j hno

/-- A move of a task in a flight that leaves the values of flights alone. -/
theorem of_moved (hc : Carried b c) {p : Phase ν} {woken : List Nat} (hm : c.Moved i p woken b')
    (hi : b.On i n) (hv : ∀ m, (b'.coalescer.flight m).value = (c.coalescer.flight m).value)
    (hwas : c.On i n) (hf : p ≠ .fresh) (hl : ∀ v, p ≠ .returned .leader v)
    (hp : flightOf? p = some n ∨ p = .dropped ∨
      ∃ v, (c.coalescer.flight n).value = some v ∧ p = .returned .follower v) : Carried b b' where
  begun := hc.begun_moved hm hf
  apart := hc.apart_moved hm hi
  aboard j m hj := by
    rw [hv]
    by_cases hne : j = i
    · subst hne
      obtain rfl : n = m := Option.some.inj (hi.symm.trans hj)
      rw [hm.on_self, hm.self]
      exact hp.imp_right (Or.imp_right fun ⟨v, hv, hr⟩ => ⟨v, hv, .inr hr⟩)
    · rw [hm.on_of_ne hne, hm.other j hne]
      exact hc.aboard j m hj
  led j m v hj hvm := by
    rw [hv] at hvm
    obtain ⟨l, hlm, hr⟩ := hc.led j m v hj hvm
    have hne : l ≠ i := fun he => not_on_of_returned (he ▸ hr) n hwas
    exact ⟨l, hlm, (hm.other l hne).trans hr⟩
  alone j k m v w hj hk hr hr' := by
    have hne : ∀ {l u}, b'.phase l = .returned .leader u → l ≠ i := fun hu he =>
      hl _ (hm.self.symm.trans (he ▸ hu))
    exact hc.alone j k m v w hj hk ((hm.other j (hne hr)).symm.trans hr)
      ((hm.other k (hne hr')).symm.trans hr')

theorem rest (hc : Carried b c) (r : Rest i c b') : Carried b b' := by
  have hphase := r.phase_eq
  constructor
  · simpa only [hphase] using hc.begun
  · simpa only [hphase] using hc.apart
  · simpa only [hphase, r.on_iff, r.coalescer] using hc.aboard
  · simpa only [hphase, r.coalescer] using hc.led
  · simpa only [hphase] using hc.alone

/-- The work of a flight is done. -/
theorem of_complete (hc : Carried b c) (h : c.Sound) {q : Nat} (was : c.phase i = .working n q)
    (hm : c.Moved i (.returned .leader v) (c.coalescer.flight n).queue b')
    (hf : ∀ m, b'.coalescer.flight m =
      if m = n then ((c.coalescer.flight n).settle v).1 else c.coalescer.flight m) :
    Carried b b' := by
  obtain ⟨hnone, -⟩ := h.of_working was
  have hwas := on_of_working was
  have hi := hc.on_of_on hwas
  have hvn : (b'.coalescer.flight n).value = some v := by
    rw [hf, if_pos rfl]
    rfl
  refine ⟨hc.begun_moved hm nofun, hc.apart_moved hm hi, ?_, ?_, ?_⟩
  · intro j m hj
    by_cases hne : j = i
    · subst hne
      obtain rfl : n = m := Option.some.inj (hi.symm.trans hj)
      exact .inr (.inr ⟨v, hvn, .inl hm.self⟩)
    · rw [hm.on_of_ne hne, hm.other j hne]
      rcases hc.aboard j m hj with ho | hd | ⟨w, hw, hr⟩
      · exact .inl ho
      · exact .inr (.inl hd)
      · have hmn : m ≠ n := by
          intro he
          rw [he, hnone] at hw
          cases hw
        rw [hf, if_neg hmn]
        exact .inr (.inr ⟨w, hw, hr⟩)
  · intro j m w hj hw
    by_cases hmn : m = n
    · subst hmn
      cases hvn.symm.trans hw
      exact ⟨i, hi, hm.self⟩
    · rw [hf, if_neg hmn] at hw
      obtain ⟨l, hl, hr⟩ := hc.led j m w hj hw
      have hne : l ≠ i := fun he => hmn (Option.some.inj ((he ▸ hl).symm.trans hi))
      exact ⟨l, hl, (hm.other l hne).trans hr⟩
  · intro j k m u w hj hk hr hr'
    by_cases hmn : m = n
    · subst hmn
      -- nobody of this flight has returned before
      have hself : ∀ {l u}, b.On l m → b'.phase l = .returned .leader u → l = i := by
        intro l u hl hu
        by_contra hne
        cases hnone.symm.trans (hc.value_of_returned hl ((hm.other l hne).symm.trans hu))
      rw [hself hj hr, hself hk hr']
    · have hne : ∀ {l}, b.On l m → l ≠ i := fun hl he =>
        hmn (Option.some.inj ((he ▸ hl).symm.trans hi))
      exact hc.alone j k m u w hj hk ((hm.other j (hne hj)).symm.trans hr)
        ((hm.other k (hne hk)).symm.trans hr')

/-- **Every move keeps it.** -/
theorem move [BEq κ] (hc : Carried b c) (h : c.Sound) (m : Move i c b') : Carried b b' := by
  cases m with
  | found own was => exact absurd was (hc.begun i)
  | enter own was => exact absurd was (hc.begun i)
  | forgo was => exact absurd was (hc.begun i)
  | follow own was value moved coalescer shared =>
    have ho := on_of_waiting was
    exact hc.of_moved moved (hc.on_of_on ho) (fun m => by rw [coalescer]) ho nofun nofun
      (.inr (.inr ⟨_, value, rfl⟩))
  | begin own was value permit moved awake coalescer shared =>
    have ho := on_of_waiting was
    exact hc.of_moved moved (hc.on_of_on ho) (fun m => by rw [coalescer]) ho nofun nofun (.inl rfl)
  | pause was less moved awake coalescer shared =>
    have ho := on_of_working was
    exact hc.of_moved moved (hc.on_of_on ho) (fun m => by rw [coalescer]) ho nofun nofun (.inl rfl)
  | complete own was value moved coalescer shared =>
    exact hc.of_complete h was moved (h.flight_complete was coalescer)
  | leave was moved coalescer shared =>
    refine hc.of_moved moved (hc.on_of_on was) (fun m => ?_) was nofun nofun (.inr (.inl rfl))
    rw [h.flight_leave was coalescer]
    split
    · rename_i he
      rw [he, Flight.value_leave]
    · rfl

end Carried

/-! ## 4. One leader -/

/-- What has become, from `b` to `c`, of the tasks that had not begun: all have returned, and one of
each key that has to be computed has done it for all others. -/
structure Led (b c : Batch σ κ ν) : Prop where
  apart : ∀ i, b.phase i ≠ .fresh → c.phase i = b.phase i
  returned : ∀ i, b.phase i = .fresh → ∃ r v, c.phase i = .returned r v
  led : ∀ i r v, b.phase i = .fresh → c.phase i = .returned r v → r ≠ .ready →
    ∃ j, b.phase j = .fresh ∧ b.key? j = b.key? i ∧ c.phase j = .returned .leader v
  alone : ∀ i j v w, b.phase i = .fresh → b.phase j = .fresh → b.key? i = b.key? j →
    c.phase i = .returned .leader v → c.phase j = .returned .leader w → i = j

variable [BEq κ] [LawfulBEq κ]

/-- **Of tasks that are joined, one leads for each key**, and all others that have found no value
return its value. -/
theorem led_of_joins (h : b.Sound) (idle : b.Idle) (hp : b.GivesWay) (joins : b.Joins is)
    (ended : (b.polls is).Ended) : Led b (b.polls is) := by
  obtain ⟨first, later, rfl, hn, hall⟩ := joins
  have hb := boarded_polls h idle hp hn
  have hs : (b.polls first).Sound := sound_play h _
  have hkey : ∀ i, (b.polls first).key? i = b.key? i := fun i =>
    congrArg (Option.map fun job : Job σ κ ν => job.key) (job?_play h _ i)
  have hc : Carried (b.polls first) (b.polls (first ++ later)) := by
    rw [polls_append]
    exact (play_keeps (P := Carried (b.polls first)) (fun hs hx m => hx.move hs m)
      (fun _ hx r => hx.rest r) hs (.refl (hb.not_fresh hall) hb.open_) _).2
  -- polls give nobody up
  have hkept : ∀ i, b.phase i = .fresh → (b.polls (first ++ later)).phase i ≠ .dropped := by
    intro i hf hd
    rcases dropped_of_play h _ hd with hd | hd
    · exact nomatch hf.symm.trans hd
    · obtain ⟨j, -, hj⟩ := List.mem_map.1 hd
      cases hj
  -- who has not found a value has been in a flight, and has returned its value
  have hflight : ∀ i r v, b.phase i = .fresh → (b.polls (first ++ later)).phase i = .returned r v →
      r ≠ .ready → ∃ n, (b.polls first).On i n ∧
        ((b.polls (first ++ later)).coalescer.flight n).value = some v := by
    intro i r v hf hr hrole
    rcases hb.aboard i (hall i hf) hf with ⟨u, hu⟩ | ⟨n, ho⟩
    · have hsame := hc.apart i (not_on_of_returned hu)
      cases hr.symm.trans (hsame.trans hu)
      exact absurd rfl hrole
    · exact ⟨n, ho, hc.value_of_returned ho hr⟩
  constructor
  · intro i hf
    rw [hc.apart i fun n ho => hf (hb.fresh_of_on idle ho)]
    exact hb.apart i (.inr hf)
  · exact fun i hf => (ended i).resolve_left (hkept i hf)
  · intro i r v hf hr hrole
    obtain ⟨n, ho, hv⟩ := hflight i r v hf hr hrole
    obtain ⟨j, hj, hl⟩ := hc.led i n v ho hv
    refine ⟨j, hb.fresh_of_on idle hj, ?_, hl⟩
    rw [← hkey, ← hkey]
    exact hs.key_eq_of_on hj ho
  · intro i j v w hfi hfj hk hi hj
    obtain ⟨n, hon, -⟩ := hflight i .leader v hfi hi nofun
    obtain ⟨m, hom, -⟩ := hflight j .leader w hfj hj nofun
    have hnm : n = m := hs.flight_eq_of_key (by rw [hkey, hkey, hk]) hon hom (hb.open_ i n hon)
      (hb.open_ j m hom)
    exact hc.alone i j n v w hon (hnm ▸ hom) hi hj

/-! ## 5. Rounds join tasks -/

/-- A task without a limit is polled, or passed over; it is not passed over if it has not begun. -/
theorem poll_eq (h : b.Sound) (hl : b.limited? i ≠ some true) :
    b.poll i = b.step (.poll i) ∨ b.poll i = b ∧ b.phase i ≠ .fresh := by
  cases ht : b.tasks[i]? with
  | none =>
    refine .inr ⟨?_, fun hf => ?_⟩
    · unfold poll
      rw [ht]
    · unfold phase at hf
      rw [ht] at hf
      cases hf
  | some t =>
    have hphase := phase_of_getElem? ht
    by_cases hbusy : (t.awake && t.isLive) = true
    · obtain ⟨ha, hlive⟩ := Bool.and_eq_true_iff.1 hbusy
      refine .inl ?_
      rw [poll_of_awake ht ha hlive]
      exact charge_of_unlimited (by rwa [show b.step (.poll i) = b.play [.poll i] from rfl,
        limited_play h])
    · refine .inr ⟨?_, fun hf => hbusy ?_⟩
      · unfold poll
        rw [ht]
        exact if_neg hbusy
      · have ha := h.fresh i hf
        unfold isAwake at ha
        rw [ht] at ha
        have hlive : t.isLive = true := by
          unfold Task.isLive
          rw [← hphase, hf]
        exact Bool.and_eq_true_iff.2 ⟨ha, hlive⟩

/-- Tasks that are gone through one after the other: some of them are polled, and among these all
that have not begun. -/
theorem exists_polls_foldl (h : b.Sound) (hl : ∀ i, b.limited? i ≠ some true) (hn : is.Nodup) :
    ∃ js, js.Sublist is ∧ is.foldl poll b = b.polls js ∧
      ∀ i ∈ is, b.phase i = .fresh → i ∈ js := by
  induction is generalizing b with
  | nil => exact ⟨[], .slnil, rfl, nofun⟩
  | cons i rest ih =>
    obtain ⟨hi, hrest⟩ := List.nodup_cons.1 hn
    rw [List.foldl_cons]
    rcases poll_eq h (hl i) with he | ⟨he, hf⟩
    · rw [he]
      have hl' : ∀ j, (b.step (.poll i)).limited? j ≠ some true := fun j =>
        limited_play h [.poll i] j ▸ hl j
      obtain ⟨js, hjs, hfold, hfresh⟩ := ih (sound_play h [.poll i]) hl' hrest
      refine ⟨i :: js, hjs.cons_cons i, hfold, fun j hj hf => ?_⟩
      rcases List.mem_cons.1 hj with rfl | hj
      · exact List.mem_cons_self
      · have hne : j ≠ i := fun he => hi (he ▸ hj)
        exact List.mem_cons_of_mem _ (hfresh j hj ((phase_step_of_ne h (.poll i) hne).trans hf))
    · rw [he]
      obtain ⟨js, hjs, hfold, hfresh⟩ := ih h hl hrest
      refine ⟨js, hjs.cons i, hfold, fun j hj hfj => ?_⟩
      rcases List.mem_cons.1 hj with rfl | hj
      · exact absurd hfj hf
      · exact hfresh j hj hfj

theorem exists_polls_round (h : b.Sound) (hl : ∀ i, b.limited? i ≠ some true) : ∃ first,
    first.Nodup ∧ (∀ i, b.phase i = .fresh → i ∈ first) ∧ b.round = b.polls first := by
  obtain ⟨js, hjs, hround, hfresh⟩ := exists_polls_foldl h hl List.nodup_range
  refine ⟨js, hjs.nodup List.nodup_range, fun i hf => hfresh i (List.mem_range.2 ?_) hf, hround⟩
  exact lt_of_phase_ne fun hd => nomatch hf.symm.trans hd

/-- **Rounds of polls join tasks** that have no limits. -/
theorem exists_joins_rounds (h : b.Sound) (hl : ∀ i, b.limited? i ≠ some true) (n : Nat) :
    ∃ is, b.Joins is ∧ b.rounds (n + 1) = b.polls is := by
  have hlater : ∀ (n : Nat) {b : Batch σ κ ν}, b.Sound → (∀ i, b.limited? i ≠ some true) →
      ∃ later, b.rounds n = b.polls later := by
    intro n
    induction n with
    | zero => exact fun _ _ => ⟨[], rfl⟩
    | succ n ih =>
      intro b h hl
      unfold rounds
      split
      · exact ⟨[], rfl⟩
      · obtain ⟨first, -, -, hround⟩ := exists_polls_round h hl
        have hl' : ∀ i, b.round.limited? i ≠ some true := fun i => by
          rw [hround, polls, limited_play h]
          exact hl i
        obtain ⟨later, hrest⟩ := ih (sound_round h) hl'
        exact ⟨first ++ later, by rw [hrest, hround, polls_append]⟩
  unfold rounds
  split
  · rename_i hq
    refine ⟨[], ⟨[], [], rfl, .nil, fun i hf => ?_⟩, rfl⟩
    rcases ended_of_quiet h hq i with hd | ⟨r, v, hr⟩
    · cases hf.symm.trans hd
    · cases hf.symm.trans hr
  · obtain ⟨first, hn, hfresh, hround⟩ := exists_polls_round h hl
    have hl' : ∀ i, b.round.limited? i ≠ some true := fun i => by
      rw [hround, polls, limited_play h]
      exact hl i
    obtain ⟨later, hrest⟩ := hlater n (sound_round h) hl'
    exact ⟨first ++ later, ⟨first, later, rfl, hn, hfresh⟩, by rw [hrest, hround, polls_append]⟩

end Batch

end EdgeInclude

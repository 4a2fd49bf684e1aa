import EdgeInclude.Proofs.Page.Rounds

/-!
# One work for all

Tasks that bring along the same work do it once. To tell which works have been started and which
values come from where, every task writes down what it does.

* `Note`, `Work.job` — what is written, and by whom.
* `Tells`, `Chronicle` — what is written is true; `Chronicle.move` shows it for every move.
* `Unfinished` — works that have been started and are not done.
* `Punctual` — all tasks of a key begin before a work for the key is done.
* `single_flight` — the works of tasks over every schedule.
-/

namespace EdgeInclude

/-! ## 1. Works -/

/-- What is noted of tasks of which each brings a work along. -/
inductive Note (ν : Type) where
  /-- A task begins. -/
  | began (task : Nat)
  /-- The work of a task starts. -/
  | started (task : Nat)
  /-- The work of a task is done, with a value. -/
  | completed (task : Nat) (v : ν)
  | returned (task : Nat) (role : Role) (v : ν)
  deriving DecidableEq, Repr

variable {κ ν : Type}

def Note.task : Note ν → Nat
  | began i | started i | completed i _ | returned i _ _ => i

/-- A work for a key, which gives way some times before it is done. Its value may depend on all that
has happened until then. -/
structure Work (κ ν : Type) where
  key : κ
  pauses : Nat
  value : List (Note ν) → ν

/-- The work as a job of a task, which notes what happens to it. -/
def Work.job (w : Work κ ν) (i : Nat) : Job (List (Note ν)) κ ν where
  key := w.key
  lookup log := (log ++ [.began i], none)
  start log := log ++ [.started i]
  pauses := w.pauses
  finish log := (log ++ [.completed i (w.value log)], w.value log)
  settle role v log := log ++ [.returned i role v]

/-- The works of tasks, with the limits of the tasks. -/
abbrev Works (κ ν : Type) := List (Work κ ν × Option Nat)

namespace Works

/-- The key of the task of a number. -/
def key? (ws : Works κ ν) (i : Nat) : Option κ := ws[i]?.map (·.1.key)

def jobs (ws : Works κ ν) : List (Job (List (Note ν)) κ ν × Option Nat) :=
  ws.mapIdx fun i (w, limit) => (w.job i, limit)

/-- Tasks of which none has begun. -/
def start (ws : Works κ ν) : Batch (List (Note ν)) κ ν := .start [] ws.jobs

end Works

/-! ## 2. What is written -/

variable {ws : Works κ ν} {log more : List (Note ν)} {i j n : Nat} {p : Phase ν} {v : ν}
  {woken : List Nat} {b b' : Batch (List (Note ν)) κ ν}

/-- What has been written of a task, by how far it has come. -/
def Tells (ws : Works κ ν) (log : List (Note ν)) (i : Nat) : Phase ν → Prop
  | .fresh => ∀ x ∈ log, x.task ≠ i
  | .waiting _ => .began i ∈ log ∧ .started i ∉ log ∧ ∀ v, .completed i v ∉ log
  | .working .. => .began i ∈ log ∧ .started i ∈ log ∧ ∀ v, .completed i v ∉ log
  | .returned .leader v => (∃ past w, ws[i]?.map (·.1) = some w ∧
      past ++ [.completed i v, .returned i .leader v] <+: log ∧
      .began i ∈ past ∧ .started i ∈ past ∧ w.value past = v) ∧
      ∀ u, .completed i u ∈ log → u = v
  | .returned .follower v => .started i ∉ log ∧ (∀ u, .completed i u ∉ log) ∧
      ∃ j, ws.key? j = ws.key? i ∧ [.began i, .completed j v, .returned i .follower v].Sublist log
  | .returned .ready _ => False
  | .dropped => ∀ v, .completed i v ∉ log

theorem not_mem_snoc {x y : Note ν} (h : x ∉ log) (hne : x ≠ y) : x ∉ log ++ [y] := by
  rw [List.mem_append, List.mem_singleton]
  rintro (hm | he)
  · exact h hm
  · exact hne he

/-- What is written of other tasks is of no account. -/
theorem Tells.append (h : Tells ws log i p) (hmore : ∀ x ∈ more, x.task ≠ i) :
    Tells ws (log ++ more) i p := by
  have hmem : ∀ {x : Note ν}, x.task = i → (x ∈ log ++ more ↔ x ∈ log) := by
    intro x hx
    rw [List.mem_append]
    exact or_iff_left fun hm => hmore x hm hx
  have hpre : log <+: log ++ more := List.prefix_append _ _
  cases p with
  | fresh =>
    intro x hx
    rcases List.mem_append.1 hx with hx | hx
    · exact h x hx
    · exact hmore x hx
  | waiting n => exact ⟨(hmem rfl).2 h.1, fun hs => h.2.1 ((hmem rfl).1 hs),
      fun v hc => h.2.2 v ((hmem rfl).1 hc)⟩
  | working n q => exact ⟨(hmem rfl).2 h.1, (hmem rfl).2 h.2.1,
      fun v hc => h.2.2 v ((hmem rfl).1 hc)⟩
  | returned r v =>
    cases r with
    | ready => exact h
    | leader =>
      obtain ⟨⟨past, w, hw, hl, hrest⟩, hone⟩ := h
      exact ⟨⟨past, w, hw, hl.trans hpre, hrest⟩, fun u hu => hone u ((hmem rfl).1 hu)⟩
    | follower =>
      obtain ⟨hs, hc, j, hk, hl⟩ := h
      exact ⟨fun hn => hs ((hmem rfl).1 hn), fun u hu => hc u ((hmem rfl).1 hu), j, hk,
        hl.trans hpre.sublist⟩
  | dropped => exact fun v hc => h v ((hmem rfl).1 hc)

theorem tells_of_moved (h : ∀ j, Tells ws b.shared j (b.phase j)) (hm : b.Moved i p woken b')
    (hs : b'.shared = b.shared ++ more) (hmore : ∀ x ∈ more, x.task = i)
    (hi : Tells ws b'.shared i p) (j : Nat) : Tells ws b'.shared j (b'.phase j) := by
  by_cases hj : j = i
  · rw [hj, hm.self]
    exact hi
  · rw [hm.other j hj, hs]
    exact (h j).append fun x hx he => hj (he.symm.trans (hmore x hx))

namespace Tells

/-- Who begins has begun, and has done no more. -/
theorem enter (h : Tells ws log i .fresh) (n : Nat) :
    Tells ws (log ++ [.began i]) i (.waiting n) :=
  ⟨List.mem_append_right _ (List.mem_singleton.2 rfl), not_mem_snoc (fun hm => h _ hm rfl) nofun,
    fun _ => not_mem_snoc (fun hm => h _ hm rfl) nofun⟩

theorem begin (h : Tells ws log i (.waiting n)) (q : Nat) :
    Tells ws (log ++ [.started i]) i (.working n q) :=
  ⟨List.mem_append_left _ h.1, List.mem_append_right _ (List.mem_singleton.2 rfl),
    fun v => not_mem_snoc (h.2.2 v) nofun⟩

theorem follow (h : Tells ws log i (.waiting n)) (hk : ws.key? j = ws.key? i)
    (hl : [.began i, .completed j v].Sublist log) :
    Tells ws (log ++ [.returned i .follower v]) i (.returned .follower v) :=
  ⟨not_mem_snoc h.2.1 nofun, fun u => not_mem_snoc (h.2.2 u) nofun, j, hk,
    hl.append (List.Sublist.refl [_])⟩

theorem complete {q : Nat} {w : Work κ ν} (h : Tells ws log i (.working n q))
    (hw : ws[i]?.map (·.1) = some w) (hv : w.value log = v) :
    Tells ws (log ++ [.completed i v, .returned i .leader v]) i (.returned .leader v) := by
  refine ⟨⟨log, w, hw, List.prefix_rfl, h.1, h.2.1, hv⟩, fun u hm => ?_⟩
  rcases List.mem_append.1 hm with hm | hm
  · exact absurd hm (h.2.2 u)
  · rcases List.mem_cons.1 hm with he | hm
    · cases he
      rfl
    · exact nomatch List.mem_singleton.1 hm

/-- Who is dropped has not done its work. -/
theorem drop (h : Tells ws log i p) (hp : ∀ r v, p ≠ .returned r v) :
    Tells ws log i .dropped := by
  cases p with
  | fresh => exact fun v hm => h _ hm rfl
  | waiting n => exact h.2.2
  | working n q => exact h.2.2
  | returned r v => exact absurd rfl (hp r v)
  | dropped => exact h

theorem began (h : Tells ws log i p) (hf : p ≠ .fresh) (hd : p ≠ .dropped) : .began i ∈ log := by
  cases p with
  | fresh => exact absurd rfl hf
  | waiting n => exact h.1
  | working n q => exact h.1
  | returned r v =>
    cases r with
    | ready => exact h.elim
    | leader =>
      obtain ⟨⟨past, w, -, hl, hb, -⟩, -⟩ := h
      exact hl.subset (List.mem_append_left _ hb)
    | follower =>
      obtain ⟨-, -, j, -, hl⟩ := h
      exact hl.subset List.mem_cons_self
  | dropped => exact absurd rfl hd

/-- Whose work is done has returned its value. -/
theorem returned_of_completed (h : Tells ws log i p) (hc : .completed i v ∈ log) :
    p = .returned .leader v := by
  cases p with
  | fresh => exact absurd rfl (h _ hc)
  | waiting n => exact absurd hc (h.2.2 v)
  | working n q => exact absurd hc (h.2.2 v)
  | returned r u =>
    cases r with
    | ready => exact h.elim
    | leader => rw [h.2 v hc]
    | follower => exact absurd hc (h.2.1 v)
  | dropped => exact absurd hc (h v)

theorem completed_of_returned (h : Tells ws log i (.returned .leader v)) :
    .completed i v ∈ log := by
  obtain ⟨⟨past, w, -, hl, -⟩, -⟩ := h
  exact hl.subset (List.mem_append_right _ List.mem_cons_self)

theorem started_of_returned (h : Tells ws log i (.returned .leader v)) : .started i ∈ log := by
  obtain ⟨⟨past, w, -, hl, -, hs, -⟩, -⟩ := h
  exact hl.subset (List.mem_append_left _ hs)

/-- Whose work has started and is not done works, or has been dropped. -/
theorem working_of_started (h : Tells ws log i p) (hs : .started i ∈ log)
    (hc : ∀ v, .completed i v ∉ log) (hd : p ≠ .dropped) : ∃ n q, p = .working n q := by
  cases p with
  | fresh => exact absurd rfl (h _ hs)
  | waiting n => exact absurd hs h.2.1
  | working n q => exact ⟨n, q, rfl⟩
  | returned r v =>
    cases r with
    | ready => exact h.elim
    | leader => exact absurd h.completed_of_returned (hc v)
    | follower => exact absurd hs h.1
  | dropped => exact absurd rfl hd

end Tells

/-- A work that has started in some past and is not done in it, of a task that has not been given
up. -/
def Unfinished (b : Batch (List (Note ν)) κ ν) (past : List (Note ν)) (i : Nat) : Prop :=
  .started i ∈ past ∧ (∀ v, .completed i v ∉ past) ∧ b.phase i ≠ .dropped

/-- No task of a key begins after a work for the key is done. -/
def Punctual (ws : Works κ ν) (k : κ) (log : List (Note ν)) : Prop :=
  ∀ i j v, ws.key? i = some k → ws.key? j = some k →
    ¬ [.completed j v, .began i].Sublist log

/-- What a task of a key has come to when the work of another one is done. -/
def Batch.Shares (b : Batch (List (Note ν)) κ ν) (i : Nat) (v : ν) : Prop :=
  b.phase i = .dropped ∨ b.phase i = .returned .follower v ∨
    ∃ n, b.phase i = .waiting n ∧ (b.coalescer.flight n).value = some v

/-- What is written of tasks that run together. -/
structure Chronicle (ws : Works κ ν) (b : Batch (List (Note ν)) κ ν) : Prop where
  jobs : ∀ i, b.job? i = ws[i]?.map fun entry => entry.1.job i
  tells : ∀ i, Tells ws b.shared i (b.phase i)
  /-- Who waits for a value that is there has begun before the work was done. -/
  informed : ∀ i n v, b.phase i = .waiting n → (b.coalescer.flight n).value = some v →
    ∃ j, ws.key? j = ws.key? i ∧ [.began i, .completed j v].Sublist b.shared
  alone : ∀ past, past <+: b.shared → ∀ i j, ws.key? i = ws.key? j → Unfinished b past i →
    Unfinished b past j → i = j
  together : ∀ k, Punctual ws k b.shared → ∀ j v, ws.key? j = some k →
    .completed j v ∈ b.shared → ∀ i, i ≠ j → ws.key? i = some k → .began i ∈ b.shared →
    b.Shares i v

namespace Chronicle

theorem key (h : Chronicle ws b) (i : Nat) : b.key? i = ws.key? i := by
  unfold Batch.key? Works.key?
  rw [h.jobs]
  cases ws[i]? <;> rfl

theorem exists_work (h : Chronicle ws b) {job : Job (List (Note ν)) κ ν}
    (own : b.job? i = some job) : ∃ w, ws[i]?.map (·.1) = some w ∧ job = w.job i := by
  have hj := h.jobs i
  rw [own] at hj
  cases he : ws[i]? with
  | none =>
    rw [he] at hj
    cases hj
  | some entry =>
    rw [he] at hj
    exact ⟨entry.1, rfl, Option.some.inj hj⟩

/-- If a task has returned a value, a task of its key has done its work. -/
theorem exists_leader (h : Chronicle ws b) {k : κ} (hi : ws.key? i = some k)
    (hr : ∃ v, b.phase i = .returned .leader v ∨ b.phase i = .returned .follower v) :
    ∃ j v, ws.key? j = some k ∧ b.phase j = .returned .leader v := by
  obtain ⟨v, hl | hf⟩ := hr
  · exact ⟨i, v, hi, hl⟩
  · have ht := h.tells i
    rw [hf] at ht
    obtain ⟨-, -, j, hk, hs⟩ := ht
    have hc : .completed j v ∈ b.shared := hs.subset (List.mem_cons_of_mem _ List.mem_cons_self)
    exact ⟨j, v, hk.trans hi, (h.tells j).returned_of_completed hc⟩

end Chronicle

/-- What nobody has written more of is seen as before by those who have not been given up. -/
theorem Unfinished.of_moved {past : List (Note ν)} (hm : b.Moved i p woken b')
    (hi : b.phase i ≠ .dropped) (hu : Unfinished b' past j) : Unfinished b past j := by
  refine ⟨hu.1, hu.2.1, fun hd => ?_⟩
  by_cases hj : j = i
  · exact hi (hj ▸ hd)
  · exact hu.2.2 ((hm.other j hj).trans hd)

namespace Batch

variable [BEq κ]

/-- Who returns the value of its own work has worked, and its flight has the value now. -/
theorem Move.was_working (m : Move i b b') (h : b.Sound) (hp : b'.phase i = .returned .leader v) :
    ∃ n q, b.phase i = .working n q ∧ (b'.coalescer.flight n).value = some v := by
  cases m with
  | complete own was value moved coalescer shared =>
    cases hp.symm.trans moved.self
    refine ⟨_, _, was, ?_⟩
    rw [h.flight_complete was coalescer, if_pos rfl]
    rfl
  | found own was look moved => exact nomatch hp.symm.trans moved.self
  | enter own was look number moved => exact nomatch hp.symm.trans moved.self
  | follow own was value moved => exact nomatch hp.symm.trans moved.self
  | begin own was value permit moved => exact nomatch hp.symm.trans moved.self
  | pause was less moved => exact nomatch hp.symm.trans moved.self
  | leave was moved => exact nomatch hp.symm.trans moved.self
  | forgo was moved => exact nomatch hp.symm.trans moved.self

variable [LawfulBEq κ]

/-- Who shares a value keeps it. -/
theorem Move.shares (m : Move i b b') (h : b.Sound) (hj : b.Shares j v) : b'.Shares j v := by
  obtain ⟨_, _, hm⟩ := m.moved
  by_cases hji : j = i
  · subst hji
    rcases hj with hd | hr | ⟨n, hw, hv⟩
    · exact absurd hd m.live.1
    · exact absurd hr (m.live.2 _ v)
    · cases m with
      | follow own was value moved =>
        cases was.symm.trans hw
        cases value.symm.trans hv
        exact .inr (.inl moved.self)
      | leave was moved => exact .inl moved.self
      | begin own was value =>
        cases was.symm.trans hw
        exact nomatch value.symm.trans hv
      | found own was => exact nomatch was.symm.trans hw
      | enter own was => exact nomatch was.symm.trans hw
      | pause was => exact nomatch was.symm.trans hw
      | complete own was => exact nomatch was.symm.trans hw
      | forgo was => exact nomatch was.symm.trans hw
  · unfold Shares
    rw [hm.other j hji]
    rcases hj with hd | hr | ⟨n, hw, hv⟩
    · exact .inl hd
    · exact .inr (.inl hr)
    · refine .inr (.inr ⟨n, hw, ?_⟩)
      rcases m.value_eq h n with he | ⟨q, _, hwork, -⟩
      · rw [he, hv]
      · rw [(h.of_working hwork).1] at hv
        cases hv

end Batch

/-! ## 3. What is written stays true -/

namespace Chronicle

theorem punctual_of_prefix {k : κ} {log log' : List (Note ν)} (h : Punctual ws k log')
    (hl : log <+: log') : Punctual ws k log :=
  fun i j v hi hj hs => h i j v hi hj (hs.trans hl.sublist)

/-- While a task does the work for a punctual key, no work for the key has been done. -/
theorem not_completed_of_working (h : Chronicle ws b) {k : κ} (hp : Punctual ws k b.shared)
    (hi : ws.key? i = some k) {q : Nat} (hw : b.phase i = .working n q) (hj : ws.key? j = some k) :
    .completed j v ∉ b.shared := by
  intro hc
  have ht := h.tells i
  rw [hw] at ht
  by_cases hij : i = j
  · exact ht.2.2 v (hij ▸ hc)
  · rcases h.together k hp j v hj hc i hij hi ht.1 with hd | hr | ⟨m, hm, -⟩
    · exact nomatch hw.symm.trans hd
    · exact nomatch hw.symm.trans hr
    · exact nomatch hw.symm.trans hm

variable [BEq κ]

theorem alone_of_move (h : Chronicle ws b) (hs' : b'.Sound) (hkey : ∀ j, b'.key? j = ws.key? j)
    (m : Batch.Move i b b') (hm : b.Moved i p woken b') (hlog : b'.shared = b.shared ++ more)
    (ht : ∀ j, Tells ws b'.shared j (b'.phase j))
    (hstart : ∀ k, .started k ∈ more → more = [.started k]) :
    ∀ past, past <+: b'.shared → ∀ j k, ws.key? j = ws.key? k → Unfinished b' past j →
      Unfinished b' past k → j = k := by
  intro past hpast j k hk hj hk'
  have hback : ∀ {past l}, Unfinished b' past l → Unfinished b past l :=
    fun hu => hu.of_moved hm m.live.1
  have hold : b.shared <+: b'.shared := hlog ▸ List.prefix_append _ _
  rcases List.prefix_or_prefix_of_prefix hpast hold with hle | ⟨front, rfl⟩
  · exact h.alone past hle j k hk (hback hj) (hback hk')
  by_cases hfront : ∃ l, .started l ∈ front
  · -- all has been written: who is unfinished works now
    have hwhole : b.shared ++ front = b'.shared := by
      obtain ⟨l, hl⟩ := hfront
      rw [hlog] at hpast ⊢
      have hf : front <+: more := (List.prefix_append_right_inj b.shared).1 hpast
      have hm1 := hstart l (hf.subset hl)
      rw [hm1] at hf ⊢
      rcases List.prefix_cons_iff.1 hf with rfl | ⟨t, rfl, ht⟩
      · cases hl
      · rw [List.prefix_nil.1 ht]
    rw [hwhole] at hj hk'
    obtain ⟨n, q, hw⟩ := (ht j).working_of_started hj.1 hj.2.1 hj.2.2
    obtain ⟨n', q', hw'⟩ := (ht k).working_of_started hk'.1 hk'.2.1 hk'.2.2
    exact hs'.eq_of_working (by rw [hkey, hkey, hk]) hw hw'
  · -- no work has started since then
    have hsince : ∀ {l}, Unfinished b' (b.shared ++ front) l → Unfinished b b.shared l := by
      intro l hu
      have hu' := hback hu
      refine ⟨(List.mem_append.1 hu'.1).resolve_right fun hl => hfront ⟨l, hl⟩, fun v hc => ?_,
        hu'.2.2⟩
      exact hu'.2.1 v (List.mem_append_left _ hc)
    exact h.alone b.shared List.prefix_rfl j k hk (hsince hj) (hsince hk')

/-- When a work is done, all other tasks of its key that have begun come to share its value. -/
theorem shares_of_complete (h : Chronicle ws b) (hs : b.Sound) (m : Batch.Move i b b')
    (hm : b.Moved i p woken b') (hr : b'.phase i = .returned .leader v) {k : κ}
    (hp : Punctual ws k b.shared) (hi : ws.key? i = some k) (hji : j ≠ i)
    (hj : ws.key? j = some k) (hb : .began j ∈ b.shared) : b'.Shares j v := by
  obtain ⟨n, q, hw, hv⟩ := m.was_working hs hr
  have hnone : ∀ {l u}, ws.key? l = some k → b.phase l ≠ .returned .leader u := by
    intro l u hl hphase
    have ht := h.tells l
    rw [hphase] at ht
    exact h.not_completed_of_working hp hi hw hl ht.completed_of_returned
  have hkey : ∀ {l}, b.key? j = b.key? l → ws.key? l = some k := fun {l} he => by
    rw [← h.key, ← he, h.key, hj]
  have ht := h.tells j
  unfold Batch.Shares
  rw [hm.other j hji]
  cases hphase : b.phase j with
  | fresh =>
    rw [hphase] at ht
    exact absurd rfl (ht _ hb)
  | waiting n' =>
    have hon := Batch.on_of_waiting hphase
    cases hv' : (b.coalescer.flight n').value with
    | none =>
      have hnn : n' = n := hs.flight_eq_of_key (j := i) (by rw [h.key, h.key, hj, hi]) hon
        (Batch.on_of_working hw) hv' (hs.of_working hw).1
      exact .inr (.inr ⟨n', rfl, hnn ▸ hv⟩)
    | some u =>
      obtain ⟨l, hl, hkl⟩ := (hs.settled n' u hv').leader
      exact absurd hl (hnone (hkey (hkl j hon)))
  | working n' q' => exact absurd (hs.eq_of_working (by rw [h.key, h.key, hj, hi]) hphase hw) hji
  | returned r u =>
    cases r with
    | ready =>
      rw [hphase] at ht
      exact ht.elim
    | leader => exact absurd hphase (hnone hj)
    | follower =>
      obtain ⟨l, hl, hkl⟩ := hs.followed j u hphase
      exact absurd hl (hnone (hkey hkl))
  | dropped => exact .inl rfl

variable [LawfulBEq κ]

theorem informed_of_move (h : Chronicle ws b) (hs : b.Sound) (m : Batch.Move i b b')
    (hm : b.Moved i p woken b') (hlog : b'.shared = b.shared ++ more)
    (ht : ∀ j, Tells ws b'.shared j (b'.phase j))
    (hwait : ∀ n, p = .waiting n → (b'.coalescer.flight n).value = none) :
    ∀ j n v, b'.phase j = .waiting n → (b'.coalescer.flight n).value = some v →
      ∃ l, ws.key? l = ws.key? j ∧ [.began j, .completed l v].Sublist b'.shared := by
  intro j n v hj hv
  have hji : j ≠ i := by
    rintro rfl
    rw [hwait n (hm.self.symm.trans hj)] at hv
    cases hv
  have hj' : b.phase j = .waiting n := (hm.other j hji).symm.trans hj
  rcases m.value_eq hs n with he | ⟨q, u, hw, hr, hu⟩
  · obtain ⟨l, hk, hl⟩ := h.informed j n v hj' (he.symm.trans hv)
    exact ⟨l, hk, hl.trans (hlog ▸ (List.prefix_append _ _).sublist)⟩
  · cases hu.symm.trans hv
    have hbegan := h.tells j
    have hwork := h.tells i
    have hdone := ht i
    rw [hj'] at hbegan
    rw [hw] at hwork
    rw [hr] at hdone
    have hmore : .completed i v ∈ more := by
      have hc := hdone.completed_of_returned
      rw [hlog] at hc
      exact (List.mem_append.1 hc).resolve_left (hwork.2.2 v)
    refine ⟨i, ?_, ?_⟩
    · rw [← h.key, ← h.key]
      exact hs.key_eq_of_on (Batch.on_of_working hw) (Batch.on_of_waiting hj')
    · rw [hlog]
      exact (List.singleton_sublist.2 hbegan.1).append (List.singleton_sublist.2 hmore)

theorem together_of_move (h : Chronicle ws b) (hs : b.Sound) (m : Batch.Move i b b')
    (hm : b.Moved i p woken b') (hlog : b'.shared = b.shared ++ more)
    (hmore : ∀ x ∈ more, x.task = i) (ht : ∀ j, Tells ws b'.shared j (b'.phase j)) :
    ∀ k, Punctual ws k b'.shared → ∀ j v, ws.key? j = some k → .completed j v ∈ b'.shared →
      ∀ l, l ≠ j → ws.key? l = some k → .began l ∈ b'.shared → b'.Shares l v := by
  intro k hp j v hj hc l hl hk hb
  have hp' := punctual_of_prefix hp (hlog ▸ List.prefix_append _ _)
  have hc' := hc
  rw [hlog] at hc' hb
  rcases List.mem_append.1 hc' with hold | hnew
  · rcases List.mem_append.1 hb with hb | hb
    · exact m.shares hs (h.together k hp' j v hj hold l hl hk hb)
    · -- it has begun too late
      refine absurd ?_ (hp l j v hk hj)
      rw [hlog]
      exact (List.singleton_sublist.2 hold).append (List.singleton_sublist.2 hb)
  · obtain rfl : j = i := hmore _ hnew
    rcases List.mem_append.1 hb with hb | hb
    · exact h.shares_of_complete hs m hm ((ht j).returned_of_completed hc) hp' hj hl hk hb
    · exact absurd (hmore _ hb) hl

theorem of_move (h : Chronicle ws b) (hs : b.Sound) (m : Batch.Move i b b')
    (hm : b.Moved i p woken b') (hlog : b'.shared = b.shared ++ more)
    (hmore : ∀ x ∈ more, x.task = i) (hi : Tells ws b'.shared i p)
    (hstart : ∀ k, .started k ∈ more → more = [.started k])
    (hwait : ∀ n, p = .waiting n → (b'.coalescer.flight n).value = none) : Chronicle ws b' := by
  have ht := tells_of_moved h.tells hm hlog hmore hi
  have hkey : ∀ j, b'.key? j = ws.key? j := fun j => (hm.key j).trans (h.key j)
  exact ⟨fun j => (hm.job j).trans (h.jobs j), ht, h.informed_of_move hs m hm hlog ht hwait,
    h.alone_of_move (hs.move m) hkey m hm hlog ht hstart,
    h.together_of_move hs m hm hlog hmore ht⟩

/-- A move that writes nothing. -/
theorem of_silent_move (h : Chronicle ws b) (hs : b.Sound) (m : Batch.Move i b b')
    (hm : b.Moved i p woken b') (hlog : b'.shared = b.shared) (hi : Tells ws b.shared i p)
    (hwait : ∀ n, p ≠ .waiting n) : Chronicle ws b' :=
  h.of_move hs m hm (hlog.trans (List.append_nil _).symm) nofun (hlog ▸ hi) nofun
    fun n hp => absurd hp (hwait n)

/-- **Every move writes the truth.** -/
theorem move (h : Chronicle ws b) (hs : b.Sound) (m : Batch.Move i b b') : Chronicle ws b' := by
  have ht := h.tells i
  cases m with
  | found own was look moved coalescer shared =>
    obtain ⟨w, -, rfl⟩ := h.exists_work own
    cases look
  | @enter _ n own was look number moved awake coalescer shared =>
    obtain ⟨w, -, rfl⟩ := h.exists_work own
    rw [was] at ht
    refine h.of_move hs (.enter own was look number moved awake coalescer shared) moved shared
      (fun x hx => List.mem_singleton.1 hx ▸ rfl) ?_ (fun k hk => nomatch List.mem_singleton.1 hk)
      fun n' hn' => ?_
    · rw [shared]
      exact ht.enter n
    · cases hn'
      rw [hs.flight_enter number coalescer, if_pos rfl, Flight.value_enter]
      exact (hs.open_of_join number).2
  | follow own was value moved coalescer shared =>
    obtain ⟨w, -, rfl⟩ := h.exists_work own
    rw [was] at ht
    obtain ⟨j, hk, hl⟩ := h.informed i _ _ was value
    refine h.of_move hs (.follow own was value moved coalescer shared) moved shared
      (fun x hx => List.mem_singleton.1 hx ▸ rfl) ?_ (fun k hk => nomatch List.mem_singleton.1 hk)
      nofun
    rw [shared]
    exact ht.follow hk hl
  | begin own was value permit moved awake coalescer shared =>
    obtain ⟨w, -, rfl⟩ := h.exists_work own
    rw [was] at ht
    refine h.of_move hs (.begin own was value permit moved awake coalescer shared) moved shared
      (fun x hx => List.mem_singleton.1 hx ▸ rfl) ?_ (fun k hk => ?_) nofun
    · rw [shared]
      exact ht.begin _
    · rw [List.mem_singleton.1 hk]
  | pause was less moved awake coalescer shared =>
    rw [was] at ht
    exact h.of_silent_move hs (.pause was less moved awake coalescer shared) moved shared ht nofun
  | @complete _ n q v own was value moved coalescer shared =>
    obtain ⟨w, hw, rfl⟩ := h.exists_work own
    rw [was] at ht
    have hlog : b'.shared = b.shared ++ [.completed i v, .returned i .leader v] := by
      rw [shared, ← value]
      exact List.append_assoc ..
    refine h.of_move hs (.complete own was value moved coalescer shared) moved hlog
      (fun x hx => ?_) ?_ (fun k hk => ?_) nofun
    · rcases List.mem_cons.1 hx with rfl | hx
      · rfl
      · rw [List.mem_singleton.1 hx]
        rfl
    · rw [hlog]
      exact ht.complete hw value
    · rcases List.mem_cons.1 hk with he | hk
      · cases he
      · exact nomatch List.mem_singleton.1 hk
  | leave was moved coalescer shared =>
    have m : Batch.Move i b b' := .leave was moved coalescer shared
    exact h.of_silent_move hs m moved shared (ht.drop m.live.2) nofun
  | forgo was moved coalescer shared =>
    have m : Batch.Move i b b' := .forgo was moved coalescer shared
    exact h.of_silent_move hs m moved shared (ht.drop m.live.2) nofun

end Chronicle

/-- Staying writes nothing, and nothing that is written becomes false. -/
theorem Chronicle.rest (h : Chronicle ws b) (r : Batch.Rest i b b') : Chronicle ws b' := by
  have hphase := r.phase_eq
  have hs := r.shared
  have hc := r.coalescer
  constructor
  · exact fun j => (r.moved.job j).trans (h.jobs j)
  · intro j
    rw [hs, hphase]
    exact h.tells j
  · intro j n v
    rw [hs, hphase, hc]
    exact h.informed j n v
  · unfold Unfinished
    simp only [hs, hphase]
    exact h.alone
  · unfold Batch.Shares
    simp only [hs, hphase, hc]
    exact h.together

theorem Chronicle.start (ws : Works κ ν) : Chronicle ws ws.start := by
  have hlog : ws.start.shared = [] := rfl
  constructor
  · intro i
    have hj := Batch.job?_start ([] : List (Note ν)) ws.jobs i
    refine hj.trans ?_
    unfold Works.jobs
    rw [List.getElem?_mapIdx]
    cases ws[i]? <;> rfl
  · intro i
    rw [hlog]
    rcases Batch.phase_start [] ws.jobs i with ⟨hp, -⟩ | hp
    · rw [show ws.start.phase i = .fresh from hp]
      exact nofun
    · rw [show ws.start.phase i = .dropped from hp]
      exact nofun
  · intro i n v hp
    rcases Batch.phase_start [] ws.jobs i with ⟨hp', -⟩ | hp'
    · exact nomatch hp'.symm.trans hp
    · exact nomatch hp'.symm.trans hp
  · intro past hpast i j _ hu
    rw [hlog, List.prefix_nil] at hpast
    rw [hpast] at hu
    exact nomatch hu.1
  · exact fun k _ j v _ hc => nomatch hc

/-! ## 4. One work for all -/

theorem Works.limited_start {w : Work κ ν} {limit : Option Nat} (hw : ws[i]? = some (w, limit)) :
    ws.start.limited? i = some limit.isSome ∧
      (ws.start.phase i = .dropped → limit ≠ none) := by
  have ht : ws.start.tasks[i]? = some (Task.new (w.job i) limit) := by
    refine (Batch.getElem?_tasks_start [] ws.jobs i).trans ?_
    unfold Works.jobs
    rw [List.getElem?_mapIdx, hw]
    rfl
  constructor
  · unfold Batch.limited?
    rw [ht]
    rfl
  · rintro hd rfl
    rw [Batch.phase_of_getElem? ht] at hd
    cases hd

variable [DecidableEq κ]

/-- What is written is true after every schedule. -/
theorem chronicle_play (ws : Works κ ν) (es : List Batch.Event) :
    (ws.start.play es).Sound ∧ Chronicle ws (ws.start.play es) :=
  Batch.play_keeps (fun hs h m => h.move hs m) (fun _ h r => h.rest r)
    (Batch.sound_start _ _) (.start ws) es

/-- What is said of tasks after a schedule is said of them after further rounds of polls. -/
theorem exists_play_more (ws : Works κ ν) (es : List Batch.Event) (n : Nat) : ∃ fs,
    (ws.start.play es).rounds n = ws.start.play (es ++ fs) ∧
      ∀ i, .drop i ∈ fs → ws.start.limited? i = some true := by
  have hs := (chronicle_play ws es).1
  obtain ⟨fs, hfs, hdrop⟩ := Batch.exists_play_rounds hs n
  refine ⟨fs, hfs.trans (Batch.play_append ..).symm, fun i hi => ?_⟩
  exact (Batch.limited_play (Batch.sound_start _ _) es i).symm.trans (hdrop i hi)

/-- One work for many tasks, over a schedule. -/
structure SingleFlight (ws : Works κ ν) (es : List Batch.Event) : Prop where
  /-- At every moment at most one work of a key is unfinished. -/
  alone : ∀ past, past <+: (ws.start.play es).shared → ∀ i j, ws.key? i = ws.key? j →
    Unfinished (ws.start.play es) past i → Unfinished (ws.start.play es) past j → i = j
  /-- Who returns as leader has started its work, has done it, and returns its value. -/
  leader : ∀ i v, (ws.start.play es).phase i = .returned .leader v →
    ∃ past w, ws[i]?.map (·.1) = some w ∧ .started i ∈ past ∧ w.value past = v ∧
      past ++ [.completed i v, .returned i .leader v] <+: (ws.start.play es).shared
  /-- Who returns as follower has never started its work, and returns the value of a work for its
  key that was done between its beginning and its return. -/
  follower : ∀ i v, (ws.start.play es).phase i = .returned .follower v →
    .started i ∉ (ws.start.play es).shared ∧ ∃ j, ws.key? j = ws.key? i ∧
      [.began i, .completed j v, .returned i .follower v].Sublist (ws.start.play es).shared
  /-- After enough rounds of polls, each task that has neither been dropped nor had a limit has
  returned a value, whatever has been done to the others. -/
  ended : ∀ n, Batch.bound (ws.jobs.map (·.1)) ≤ n → ∀ i w limit, ws[i]? = some (w, limit) →
    (∃ v, ((ws.start.play es).rounds n).phase i = .returned .leader v ∨
      ((ws.start.play es).rounds n).phase i = .returned .follower v) ∨
    ((ws.start.play es).rounds n).phase i = .dropped ∧ (limit ≠ none ∨ .drop i ∈ es)
  /-- If no task of a key is dropped and none begins after a work for the key is done, one of them
  does its work, and all others return the value of this work. -/
  together : ∀ n, Batch.bound (ws.jobs.map (·.1)) ≤ n → ∀ k,
    (∀ i, ws.key? i = some k → ((ws.start.play es).rounds n).phase i ≠ .dropped) →
    Punctual ws k ((ws.start.play es).rounds n).shared → (∃ i, ws.key? i = some k) →
    ∃ j v, ws.key? j = some k ∧ .started j ∈ ((ws.start.play es).rounds n).shared ∧
      ((ws.start.play es).rounds n).phase j = .returned .leader v ∧
      ∀ i, i ≠ j → ws.key? i = some k →
        .started i ∉ ((ws.start.play es).rounds n).shared ∧
        ((ws.start.play es).rounds n).phase i = .returned .follower v

theorem ended_after (ws : Works κ ν) (es : List Batch.Event)
    (hn : Batch.bound (ws.jobs.map (·.1)) ≤ n) (i : Nat) :
    ((ws.start.play es).rounds n).phase i = .dropped ∨
      ∃ v, ((ws.start.play es).rounds n).phase i = .returned .leader v ∨
        ((ws.start.play es).rounds n).phase i = .returned .follower v := by
  have hstart : ws.start.Sound := Batch.sound_start _ _
  have hw : (ws.start.play es).weight ≤ n :=
    Nat.le_trans (Batch.weight_play_le hstart es)
      (Nat.le_trans (Batch.weight_start_le _ ws.jobs) hn)
  obtain ⟨fs, hfs, -⟩ := exists_play_more ws es n
  have ht := (chronicle_play ws (es ++ fs)).2.tells i
  rw [← hfs] at ht
  rcases Batch.ended_rounds (Batch.sound_play hstart es) hw i with hd | ⟨r, v, hr⟩
  · exact .inl hd
  · refine .inr ⟨v, ?_⟩
    cases r with
    | leader => exact .inl hr
    | follower => exact .inr hr
    | ready =>
      rw [hr] at ht
      exact ht.elim

/-- **One work for all**, whatever the keys and the works, in whatever order the tasks are polled,
and whoever is dropped at whatever time. -/
theorem single_flight (ws : Works κ ν) (es : List Batch.Event) : SingleFlight ws es := by
  obtain ⟨hsound, hchron⟩ := chronicle_play ws es
  constructor
  · exact hchron.alone
  · intro i v hi
    have ht := hchron.tells i
    rw [hi] at ht
    obtain ⟨⟨past, w, hw, hl, -, hs, hv⟩, -⟩ := ht
    exact ⟨past, w, hw, hs, hv, hl⟩
  · intro i v hi
    have ht := hchron.tells i
    rw [hi] at ht
    exact ⟨ht.1, ht.2.2⟩
  · intro n hn i w limit hw
    obtain ⟨hlimited, hlimit⟩ := Works.limited_start hw
    rcases ended_after ws es hn i with hd | hr
    · refine .inr ⟨hd, ?_⟩
      obtain ⟨fs, hfs, hdrop⟩ := exists_play_more ws es n
      rw [hfs] at hd
      rcases Batch.dropped_of_play (Batch.sound_start _ _) (es ++ fs) hd with hd | hd
      · exact .inl (hlimit hd)
      · rcases List.mem_append.1 hd with hd | hd
        · exact .inr hd
        · have hsome := hdrop i hd
          rw [hlimited] at hsome
          refine .inl fun hnone => ?_
          rw [hnone] at hsome
          cases hsome
    · exact .inl hr
  · intro n hn k hkeep hp ⟨i₀, hi₀⟩
    obtain ⟨fs, hfs, -⟩ := exists_play_more ws es n
    have hc := (chronicle_play ws (es ++ fs)).2
    rw [← hfs] at hc
    have hend := fun i hi => (ended_after ws es hn i).resolve_left (hkeep i hi)
    obtain ⟨j, v, hj, hleader⟩ := hc.exists_leader hi₀ (hend i₀ hi₀)
    have htj := hc.tells j
    rw [hleader] at htj
    refine ⟨j, v, hj, htj.started_of_returned, hleader, fun i hne hi => ?_⟩
    have hti := hc.tells i
    have hbegan : .began i ∈ ((ws.start.play es).rounds n).shared := by
      refine hti.began (fun hf => ?_) (hkeep i hi)
      obtain ⟨u, hu | hu⟩ := hend i hi
      · exact nomatch hf.symm.trans hu
      · exact nomatch hf.symm.trans hu
    have hdone := htj.completed_of_returned
    rcases hc.together k hp j v hj hdone i hne hi hbegan with hd | hf | ⟨m, hm, -⟩
    · exact absurd hd (hkeep i hi)
    · rw [hf] at hti
      exact ⟨hti.1, hf⟩
    · obtain ⟨u, hu | hu⟩ := hend i hi
      · exact nomatch hm.symm.trans hu
      · exact nomatch hm.symm.trans hu

/-- The first task is given up after its second poll, in the middle of its work. The second one has
waited and does its own work then, and the third one takes its value. -/
example : (Batch.run .empty [] (Works.jobs [(⟨1, 4, fun _ => 7⟩, some 2),
    (⟨1, 0, fun _ => 8⟩, none), (⟨1, 0, fun _ => 9⟩, none)] :
      List (Job (List (Note Nat)) Nat Nat × Option Nat))).tasks.map (·.phase) =
        [.dropped, .returned .leader 8, .returned .follower 8] := by decide

end EdgeInclude

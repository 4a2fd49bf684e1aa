import EdgeInclude.Resolver.Basic

/-!
# What a tag yields while others go on

A tag that is resolved among others waits for its fetches, and meanwhile the others change the
world that it goes on with. Its resolution is the same as alone, except that the world in which a
fetch ends may be another one than the world in which it has begun.

* `Resolver.Runs`, `Resolver.Yields` — resolving, with a world that changes during fetches.
* `Resolver.yields_eq_iff` — in a world that does not change, this is `Resolver.resolve`.
* `Registry.NeverCancels`, `Backend.cancels_fetch` — who may answer that a request is given up.
* `Resolver.Yields.isFinal` — a tag of a request that is not given up has content, or all of its
  sources have failed.
-/

namespace EdgeInclude

variable {σ : Type}

/-! ## 1. Resolving -/

namespace Resolver

/-- The world in which a fetch ends: what others have made of the one in which it has begun, if it
takes time, and else that one. -/
def Meanwhile (env : World σ → World σ → Prop) (time : Nat) (f : Fetch) (w u : World σ) : Prop :=
  if time < f.ends then env w u else u = w

/-- `resolveFrom`, while others may change the world during a fetch. -/
inductive Runs (v : Resolver) (o : Surroundings σ) (e : Errand) (env : World σ → World σ → Prop) :
    List Source → (time attempts : Nat) → World σ → Outcome → Prop where
  | exhausted {time n : Nat} {w : World σ} : Runs v o e env [] time n w (giveUp e.seat.tag n)
  | served {s : Source} {rest : List Source} {time n : Nat} {w w' : World σ} {content : Bytes}
      (asked : v.ask o e s time w = (w', .served content)) :
      Runs v o e env (s :: rest) time n w ⟨n, .ok ⟨.empty, content⟩⟩
  | late {s : Source} {rest : List Source} {time n : Nat} {w w' : World σ}
      (asked : v.ask o e s time w = (w', .late)) :
      Runs v o e env (s :: rest) time n w (giveUp e.seat.tag n)
  | passedOver {s : Source} {rest : List Source} {time n : Nat} {w w' : World σ} {out : Outcome}
      (asked : v.ask o e s time w = (w', .passedOver)) (more : Runs v o e env rest time n w' out) :
      Runs v o e env (s :: rest) time n w out
  | won {s : Source} {rest : List Source} {time n : Nat} {w w' u u' : World σ} {f : Fetch}
      {r : Response} (asked : v.ask o e s time w = (w', .fetching f))
      (wait : Meanwhile env time f w' u) (settled : v.settle e f u = (u', .won r)) :
      Runs v o e env (s :: rest) time n w ⟨n + 1, .ok r⟩
  | gone {s : Source} {rest : List Source} {time n : Nat} {w w' u u' : World σ} {f : Fetch}
      {err : Failure} (asked : v.ask o e s time w = (w', .fetching f))
      (wait : Meanwhile env time f w' u) (settled : v.settle e f u = (u', .gone err)) :
      Runs v o e env (s :: rest) time n w ⟨n + 1, .error err⟩
  | timedOut {s : Source} {rest : List Source} {time n : Nat} {w w' u u' : World σ} {f : Fetch}
      (asked : v.ask o e s time w = (w', .fetching f)) (wait : Meanwhile env time f w' u)
      (settled : v.settle e f u = (u', .late)) :
      Runs v o e env (s :: rest) time n w (giveUp e.seat.tag (n + 1))
  | next {s : Source} {rest : List Source} {time n : Nat} {w w' u u' : World σ} {f : Fetch}
      {out : Outcome} (asked : v.ask o e s time w = (w', .fetching f))
      (wait : Meanwhile env time f w' u) (settled : v.settle e f u = (u', .next))
      (more : Runs v o e env rest f.ends (n + 1) u' out) : Runs v o e env (s :: rest) time n w out

/-- `resolve`, while others may change the world during a fetch. -/
def Yields (v : Resolver) (o : Surroundings σ) (e : Errand) (env : World σ → World σ → Prop)
    (w : World σ) (out : Outcome) : Prop :=
  match refusal? e with
  | some f => out = ⟨0, .error f⟩
  | none => Runs v o e env e.seat.tag.sources 0 0 w out

variable {v : Resolver} {o : Surroundings σ} {e : Errand} {env : World σ → World σ → Prop}
  {env' : World σ → World σ → Prop} {rest : List Source} {time n : Nat} {w w' u : World σ}
  {out : Outcome} {f : Fetch} {s : Source}

theorem meanwhile_of_lt (h : time < f.ends) (hu : env w u) : Meanwhile env time f w u := by
  unfold Meanwhile
  rwa [if_pos h]

theorem meanwhile_of_not_lt (h : ¬ time < f.ends) : Meanwhile env time f w w := by
  unfold Meanwhile
  rw [if_neg h]

theorem meanwhile_eq_iff : Meanwhile Eq time f w u ↔ u = w := by
  unfold Meanwhile
  split
  · exact eq_comm
  · exact Iff.rfl

theorem Meanwhile.mono (he : ∀ w u, env w u → env' w u) (h : Meanwhile env time f w u) :
    Meanwhile env' time f w u := by
  unfold Meanwhile at h ⊢
  split at h
  · rename_i hlt
    rw [if_pos hlt]
    exact he _ _ h
  · rename_i hlt
    rwa [if_neg hlt]

/-- The less others may change, the fewer runs there are. -/
theorem Runs.mono (he : ∀ w u, env w u → env' w u) (h : Runs v o e env rest time n w out) :
    Runs v o e env' rest time n w out := by
  induction h with
  | exhausted => exact .exhausted
  | served ha => exact .served ha
  | late ha => exact .late ha
  | passedOver ha _ ih => exact .passedOver ha ih
  | won ha hm hs => exact .won ha (hm.mono he) hs
  | gone ha hm hs => exact .gone ha (hm.mono he) hs
  | timedOut ha hm hs => exact .timedOut ha (hm.mono he) hs
  | next ha hm hs _ ih => exact .next ha (hm.mono he) hs ih

theorem Yields.mono (he : ∀ w u, env w u → env' w u) (h : Yields v o e env w out) :
    Yields v o e env' w out := by
  unfold Yields at h ⊢
  cases hf : refusal? e with
  | some f =>
    rw [hf] at h
    exact h
  | none =>
    rw [hf] at h
    exact Runs.mono he h

/-- What comes of a fetch that ends in a world, and of the sources behind it. -/
def Closes (v : Resolver) (o : Surroundings σ) (e : Errand) (env : World σ → World σ → Prop)
    (f : Fetch) (n : Nat) (rest : List Source) (u : World σ) (out : Outcome) : Prop :=
  match v.settle e f u with
  | (_, .won r) => out = ⟨n, .ok r⟩
  | (_, .gone err) => out = ⟨n, .error err⟩
  | (_, .late) => out = giveUp e.seat.tag n
  | (u', .next) => Runs v o e env rest f.ends n u' out

theorem Runs.of_closes (ha : v.ask o e s time w = (w', .fetching f))
    (hm : Meanwhile env time f w' u) (hc : Closes v o e env f (n + 1) rest u out) :
    Runs v o e env (s :: rest) time n w out := by
  unfold Closes at hc
  split at hc
  · rename_i hs
    subst hc
    exact .won ha hm hs
  · rename_i hs
    subst hc
    exact .gone ha hm hs
  · rename_i hs
    subst hc
    exact .timedOut ha hm hs
  · rename_i hs
    exact .next ha hm hs hc

/-! ## 2. Alone -/

/-- In a world that nobody else changes, the run of the sources is a run. -/
theorem runs_resolveFrom (time n : Nat) (w : World σ) :
    Runs v o e Eq rest time n w (v.resolveFrom o e rest time n w).2 := by
  induction rest generalizing time n w with
  | nil => exact .exhausted
  | cons s rest ih =>
    unfold resolveFrom
    split
    · rename_i h
      exact .served h
    · rename_i h
      exact .late h
    · rename_i h
      exact .passedOver h (ih ..)
    · rename_i h
      split
      · rename_i hs
        exact .won h (meanwhile_eq_iff.2 rfl) hs
      · rename_i hs
        exact .gone h (meanwhile_eq_iff.2 rfl) hs
      · rename_i hs
        exact .timedOut h (meanwhile_eq_iff.2 rfl) hs
      · rename_i hs
        exact .next h (meanwhile_eq_iff.2 rfl) hs (ih ..)

/-- In a world that nobody else changes, there is no other run. -/
theorem Runs.eq_resolveFrom (h : Runs v o e Eq rest time n w out) :
    out = (v.resolveFrom o e rest time n w).2 := by
  induction h with
  | exhausted => rfl
  | served h => rw [resolveFrom, h]
  | late h => rw [resolveFrom, h]
  | passedOver h _ ih => rw [resolveFrom, h, ih]
  | won h hm hs =>
    rw [meanwhile_eq_iff.1 hm] at hs
    simp only [resolveFrom, h, hs]
  | gone h hm hs =>
    rw [meanwhile_eq_iff.1 hm] at hs
    simp only [resolveFrom, h, hs]
  | timedOut h hm hs =>
    rw [meanwhile_eq_iff.1 hm] at hs
    simp only [resolveFrom, h, hs]
  | next h hm hs _ ih =>
    rw [meanwhile_eq_iff.1 hm] at hs
    simp only [resolveFrom, h, hs, ih]

/-- **A tag that is resolved alone yields what `resolve` gives.** -/
theorem yields_eq_iff : Yields v o e Eq w out ↔ (v.resolve o e w).2 = out := by
  unfold Yields resolve
  cases refusal? e with
  | some f => exact eq_comm
  | none => exact ⟨fun h => h.eq_resolveFrom.symm, fun h => h ▸ runs_resolveFrom 0 0 w⟩

end Resolver

/-! ## 3. Who may give a request up -/

/-- Whether a result is that the request has been given up. -/
def Failure.cancels {α : Type} : Except Failure α → Bool
  | .error f => f.isCancelled
  | .ok _ => false

/-- All backends of a registry. -/
def Registry.backends (g : Registry) : List Backend := (g.schemes ++ g.aliases).map (·.2)

/-- No backend that is brought along answers that the request has been given up. -/
def Registry.NeverCancels (g : Registry) (o : Surroundings σ) : Prop :=
  ∀ id name, .custom id name ∈ g.backends →
    ∀ c st, Failure.cancels (o.custom id c st).2.result = false

theorem Registry.mem_of_look {table : List (Text × Backend)} {name : Text} {b : Backend}
    (h : look table name = some b) : b ∈ table.map (·.2) := by
  unfold look at h
  rw [Option.map_eq_some_iff] at h
  obtain ⟨p, hp, rfl⟩ := h
  exact List.mem_map_of_mem (List.mem_of_find?_eq_some hp)

theorem Registry.mem_of_dispatch {g : Registry} {url : Text} {b : Backend}
    (h : g.dispatch url = .ok b) : b ∈ g.schemes.map (·.2) := by
  unfold dispatch at h
  cases hs : splitScheme url with
  | error f =>
    rw [hs] at h
    cases h
  | ok p =>
    rw [hs] at h
    cases hl : look g.schemes (Text.lower p.1) with
    | none =>
      simp only [bind, Except.bind, hl] at h
      cases h
    | some b' =>
      simp only [bind, Except.bind, hl] at h
      cases h
      exact mem_of_look hl

theorem Registry.mem_of_find {g : Registry} {value : Text} {isUrl : Bool} {b : Backend}
    (h : g.find value isUrl = .ok b) : b ∈ g.backends := by
  unfold backends
  rw [List.map_append, List.mem_append]
  unfold find at h
  split at h
  · exact .inl (mem_of_dispatch h)
  · right
    unfold byName at h
    split at h
    · rename_i b' hl
      cases h
      exact mem_of_look hl
    · cases h

theorem Breakdown.isCancelled_failure (b : Breakdown) (url : Text) :
    (b.failure url).isCancelled = false := by
  unfold failure
  split <;> rfl

theorem Web.cancels_judge (url : Text) (limit : Nat) (d : Delivery) :
    Failure.cancels (judge url limit d) = false := by
  unfold judge
  cases d with
  | failed why => exact why.isCancelled_failure url
  | response status headers declared body =>
    dsimp only
    split
    · unfold Failure.ofStatus
      split <;> rfl
    · split
      · rfl
      · split
        · rfl
        · rename_i why _ _
          exact why.isCancelled_failure url
        · rfl

theorem Web.cancels_target (base : Option Url) (c : Call) :
    Failure.cancels (target base c) = false := by
  unfold target
  cases base with
  | none => rfl
  | some u =>
    dsimp only
    split <;> rfl

theorem Program.cancels_path (configured : Option Text) (c : Call) :
    Failure.cancels (path configured c) = false := by
  cases configured with
  | some p => rfl
  | none =>
    have hs : Failure.cancels (splitScheme c.url) = false := by
      unfold splitScheme
      split
      · split <;> rfl
      · rfl
    unfold path
    dsimp only
    cases h : splitScheme c.url with
    | error f =>
      rw [h] at hs
      exact hs
    | ok p =>
      show Failure.cancels (if _ then _ else _) = false
      split <;> rfl

theorem Program.cancels_within {program : Text} {c : Call} {lasts : Option Nat}
    {r : Except Failure Response} (h : Failure.cancels r = false) :
    Failure.cancels (within program c lasts r).result = false := by
  unfold within
  split
  · exact h
  · split
    · exact h
    · rfl

theorem Program.cancels_judge (path : Text) (c : Call) (run : ProgramRun) :
    Failure.cancels (judge path c run).result = false := by
  have hc : ∀ p content errors success status,
      Failure.cancels (conclude p content errors success status) = false := by
    intro p content errors success status
    unfold conclude
    split <;> rfl
  unfold judge
  split
  · rfl
  · rfl
  · split
    · rename_i e he
      unfold readLimit at he
      split at he <;> cases he
      rfl
    · show Failure.cancels (judgeOutput ..).result = false
      unfold judgeOutput
      dsimp only
      split
      · split
        · rfl
        · exact cancels_within (hc ..)
      · exact cancels_within rfl

/-- **Only a backend that is brought along can answer that a request has been given up.** -/
theorem Backend.cancels_fetch {g : Registry} {o : Surroundings σ} (hg : g.NeverCancels o)
    {b : Backend} (hb : b ∈ g.backends) (r : Reach σ) (c : Call) :
    Failure.cancels (b.fetch o r c).2.result = false := by
  cases b with
  | web base =>
    unfold fetch
    dsimp only
    cases ht : Web.target base c with
    | ok url => exact Web.cancels_judge ..
    | error f =>
      have h := Web.cancels_target base c
      rwa [ht] at h
  | program configured =>
    unfold fetch
    dsimp only
    cases ht : Program.path configured c with
    | ok path => exact Program.cancels_judge ..
    | error f =>
      have h := Program.cancels_path configured c
      rwa [ht] at h
  | store id =>
    unfold fetch Store.answer
    dsimp only
    split <;> rfl
  | custom id name => exact hg id name hb c r.outside

/-! ## 4. What comes of a tag that is wanted -/

/-- A fetch that begins at `time` and does not end with its request being given up. -/
structure Fetch.IsWanted (f : Fetch) (time : Nat) : Prop where
  le_ends : time ≤ f.ends
  not_cancels : Failure.cancels f.outcome = false

namespace Resolver

variable {v : Resolver} {o : Surroundings σ} {e : Errand} {env : World σ → World σ → Prop}
  {rest : List Source} {time n : Nat} {w w' u : World σ} {out : Outcome} {f : Fetch} {s : Source}

theorem le_ending (url : Text) (timeout : Duration) (time : Nat) (a : Answer) :
    time ≤ (ending url timeout time a).1 := by
  unfold ending
  dsimp only
  split
  · split
    · exact Nat.le_add_right _ _
    · exact Nat.le_add_right _ _
  · exact Nat.le_add_right _ _

theorem cancels_ending {a : Answer} (h : Failure.cancels a.result = false) (url : Text)
    (timeout : Duration) (time : Nat) : Failure.cancels (ending url timeout time a).2 = false := by
  unfold ending
  dsimp only
  split
  · split
    · exact h
    · rfl
  · rfl

theorem isWanted_of_launch {url : Text} {budget : Duration × Bool} {admission : Admission}
    (hg : v.registry.NeverCancels o) (hd : e.departure = .never)
    (h : v.launch o e s url time budget admission w = (w', .fetching f)) : f.IsWanted time := by
  unfold launch at h
  split at h
  · cases h
  · rename_i b hb
    have hc := Backend.cancels_fetch hg (Registry.mem_of_find hb) w.reach (v.call e url budget.1)
    rw [hd] at h
    dsimp only [cutShort] at h
    cases h
    exact ⟨le_ending .., cancels_ending hc ..⟩

theorem isWanted_of_ask (hg : v.registry.NeverCancels o) (hd : e.departure = .never)
    (h : v.ask o e s time w = (w', .fetching f)) : f.IsWanted time := by
  unfold ask at h
  dsimp only at h
  split at h
  · cases h
  · split at h
    · cases h
    · split at h
      · cases h
      · exact isWanted_of_launch hg hd h

theorem settle_ne_gone (hf : f.IsWanted time) {err : Failure} :
    v.settle e f u ≠ (w', .gone err) := by
  intro h
  have hc := hf.not_cancels
  unfold settle at h
  dsimp only at h
  split at h
  · cases h
  · rename_i g ho
    rw [ho] at hc
    have hc : g.isCancelled = false := hc
    rw [hc, if_neg Bool.false_ne_true] at h
    split at h <;> cases h

/-- The outcome of a tag that has content, or whose sources have all failed. -/
def Outcome.IsFinal (out : Outcome) (tag : Include) : Prop :=
  (∃ r, out.result = .ok r) ∨ out.result = .error (exhausted tag out.attempts)

theorem Runs.isFinal (hg : v.registry.NeverCancels o) (hd : e.departure = .never)
    (h : Runs v o e env rest time n w out) : out.IsFinal e.seat.tag := by
  induction h with
  | exhausted => exact .inr rfl
  | served => exact .inl ⟨_, rfl⟩
  | late => exact .inr rfl
  | passedOver _ _ ih => exact ih
  | won => exact .inl ⟨_, rfl⟩
  | gone ha _ hs => exact absurd hs (settle_ne_gone (isWanted_of_ask hg hd ha))
  | timedOut => exact .inr rfl
  | next _ _ _ _ ih => exact ih

/-- **A tag of a request that is not given up has content, or all of its sources have failed.** -/
theorem Yields.isFinal (hg : v.registry.NeverCancels o) (hd : e.departure = .never)
    (h : Yields v o e env w out) : out.IsFinal e.seat.tag := by
  unfold Yields refusal? at h
  rw [hd] at h
  split at h
  · rename_i f hf
    subst h
    split at hf
    · cases hf
      exact .inr rfl
    · cases hf
  · exact h.isFinal hg hd

end Resolver

end EdgeInclude

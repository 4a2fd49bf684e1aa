import EdgeInclude.Proofs.Breaker.Steps
import EdgeInclude.Proofs.Resolver.Runs
import EdgeInclude.Proofs.Resolver.World

/-!
# Source by source

The sources of a tag have their turns one after the other. A turn ends in one of eight ways, and
either the next source has its turn then, or the tag has its outcome.

* `Ending` — how a turn ends; `Ending.mark` — what that leaves on the breaker of the source.
* `Resolver.Turn` — the rules of a turn, one for each way up to the end of a fetch.
* `Resolver.Course` — the turns of a tag; `Resolver.Resolves` — the whole of its resolution.
* `Resolver.exists_resolves`, `Resolver.Resolves.eq_resolve` — alone, a tag has exactly the course
  that `resolve` takes.
* `Resolver.yields_iff` — among others, it has the courses by which it yields its outcomes.
* `Resolver.Turn.breaker_self`, `Resolver.Turn.breaker_of_ne` — a turn marks one breaker.
* `Resolver.Course.breaker_visited`, `Resolver.Course.breaker_left` — so does a course, for each
  source that has its turn; `Resolver.Course.mem_fragmentList` — without an answer it keeps nothing.
-/

namespace EdgeInclude

variable {σ : Type}

/-! ## 1. How a turn ends -/

/-- How the turn of a source ends. -/
inductive Ending where
  /-- A cached fragment stands in for it. -/
  | served (content : Bytes)
  /-- The time of the request is over before a fetch begins. -/
  | expired
  /-- Its breaker lets nothing through. -/
  | refused
  /-- No backend serves it. -/
  | unserved
  /-- Its backend has answered. -/
  | won (r : Response)
  /-- The request has been given up. -/
  | cancelled (err : Failure)
  /-- The time of the request has run out during the fetch. -/
  | outOfTime (err : Failure)
  | failed (err : Failure)

namespace Ending

/-- Whether the next source has its turn. -/
def passesOn : Ending → Bool
  | refused | unserved | failed _ => true
  | _ => false

/-- How often a backend has been asked. -/
def attempts : Ending → Nat
  | won _ | cancelled _ | outOfTime _ | failed _ => 1
  | _ => 0

/-- What a turn leaves on the breaker of its source, at the time of its end: one more failure, none
if the source has answered, and else nothing. -/
def mark (now : Nat) : Ending → Breaker → Breaker
  | failed err, b => if err.tripsBreaker then b.fail now else b
  | won _, b => b.succeed
  | _, b => b

/-- The outcome of a tag with `n` attempts whose last turn has ended so. -/
def close (tag : Include) (n : Nat) : Ending → Resolver.Outcome
  | served content => ⟨n, .ok ⟨.empty, content⟩⟩
  | won r => ⟨n, .ok (Resolver.returned tag r)⟩
  | cancelled err => ⟨n, .error err⟩
  | _ => Resolver.giveUp tag n

/-- What the end of a fetch brings. -/
def settled (tag : Include) : Ending → Resolver.Settled
  | won r => .won (Resolver.returned tag r)
  | cancelled err => .gone err
  | outOfTime _ => .late
  | _ => .next

variable {ending : Ending} {tag : Include}

theorem eq_won {r : Response} (h : ending.settled tag = .won r) :
    ∃ r', ending = .won r' ∧ Resolver.returned tag r' = r := by
  cases ending with
  | won r' =>
    cases h
    exact ⟨r', rfl, rfl⟩
  | _ => cases h

theorem eq_cancelled {err : Failure} (h : ending.settled tag = .gone err) :
    ending = .cancelled err := by
  cases ending with
  | cancelled err' =>
    cases h
    rfl
  | _ => cases h

theorem eq_outOfTime (h : ending.settled tag = .late) : ∃ err, ending = .outOfTime err := by
  cases ending with
  | outOfTime err => exact ⟨err, rfl⟩
  | _ => cases h

end Ending

/-- A source that has had its turn: the world in which the turn has begun, the call that has been
made in it, how it has ended, and the world that it has left. -/
structure Stop (σ : Type) where
  source : Source
  start : World σ
  call : Option (Backend × Call)
  ending : Ending
  final : World σ

/-- The time that a fetch has taken when it ends in a world. -/
def Fetch.lasted (f : Fetch) (u : World σ) : Nat := (u.reaching f.ended).now - f.began

/-- How the turn of a source ends that is fetched. -/
def Fetch.ending (f : Fetch) : Ending :=
  match f.outcome with
  | .ok r => .won r
  | .error err =>
    if err.isCancelled then .cancelled err
    else if Resolver.isTimeout err && f.bound then .outOfTime err
    else .failed err

/-- A fetch ends in one of four ways. -/
theorem Fetch.ending_cases (f : Fetch) : (∃ r, f.outcome = .ok r ∧ f.ending = .won r) ∨
    ∃ err, f.outcome = .error err ∧
      (err.isCancelled = true ∧ f.ending = .cancelled err ∨
        err.isCancelled = false ∧ (Resolver.isTimeout err && f.bound) = true ∧
          f.ending = .outOfTime err ∨
        err.isCancelled = false ∧ (Resolver.isTimeout err && f.bound) = false ∧
          f.ending = .failed err) := by
  unfold ending
  cases f.outcome with
  | ok r => exact .inl ⟨r, rfl, rfl⟩
  | error err =>
    refine .inr ⟨err, rfl, ?_⟩
    dsimp only
    cases err.isCancelled with
    | true => exact .inl ⟨rfl, if_pos rfl⟩
    | false =>
      rw [if_neg Bool.false_ne_true]
      cases Resolver.isTimeout err && f.bound with
      | true => exact .inr (.inl ⟨rfl, rfl, if_pos rfl⟩)
      | false => exact .inr (.inr ⟨rfl, rfl, if_neg Bool.false_ne_true⟩)

theorem Fetch.eq_failed {f : Fetch} {tag : Include} (h : f.ending.settled tag = .next) :
    ∃ err, f.ending = .failed err := by
  rcases f.ending_cases with ⟨r, -, he⟩ | ⟨err, -, ⟨-, he⟩ | ⟨-, -, he⟩ | ⟨-, -, he⟩⟩
  · rw [he] at h
    cases h
  · rw [he] at h
    cases h
  · rw [he] at h
    cases h
  · exact ⟨err, he⟩

/-- A fetch is one attempt. -/
theorem Fetch.attempts_ending (f : Fetch) : f.ending.attempts = 1 := by
  rcases f.ending_cases with ⟨r, -, he⟩ | ⟨err, -, ⟨-, he⟩ | ⟨-, -, he⟩ | ⟨-, -, he⟩⟩ <;>
    rw [he] <;> rfl

/-- Others leave the breakers of a tag alone. -/
def Errand.Spares (e : Errand) (env : World σ → World σ → Prop) : Prop :=
  ∀ w u, env w u → ∀ s ∈ e.seat.tag.sources,
    u.breaker (e.seat.source s) = w.breaker (e.seat.source s)

theorem Errand.spares_eq (e : Errand) : e.Spares (Eq : World σ → World σ → Prop) :=
  fun _ _ h _ _ => h ▸ rfl

theorem Seat.source_ne {seat : Seat} {s s' : Source} (h : s.index ≠ s'.index) :
    seat.source s ≠ seat.source s' := fun heq => h (congrArg SourceId.source heq)

namespace Resolver

/-! ## 2. The turn of a source -/

/-- The address of a source for a request. -/
def address (e : Errand) (s : Source) : Text := s.value.render e.request []

/-- The key that the fragment of a source is cached under. -/
def fragmentKey (e : Errand) (s : Source) : Text :=
  Fragment.keyOf (address e s) (keyOf e.seat.tag e.request)

/-- The cached fragment of a source. -/
def found? (v : Resolver) (e : Errand) (s : Source) (w : World σ) : Option Bytes :=
  (v.lookup e.seat.tag (fragmentKey e s) w).2

/-- The world in which the fragment of a source has been looked up. -/
def searched (v : Resolver) (e : Errand) (s : Source) (w : World σ) : World σ :=
  (v.lookup e.seat.tag (fragmentKey e s) w).1

/-- The time that a fetch of a source has, and whether the deadline of the request limits it. -/
def allowance (v : Resolver) (e : Errand) (s : Source) (w : World σ) : Duration × Bool :=
  v.budget e.seat.tag e.request (v.searched e s w).now

/-- What the breaker of a source grants. -/
def granted (v : Resolver) (e : Errand) (s : Source) (w : World σ) : Breaker × Option Admission :=
  ((v.searched e s w).breaker (e.seat.source s)).grant v.breakers (v.searched e s w).now

/-- The call of the backend of a source. -/
def callOf (v : Resolver) (e : Errand) (s : Source) (w : World σ) : Call :=
  v.call e (address e s) (v.allowance e s w).1

/-- The fetch of a source that begins at a time, with what its backend answers. -/
def fetchOf (v : Resolver) (o : Surroundings σ) (e : Errand) (s : Source) (w : World σ) (time : Nat)
    (a : Admission) (answer : Answer) : Fetch :=
  let (ends, outcome) := cutShort (address e s) e.departure
    (ending (address e s) (v.allowance e s w).1 time answer)
  ⟨s, address e s, fragmentKey e s, a, (v.allowance e s w).2, ends, (v.searched e s w).now,
    (v.searched e s w).now + o.pace * (ends - time), outcome⟩

/-- The turn of a source that begins at a time in a world, with the call that is made in it, the
world that it leaves and the time of its end. During a fetch others may change the world. -/
inductive Turn (v : Resolver) (o : Surroundings σ) (e : Errand) (env : World σ → World σ → Prop)
    (s : Source) (time : Nat) (w : World σ) :
    Ending → Option (Backend × Call) → World σ → Nat → Prop where
  | served {content : Bytes} (found : v.found? e s w = some content) :
      Turn v o e env s time w (.served content) none ((v.searched e s w).count (·.cacheHit)) time
  | expired (missed : v.found? e s w = none) (spent : (v.allowance e s w).1 = 0) :
      Turn v o e env s time w .expired none (v.searched e s w) time
  | refused (missed : v.found? e s w = none) (left : (v.allowance e s w).1 ≠ 0)
      (refusal : (v.granted e s w).2 = none) :
      Turn v o e env s time w .refused none ((v.searched e s w).count (·.skip)) time
  | unserved {b : Breaker} {a : Admission} {err : Failure} (missed : v.found? e s w = none)
      (left : (v.allowance e s w).1 ≠ 0) (admitted : v.granted e s w = (b, some a))
      (unknown : v.registry.find (address e s) s.isUrl = .error err) :
      Turn v o e env s time w .unserved none
        (((v.searched e s w).setBreaker (e.seat.source s) b).onBreaker (e.seat.source s)
          (·.release a)) time
  | fetched {b : Breaker} {a : Admission} {backend : Backend} {reach : Reach σ} {answer : Answer}
      {u : World σ} (missed : v.found? e s w = none) (left : (v.allowance e s w).1 ≠ 0)
      (admitted : v.granted e s w = (b, some a))
      (known : v.registry.find (address e s) s.isUrl = .ok backend)
      (answers : backend.fetch o (v.searched e s w).reach (v.callOf e s w) = (reach, answer))
      (wait : Meanwhile env time (v.fetchOf o e s w time a answer)
        { (v.searched e s w).setBreaker (e.seat.source s) b with reach := reach } u) :
      Turn v o e env s time w (v.fetchOf o e s w time a answer).ending
        (some (backend, v.callOf e s w)) (v.settle e (v.fetchOf o e s w time a answer) u).1
        (v.fetchOf o e s w time a answer).ends

variable {v : Resolver} {o : Surroundings σ} {e : Errand} {env : World σ → World σ → Prop}
  {s : Source} {rest : List Source} {time time' n : Nat} {w w' u : World σ} {f : Fetch}
  {ending : Ending} {call : Option (Backend × Call)} {out : Outcome}

/-- `ask`, part by part. -/
theorem ask_eq (v : Resolver) (o : Surroundings σ) (e : Errand) (s : Source) (time : Nat)
    (w : World σ) : v.ask o e s time w =
      match v.found? e s w with
      | some content => ((v.searched e s w).count (·.cacheHit), .served content)
      | none =>
        if (v.allowance e s w).1 == 0 then (v.searched e s w, .late)
        else match (v.granted e s w).2 with
          | none => ((v.searched e s w).count (·.skip), .passedOver)
          | some a => v.launch o e s (address e s) time (v.allowance e s w) a
              ((v.searched e s w).setBreaker (e.seat.source s) (v.granted e s w).1) := rfl

theorem launch_eq (v : Resolver) (o : Surroundings σ) (e : Errand) (s : Source) (time : Nat)
    (w : World σ) (b : Breaker) (a : Admission) :
    v.launch o e s (address e s) time (v.allowance e s w) a
        ((v.searched e s w).setBreaker (e.seat.source s) b) =
      match v.registry.find (address e s) s.isUrl with
      | .error _ => (((v.searched e s w).setBreaker (e.seat.source s) b).onBreaker
          (e.seat.source s) (·.release a), .passedOver)
      | .ok backend =>
        ({ (v.searched e s w).setBreaker (e.seat.source s) b with
            reach := (backend.fetch o (v.searched e s w).reach (v.callOf e s w)).1 },
          .fetching (v.fetchOf o e s w time a
            (backend.fetch o (v.searched e s w).reach (v.callOf e s w)).2)) := rfl

theorem snd_settle (v : Resolver) (e : Errand) (f : Fetch) (u : World σ) :
    (v.settle e f u).2 = f.ending.settled e.seat.tag := by
  unfold settle
  rcases f.ending_cases with ⟨r, ho, he⟩ | ⟨err, ho, ⟨hc, he⟩ | ⟨hc, hb, he⟩ | ⟨hc, hb, he⟩⟩
  · rw [ho, he]
    rfl
  · rw [ho, he]
    dsimp only
    rw [hc, if_pos rfl]
    rfl
  · rw [ho, he]
    dsimp only
    rw [hc, if_neg Bool.false_ne_true, hb, if_pos rfl]
    rfl
  · rw [ho, he]
    dsimp only
    rw [hc, if_neg Bool.false_ne_true, hb, if_neg Bool.false_ne_true]
    rfl

/-- **Every source that is asked has a turn.** -/
theorem turn_of_ask (env : World σ → World σ → Prop) {asked : Asked}
    (ha : v.ask o e s time w = (w', asked)) :
    match asked with
    | .served content => Turn v o e env s time w (.served content) none w' time
    | .late => Turn v o e env s time w .expired none w' time
    | .passedOver => ∃ ending, ending.passesOn = true ∧ ending.attempts = 0 ∧
        Turn v o e env s time w ending none w' time
    | .fetching f => ∃ call, ∀ u, Meanwhile env time f w' u →
        Turn v o e env s time w f.ending (some call) (v.settle e f u).1 f.ends := by
  rw [ask_eq] at ha
  cases hf : v.found? e s w with
  | some content =>
    rw [hf] at ha
    cases ha
    exact .served hf
  | none =>
    rw [hf] at ha
    dsimp only at ha
    split at ha
    · rename_i hover
      cases ha
      exact .expired hf (beq_iff_eq.1 hover)
    · rename_i hleft
      have hleft : (v.allowance e s w).1 ≠ 0 := fun h => hleft (beq_iff_eq.2 h)
      cases hg : (v.granted e s w).2 with
      | none =>
        rw [hg] at ha
        cases ha
        exact ⟨.refused, rfl, rfl, .refused hf hleft hg⟩
      | some a =>
        have hgrant : v.granted e s w = ((v.granted e s w).1, some a) := Prod.ext rfl hg
        rw [hg] at ha
        dsimp only at ha
        rw [launch_eq] at ha
        cases hk : v.registry.find (address e s) s.isUrl with
        | error err =>
          rw [hk] at ha
          cases ha
          exact ⟨.unserved, rfl, rfl, .unserved hf hleft hgrant hk⟩
        | ok backend =>
          rw [hk] at ha
          cases ha
          exact ⟨_, fun u hu => .fetched hf hleft hgrant hk rfl hu⟩

/-- The turn that a source has is the one in which it is asked. -/
theorem Turn.asked (h : Turn v o e env s time w ending call w' time') :
    (∃ content, ending = .served content ∧ v.ask o e s time w = (w', .served content)) ∨
    (ending = .expired ∧ v.ask o e s time w = (w', .late)) ∨
    (ending.passesOn = true ∧ ending.attempts = 0 ∧ time' = time ∧
      v.ask o e s time w = (w', .passedOver)) ∨
    ∃ f w₁ u, ending = f.ending ∧ time' = f.ends ∧ w' = (v.settle e f u).1 ∧
      Meanwhile env time f w₁ u ∧ v.ask o e s time w = (w₁, .fetching f) := by
  rw [ask_eq]
  cases h with
  | served found =>
    rw [found]
    exact .inl ⟨_, rfl, rfl⟩
  | expired missed spent =>
    rw [missed, spent]
    exact .inr (.inl ⟨rfl, rfl⟩)
  | refused missed left refusal =>
    rw [missed, refusal]
    dsimp only
    rw [if_neg (fun h => left (beq_iff_eq.1 h))]
    exact .inr (.inr (.inl ⟨rfl, rfl, rfl, rfl⟩))
  | unserved missed left admitted unknown =>
    rw [missed, admitted]
    dsimp only
    rw [if_neg (fun h => left (beq_iff_eq.1 h)), launch_eq, unknown]
    exact .inr (.inr (.inl ⟨rfl, rfl, rfl, rfl⟩))
  | @fetched b a backend reach answer u missed left admitted known answers wait =>
    rw [missed, admitted]
    dsimp only
    rw [if_neg (fun h => left (beq_iff_eq.1 h)), launch_eq, known]
    dsimp only
    rw [answers]
    exact .inr (.inr (.inr ⟨_, _, u, rfl, rfl, rfl, wait, rfl⟩))

/-! ## 3. The course of a tag -/

/-- The turns of sources, one after the other, up to the one that decides. -/
inductive Course (v : Resolver) (o : Surroundings σ) (e : Errand) (env : World σ → World σ → Prop) :
    List Source → (time : Nat) → World σ → List (Stop σ) → World σ → Prop where
  | exhausted {time : Nat} {w : World σ} : Course v o e env [] time w [] w
  | decided {s : Source} {rest : List Source} {time time' : Nat} {w w' : World σ} {ending : Ending}
      {call : Option (Backend × Call)} (turn : Turn v o e env s time w ending call w' time')
      (decides : ending.passesOn = false) :
      Course v o e env (s :: rest) time w [⟨s, w, call, ending, w'⟩] w'
  | next {s : Source} {rest : List Source} {time time' : Nat} {w w' w'' : World σ} {ending : Ending}
      {call : Option (Backend × Call)} {stops : List (Stop σ)}
      (turn : Turn v o e env s time w ending call w' time') (passes : ending.passesOn = true)
      (more : Course v o e env rest time' w' stops w'') :
      Course v o e env (s :: rest) time w (⟨s, w, call, ending, w'⟩ :: stops) w''

/-- The outcome of a tag, with `n` attempts before. -/
def outcomeOf (tag : Include) (n : Nat) : List (Stop σ) → Outcome
  | [] => giveUp tag n
  | t :: rest =>
    if t.ending.passesOn then outcomeOf tag (n + t.ending.attempts) rest
    else t.ending.close tag (n + t.ending.attempts)

theorem attempts_close (ending : Ending) (tag : Include) (n : Nat) :
    (ending.close tag n).attempts = n := by
  cases ending <;> rfl

/-- The resolution of a tag, with the turns of its sources and the world that it leaves. -/
def Resolves (v : Resolver) (o : Surroundings σ) (e : Errand) (env : World σ → World σ → Prop)
    (w : World σ) (stops : List (Stop σ)) (w' : World σ) (out : Outcome) : Prop :=
  match refusal? e with
  | some f => stops = [] ∧ w' = w ∧ out = ⟨0, .error f⟩
  | none => Course v o e env e.seat.tag.sources 0 w stops w' ∧ out = outcomeOf e.seat.tag 0 stops

variable {stops : List (Stop σ)} {t : Stop σ}

theorem outcomeOf_decided (tag : Include) (n : Nat) (h : t.ending.passesOn = false) :
    outcomeOf tag n [t] = t.ending.close tag (n + t.ending.attempts) := by
  unfold outcomeOf
  rw [h, if_neg Bool.false_ne_true]

theorem outcomeOf_next (tag : Include) (n : Nat) (h : t.ending.passesOn = true) :
    outcomeOf tag n (t :: stops) = outcomeOf tag (n + t.ending.attempts) stops := by
  rw [outcomeOf, if_pos h]

/-- **Every run of the sources is a course of theirs.** -/
theorem Runs.exists_course (h : Runs v o e env rest time n w out) :
    ∃ stops w', Course v o e env rest time w stops w' ∧ out = outcomeOf e.seat.tag n stops := by
  induction h with
  | exhausted => exact ⟨[], _, .exhausted, rfl⟩
  | served ha => exact ⟨_, _, .decided (turn_of_ask env ha) rfl, rfl⟩
  | late ha => exact ⟨_, _, .decided (turn_of_ask env ha) rfl, rfl⟩
  | passedOver ha _ ih =>
    obtain ⟨stops, w', hc, hout⟩ := ih
    obtain ⟨ending, hp, hn, ht⟩ := turn_of_ask env ha
    refine ⟨_, _, .next ht hp hc, ?_⟩
    rw [hout, outcomeOf_next _ _ hp, hn]
    rfl
  | won ha wait settled =>
    obtain ⟨call, ht⟩ := turn_of_ask env ha
    obtain ⟨r', he, rfl⟩ := Ending.eq_won ((snd_settle ..).symm.trans (congrArg Prod.snd settled))
    have hp : (Fetch.ending _).passesOn = false := congrArg Ending.passesOn he
    exact ⟨_, _, .decided (ht _ wait) hp, by rw [outcomeOf_decided _ _ hp, he]; rfl⟩
  | gone ha wait settled =>
    obtain ⟨call, ht⟩ := turn_of_ask env ha
    have he := Ending.eq_cancelled ((snd_settle ..).symm.trans (congrArg Prod.snd settled))
    have hp : (Fetch.ending _).passesOn = false := congrArg Ending.passesOn he
    exact ⟨_, _, .decided (ht _ wait) hp, by rw [outcomeOf_decided _ _ hp, he]; rfl⟩
  | timedOut ha wait settled =>
    obtain ⟨call, ht⟩ := turn_of_ask env ha
    obtain ⟨err, he⟩ := Ending.eq_outOfTime ((snd_settle ..).symm.trans (congrArg Prod.snd settled))
    have hp : (Fetch.ending _).passesOn = false := congrArg Ending.passesOn he
    exact ⟨_, _, .decided (ht _ wait) hp, by rw [outcomeOf_decided _ _ hp, he]; rfl⟩
  | next ha wait settled _ ih =>
    obtain ⟨stops, w', hc, hout⟩ := ih
    obtain ⟨call, ht⟩ := turn_of_ask env ha
    obtain ⟨err, he⟩ := Fetch.eq_failed ((snd_settle ..).symm.trans (congrArg Prod.snd settled))
    have hp : (Fetch.ending _).passesOn = true := congrArg Ending.passesOn he
    have hturn := ht _ wait
    rw [settled] at hturn
    refine ⟨_, _, .next hturn hp hc, ?_⟩
    rw [hout, outcomeOf_next _ _ hp, he]
    rfl

/-- What comes of the end of a fetch, and of the sources behind it. -/
theorem closes_iff : Closes v o e env f n rest u out ↔
    if f.ending.passesOn then Runs v o e env rest f.ends n (v.settle e f u).1 out
    else out = f.ending.close e.seat.tag n := by
  have hs := snd_settle v e f u
  unfold Closes
  rcases hset : v.settle e f u with ⟨u', settled⟩
  rw [hset] at hs
  dsimp only at hs ⊢
  rcases f.ending_cases with ⟨r, -, he⟩ | ⟨err, -, ⟨-, he⟩ | ⟨-, -, he⟩ | ⟨-, -, he⟩⟩ <;>
    rw [he] at hs ⊢ <;> subst hs <;> exact Iff.rfl

/-- **Every course of the sources is a run of theirs.** -/
theorem Course.runs (h : Course v o e env rest time w stops w') (n : Nat) :
    Runs v o e env rest time n w (outcomeOf e.seat.tag n stops) := by
  induction h generalizing n with
  | exhausted => exact .exhausted
  | decided turn decides =>
    rw [outcomeOf_decided _ _ decides]
    rcases turn.asked with ⟨content, rfl, ha⟩ | ⟨rfl, ha⟩ | ⟨hp, -⟩ | ⟨f, w₁, u, rfl, -, -, hm, ha⟩
    · exact .served ha
    · exact .late ha
    · exact absurd hp (ne_true_of_eq_false decides)
    · refine .of_closes ha hm (closes_iff.2 ?_)
      rw [decides, if_neg Bool.false_ne_true, f.attempts_ending]
  | next turn passes _ ih =>
    rw [outcomeOf_next _ _ passes]
    rcases turn.asked with ⟨content, rfl, -⟩ | ⟨rfl, -⟩ | ⟨-, hn, rfl, ha⟩ |
      ⟨f, w₁, u, rfl, rfl, rfl, hm, ha⟩
    · cases passes
    · cases passes
    · refine .passedOver ha ?_
      dsimp only
      rw [hn]
      exact ih n
    · refine .of_closes ha hm (closes_iff.2 ?_)
      rw [passes, if_pos rfl, f.attempts_ending]
      exact ih (n + 1)

/-- **What a tag yields among others is the outcome of its courses among them.** -/
theorem yields_iff : v.Yields o e env w out ↔ ∃ stops w', v.Resolves o e env w stops w' out := by
  unfold Yields Resolves
  cases refusal? e with
  | some f => exact ⟨fun h => ⟨[], w, rfl, rfl, h⟩, fun ⟨_, _, _, _, h⟩ => h⟩
  | none =>
    refine ⟨fun h => Runs.exists_course h, ?_⟩
    rintro ⟨stops, w', hc, rfl⟩
    exact hc.runs 0

theorem resolveFrom_of_fetching {w₁ : World σ} (ha : v.ask o e s time w = (w₁, .fetching f))
    (rest : List Source) (n : Nat) : v.resolveFrom o e (s :: rest) time n w =
      if f.ending.passesOn then v.resolveFrom o e rest f.ends (n + 1) (v.settle e f w₁).1
      else ((v.settle e f w₁).1, f.ending.close e.seat.tag (n + 1)) := by
  have hs := snd_settle v e f w₁
  simp only [resolveFrom, ha]
  rcases hset : v.settle e f w₁ with ⟨u', settled⟩
  rw [hset] at hs
  dsimp only at hs ⊢
  rcases f.ending_cases with ⟨r, -, he⟩ | ⟨err, -, ⟨-, he⟩ | ⟨-, -, he⟩ | ⟨-, -, he⟩⟩ <;>
    rw [he] at hs ⊢ <;> subst hs <;> rfl

/-- Alone, the sources have the course that `resolveFrom` takes. -/
theorem Course.eq_resolveFrom (h : Course v o e Eq rest time w stops w') (n : Nat) :
    v.resolveFrom o e rest time n w = (w', outcomeOf e.seat.tag n stops) := by
  refine Prod.ext ?_ (h.runs n).eq_resolveFrom.symm
  induction h generalizing n with
  | exhausted => rfl
  | decided turn decides =>
    rcases turn.asked with ⟨content, rfl, ha⟩ | ⟨rfl, ha⟩ | ⟨hp, -⟩ |
      ⟨f, w₁, u, rfl, -, rfl, hm, ha⟩
    · rw [resolveFrom, ha]
    · rw [resolveFrom, ha]
    · exact absurd hp (ne_true_of_eq_false decides)
    · rw [resolveFrom_of_fetching ha, decides, if_neg Bool.false_ne_true, meanwhile_eq_iff.1 hm]
  | next turn passes _ ih =>
    rcases turn.asked with ⟨content, rfl, -⟩ | ⟨rfl, -⟩ | ⟨-, -, rfl, ha⟩ |
      ⟨f, w₁, u, rfl, rfl, rfl, hm, ha⟩
    · cases passes
    · cases passes
    · rw [resolveFrom, ha]
      exact ih n
    · rw [resolveFrom_of_fetching ha, passes, if_pos rfl, ← meanwhile_eq_iff.1 hm]
      exact ih (n + 1)

/-- **Alone, a tag has the course that `resolve` takes**, and no other. -/
theorem exists_resolves (v : Resolver) (o : Surroundings σ) (e : Errand) (w : World σ) :
    ∃ stops, v.Resolves o e Eq w stops (v.resolve o e w).1 (v.resolve o e w).2 := by
  unfold Resolves resolve
  cases refusal? e with
  | some f => exact ⟨[], rfl, rfl, rfl⟩
  | none =>
    have hruns : Runs v o e Eq e.seat.tag.sources 0 0 w
        (v.resolveFrom o e e.seat.tag.sources 0 0 w).2 := runs_resolveFrom 0 0 w
    obtain ⟨stops, w', hc, hout⟩ := hruns.exists_course
    refine ⟨stops, ?_, hout⟩
    dsimp only
    rw [hc.eq_resolveFrom 0]
    exact hc

/-- A tag that can be resolved has a course. -/
theorem Resolves.course (h : v.Resolves o e env w stops w' out) (hf : e.seat.tag.fault = none)
    (hd : e.departure ≠ .already) : Course v o e env e.seat.tag.sources 0 w stops w' ∧
      out = outcomeOf e.seat.tag 0 stops := by
  have hr : refusal? e = none := by
    unfold refusal?
    rw [hf, Option.isSome_none, if_neg Bool.false_ne_true, if_neg fun h => hd (beq_iff_eq.1 h)]
  unfold Resolves at h
  rwa [hr] at h

theorem Resolves.eq_resolve (h : v.Resolves o e Eq w stops w' out) :
    v.resolve o e w = (w', out) := by
  unfold Resolves at h
  unfold resolve
  cases hr : refusal? e with
  | some f =>
    rw [hr] at h
    obtain ⟨-, rfl, rfl⟩ := h
    rfl
  | none =>
    rw [hr] at h
    obtain ⟨hc, rfl⟩ := h
    exact hc.eq_resolveFrom 0

/-! ## 4. What a turn leaves -/

variable {id : SourceId} {fragment : Fragment}

@[simp] theorem breaker_searched (v : Resolver) (e : Errand) (s : Source) (w : World σ)
    (id : SourceId) : (v.searched e s w).breaker id = w.breaker id := by
  unfold searched lookup
  split
  · rfl
  · exact World.breaker_cached ..

theorem mem_searched (h : fragment ∈ (v.searched e s w).fragmentList) :
    fragment ∈ w.fragmentList := by
  unfold searched lookup at h
  split at h
  · exact h
  · exact World.mem_cached h

@[simp] theorem reach_searched (v : Resolver) (e : Errand) (s : Source) (w : World σ) :
    (v.searched e s w).reach = w.reach := by
  unfold searched lookup World.cached
  split
  · rfl
  · split <;> rfl

@[simp] theorem breaker_store (v : Resolver) (tag : Include) (key : Text) (data : Bytes)
    (w : World σ) (id : SourceId) : (v.store tag key data w).breaker id = w.breaker id := by
  unfold store
  split
  · rfl
  · exact World.breaker_keep ..

/-- The world behind the end of a fetch. -/
theorem fst_settle (v : Resolver) (e : Errand) (f : Fetch) (u : World σ) : (v.settle e f u).1 =
    match f.ending with
    | .won r => v.store e.seat.tag f.cacheKey r.content
        (((u.reaching f.ended).onBreaker (e.seat.source f.source) Breaker.succeed).count
          (·.fetch true (f.lasted u)))
    | .cancelled _ =>
      ((u.reaching f.ended).onBreaker (e.seat.source f.source) (·.release f.admission)).count
        (·.cancel)
    | .outOfTime _ =>
      ((u.reaching f.ended).onBreaker (e.seat.source f.source) (·.release f.admission)).count
        (·.fetch false (f.lasted u))
    | .failed err =>
      ((u.reaching f.ended).onBreaker (e.seat.source f.source)
        (blame err f.admission (u.reaching f.ended).now)).count (·.fetch false (f.lasted u))
    | _ => u := by
  unfold settle Fetch.lasted
  rcases f.ending_cases with ⟨r, ho, he⟩ | ⟨err, ho, ⟨hc, he⟩ | ⟨hc, hb, he⟩ | ⟨hc, hb, he⟩⟩
  · rw [ho, he]
  · rw [ho, he]
    dsimp only
    rw [hc, if_pos rfl]
  · rw [ho, he]
    dsimp only
    rw [hc, if_neg Bool.false_ne_true, hb, if_pos rfl]
  · rw [ho, he]
    dsimp only
    rw [hc, if_neg Bool.false_ne_true, hb, if_neg Bool.false_ne_true]

/-- **The end of a fetch marks the breaker of its source**, as if nothing had been granted. -/
theorem breaker_settle {b b' : Breaker} {p : BreakerPolicy} {now : Nat}
    (hg : b.grant p now = (b', some f.admission)) (hu : u.breaker (e.seat.source f.source) = b')
    (hp : ∀ r, f.ending = .won r → 1 ≤ p.maxFailures) :
    (v.settle e f u).1.breaker (e.seat.source f.source) =
      f.ending.mark (v.settle e f u).1.now b := by
  rw [fst_settle]
  rcases f.ending_cases with ⟨r, -, he⟩ | ⟨err, -, ⟨-, he⟩ | ⟨-, -, he⟩ | ⟨-, -, he⟩⟩
  · simp only [he, breaker_store, World.breaker_count, World.breaker_onBreaker_self,
      World.breaker_reaching, hu]
    exact Breaker.succeed_grant (hp r he) hg
  · simp only [he, World.breaker_count, World.breaker_onBreaker_self, World.breaker_reaching, hu]
    exact Breaker.release_grant hg
  · simp only [he, World.breaker_count, World.breaker_onBreaker_self, World.breaker_reaching, hu]
    exact Breaker.release_grant hg
  · simp only [he, World.breaker_count, World.breaker_onBreaker_self, World.breaker_reaching, hu,
      blame, Ending.mark]
    split
    · exact Breaker.fail_grant hg (u.reaching f.ended).now
    · exact Breaker.release_grant hg

theorem breaker_settle_of_ne (h : e.seat.source f.source ≠ id) :
    (v.settle e f u).1.breaker id = u.breaker id := by
  rw [fst_settle]
  rcases f.ending_cases with ⟨r, -, he⟩ | ⟨err, -, ⟨-, he⟩ | ⟨-, -, he⟩ | ⟨-, -, he⟩⟩ <;>
    simp only [he, breaker_store, World.breaker_count, World.breaker_onBreaker_of_ne h,
      World.breaker_reaching]

/-- A fetch without an answer keeps no fragment. -/
theorem fragmentList_settle (hw : ∀ r, f.ending ≠ .won r) :
    (v.settle e f u).1.fragmentList = u.fragmentList := by
  rw [fst_settle]
  rcases f.ending_cases with ⟨r, -, he⟩ | ⟨err, -, ⟨-, he⟩ | ⟨-, -, he⟩ | ⟨-, -, he⟩⟩
  · exact absurd he (hw r)
  · rw [he]
    rfl
  · rw [he]
    rfl
  · rw [he]
    rfl

theorem Meanwhile.breaker_eq (henv : ∀ w u, env w u → u.breaker id = w.breaker id)
    (h : Meanwhile env time f w u) : u.breaker id = w.breaker id := by
  unfold Meanwhile at h
  split at h
  · exact henv _ _ h
  · rw [h]

/-- **A turn marks the breaker of its source.** -/
theorem Turn.breaker_self (henv : e.Spares env) (hs : s ∈ e.seat.tag.sources)
    (h : Turn v o e env s time w ending call w' time')
    (hp : ∀ r, ending = .won r → 1 ≤ v.breakers.maxFailures) :
    w'.breaker (e.seat.source s) = ending.mark w'.now (w.breaker (e.seat.source s)) := by
  cases h with
  | served found => exact breaker_searched ..
  | expired missed spent => exact breaker_searched ..
  | refused missed left refusal => exact breaker_searched ..
  | @unserved b a err missed left admitted unknown =>
    unfold granted at admitted
    rw [breaker_searched] at admitted
    rw [World.breaker_onBreaker_self, World.breaker_setBreaker_self]
    exact Breaker.release_grant admitted
  | @fetched b a backend reach answer u missed left admitted known answers wait =>
    unfold granted at admitted
    rw [breaker_searched] at admitted
    refine breaker_settle admitted ?_ hp
    exact (wait.breaker_eq fun w u hu => henv w u hu s hs).trans (World.breaker_setBreaker_self ..)

/-- **It leaves all others alone.** -/
theorem Turn.breaker_of_ne (henv : ∀ w u, env w u → u.breaker id = w.breaker id)
    (h : Turn v o e env s time w ending call w' time') (hne : e.seat.source s ≠ id) :
    w'.breaker id = w.breaker id := by
  cases h with
  | served found => exact breaker_searched ..
  | expired missed spent => exact breaker_searched ..
  | refused missed left refusal => exact breaker_searched ..
  | unserved missed left admitted unknown =>
    rw [World.breaker_onBreaker_of_ne hne, World.breaker_setBreaker_of_ne hne, breaker_searched]
  | fetched missed left admitted known answers wait =>
    refine (breaker_settle_of_ne hne).trans ((wait.breaker_eq henv).trans ?_)
    exact (World.breaker_setBreaker_of_ne hne).trans (breaker_searched ..)

/-- **A turn that brings no answer puts no fragment into the cache.** -/
theorem Turn.mem_fragmentList (h : Turn v o e env s time w ending call w' time')
    (hw : ∀ r, ending ≠ .won r) (hm : fragment ∈ w'.fragmentList) :
    fragment ∈ w.fragmentList ∨
      ∃ x y, env x y ∧ fragment ∉ x.fragmentList ∧ fragment ∈ y.fragmentList := by
  cases h with
  | served found => exact .inl (mem_searched hm)
  | expired missed spent => exact .inl (mem_searched hm)
  | refused missed left refusal => exact .inl (mem_searched hm)
  | unserved missed left admitted unknown => exact .inl (mem_searched hm)
  | @fetched b a backend reach answer u missed left admitted known answers wait =>
    rw [fragmentList_settle hw] at hm
    unfold Meanwhile at wait
    split at wait
    · by_cases hx : fragment ∈ (v.searched e s w).fragmentList
      · exact .inl (mem_searched hx)
      · exact .inr ⟨_, u, wait, hx, hm⟩
    · subst wait
      exact .inl (mem_searched hm)

namespace Course

/-- Each stop of a course is a turn. -/
theorem exists_turn (h : Course v o e env rest time w stops w') (ht : t ∈ stops) :
    ∃ time time', Turn v o e env t.source time t.start t.ending t.call t.final time' := by
  induction h with
  | exhausted => cases ht
  | decided turn _ =>
    cases List.mem_singleton.1 ht
    exact ⟨_, _, turn⟩
  | next turn _ _ ih =>
    rcases List.mem_cons.1 ht with rfl | ht
    · exact ⟨_, _, turn⟩
    · exact ih ht

theorem sources_prefix (h : Course v o e env rest time w stops w') :
    stops.map (·.source) <+: rest := by
  induction h with
  | exhausted => exact List.prefix_rfl
  | decided => exact List.prefix_append [_] _
  | next _ _ _ ih => exact List.prefix_cons_inj _ |>.2 ih

/-- **The breaker of a source that has no turn stays as it is.** -/
theorem breaker_of_unvisited (henv : ∀ w u, env w u → u.breaker id = w.breaker id)
    (h : Course v o e env rest time w stops w') (hne : ∀ t ∈ stops, e.seat.source t.source ≠ id) :
    w'.breaker id = w.breaker id := by
  induction h with
  | exhausted => rfl
  | decided turn _ => exact turn.breaker_of_ne henv (hne _ (List.mem_singleton_self _))
  | next turn _ _ ih =>
    refine (ih fun t ht => hne t (List.mem_cons_of_mem _ ht)).trans ?_
    exact turn.breaker_of_ne henv (hne _ List.mem_cons_self)

theorem source_ne_of_mem {s : Source} (h : Course v o e env rest time w stops w')
    (hn : s.index ∉ rest.map (·.index)) (ht : t ∈ stops) :
    e.seat.source t.source ≠ e.seat.source s := by
  refine Seat.source_ne fun heq => hn ?_
  rw [← heq]
  exact List.mem_map_of_mem (h.sources_prefix.subset (List.mem_map_of_mem ht))

/-- **A source finds its breaker as it was in the beginning, and its turn marks it.** -/
theorem breaker_visited (henv : e.Spares env) (h : Course v o e env rest time w stops w')
    (hn : (rest.map (·.index)).Nodup) (hsub : ∀ s ∈ rest, s ∈ e.seat.tag.sources) (ht : t ∈ stops)
    (hp : ∀ r, t.ending = .won r → 1 ≤ v.breakers.maxFailures) :
    t.start.breaker (e.seat.source t.source) = w.breaker (e.seat.source t.source) ∧
      w'.breaker (e.seat.source t.source) =
        t.ending.mark t.final.now (w.breaker (e.seat.source t.source)) := by
  induction h with
  | exhausted => cases ht
  | decided turn _ =>
    obtain rfl := List.mem_singleton.1 ht
    exact ⟨rfl, turn.breaker_self henv (hsub _ List.mem_cons_self) hp⟩
  | @next s rest time time' w w₁ w' ending call stops turn _ more ih =>
    rw [List.map_cons, List.nodup_cons] at hn
    rcases List.mem_cons.1 ht with rfl | ht
    · -- the sources behind it have other breakers
      have hself := turn.breaker_self henv (hsub _ List.mem_cons_self) hp
      refine ⟨rfl, Eq.trans ?_ hself⟩
      refine more.breaker_of_unvisited (fun w u hu => henv w u hu _ (hsub _ List.mem_cons_self)) ?_
      exact fun t ht => more.source_ne_of_mem hn.1 ht
    · have hmem : t.source ∈ rest := more.sources_prefix.subset (List.mem_map_of_mem ht)
      have hkeep : w₁.breaker (e.seat.source t.source) = w.breaker (e.seat.source t.source) := by
        refine turn.breaker_of_ne (fun w u hu => henv w u hu _ (hsub _ (.tail _ hmem))) ?_
        exact (more.source_ne_of_mem hn.1 ht).symm
      have hvisited := ih hn.2 (fun s hs => hsub s (.tail _ hs)) ht
      rwa [hkeep] at hvisited

/-- **The breakers of the sources that are left stay as they are.** -/
theorem breaker_left (henv : e.Spares env) (h : Course v o e env rest time w stops w')
    (hn : (rest.map (·.index)).Nodup) (hsub : ∀ s ∈ rest, s ∈ e.seat.tag.sources)
    (hs : s ∈ rest.drop stops.length) :
    w'.breaker (e.seat.source s) = w.breaker (e.seat.source s) := by
  have hmem : s ∈ rest := List.mem_of_mem_drop hs
  refine h.breaker_of_unvisited (fun w u hu => henv w u hu s (hsub s hmem)) fun t ht => ?_
  refine Seat.source_ne fun heq => ?_
  obtain ⟨left, hleft⟩ := h.sources_prefix
  have hdrop : rest.drop stops.length = left := by
    rw [← hleft, List.drop_left' (List.length_map ..)]
  rw [← hleft, List.map_append] at hn
  exact (List.nodup_append.1 hn).2.2 _ (List.mem_map_of_mem (List.mem_map_of_mem ht)) _
    (List.mem_map_of_mem (hdrop ▸ hs)) heq

/-- **A course without an answer puts no fragment into the cache**: each that is there at the end
has been there before, or others have brought it. -/
theorem mem_fragmentList (h : Course v o e env rest time w stops w')
    (hw : ∀ t ∈ stops, ∀ r, t.ending ≠ .won r) (hm : fragment ∈ w'.fragmentList) :
    fragment ∈ w.fragmentList ∨
      ∃ x y, env x y ∧ fragment ∉ x.fragmentList ∧ fragment ∈ y.fragmentList := by
  induction h with
  | exhausted => exact .inl hm
  | decided turn _ => exact turn.mem_fragmentList (hw _ (List.mem_singleton_self _)) hm
  | next turn _ _ ih =>
    rcases ih (fun t ht => hw t (List.mem_cons_of_mem _ ht)) hm with hm | hm
    · exact turn.mem_fragmentList (hw _ List.mem_cons_self) hm
    · exact .inr hm

/-- **A turn that does not pass on is the last one**, and all before it do. -/
theorem last_of_decides (h : Course v o e env rest time w stops w') (ht : t ∈ stops)
    (hd : t.ending.passesOn = false) :
    ∃ tried, stops = tried ++ [t] ∧ ∀ t' ∈ tried, t'.ending.passesOn = true := by
  induction h with
  | exhausted => cases ht
  | decided turn _ =>
    cases List.mem_singleton.1 ht
    exact ⟨[], rfl, List.forall_mem_nil _⟩
  | @next s rest time time' w w₁ w' ending call stops turn passes _ ih =>
    rcases List.mem_cons.1 ht with rfl | ht
    · rw [passes] at hd
      cases hd
    · obtain ⟨tried, hlast, hall⟩ := ih ht
      refine ⟨⟨s, w, call, ending, w₁⟩ :: tried, ?_, List.forall_mem_cons.2 ⟨passes, hall⟩⟩
      rw [hlast, List.cons_append]

end Course

end Resolver

end EdgeInclude

import EdgeInclude.Proofs.Resolver.Turns

/-!
# The first source that has something to offer

While nothing but the time of a fetch cuts it short, the sources of a tag are tried in their order,
and the first one that has something to offer is the one that the tag gets its content from: a
cached fragment, or an answer in time of a backend that its breaker lets through.

* `Resolver.Offers` — what a source has to offer; `Resolver.Passes` — how one without is passed.
* `Resolver.Turn.offers_or_passes` — a turn takes what its source offers, or passes it.
* `Resolver.FallsBack` — the first offer is taken, with what becomes of every breaker.
* `Resolver.resolve_fallsBack` — so a tag is resolved, alone and among others.
-/

namespace EdgeInclude

variable {σ : Type}

/-! ## 1. Answers in time -/

namespace Backend

variable {g : Registry} {o : Surroundings σ} {b : Backend} {r : Reach σ} {c : Call}

end Backend

namespace Fetch

variable {f : Fetch}

end Fetch

namespace Resolver

/-! ## 2. What a source has to offer -/

/-- The time that a fetch for a tag has, when the request has no deadline. -/
def timeoutOf (v : Resolver) (tag : Include) : Duration :=
  if tag.timeout == 0 then v.timeout else tag.timeout

/-- A fragment of a source is cached, and still of use. -/
def Kept (v : Resolver) (e : Errand) (s : Source) (w : World σ) (data : Bytes) : Prop :=
  v.lifetimeOf e.seat.tag ≠ 0 ∧
    ∃ c, w.fragments = some c ∧ c.Holds (fragmentKey e s) w.now data

/-- The breaker of a source lets the request through to its backend, which answers. -/
structure Called (v : Resolver) (o : Surroundings σ) (e : Errand) (s : Source) (w : World σ)
    (backend : Backend) (answer : Answer) : Prop where
  admitted : ∃ a, (v.granted e s w).2 = some a
  known : v.registry.find (address e s) s.isUrl = .ok backend
  answers : (backend.fetch o w.reach (v.callOf e s w)).2 = answer

/-- The answer comes while the fetch has time. -/
def InTime (v : Resolver) (e : Errand) (answer : Answer) : Prop :=
  ∃ d, answer.after = some d ∧ d ≤ (v.timeoutOf e.seat.tag).ceilMillis

/-- The failure of a fetch that has no answer in time. -/
def lateness (v : Resolver) (e : Errand) (s : Source) : Failure :=
  .timeout s!"{String.ofList (address e s)} exceeded {(v.timeoutOf e.seat.tag).text}"

/-- What a source has to offer in a world, and how its turn ends when that is taken. -/
inductive Offers (v : Resolver) (o : Surroundings σ) (e : Errand) (s : Source) (w : World σ) :
    Ending → Response → Prop where
  | kept {data : Bytes} (kept : v.Kept e s w data) :
      Offers v o e s w (.served data) ⟨.empty, data⟩
  | answered {backend : Backend} {answer : Answer} {r : Response}
      (bare : ∀ data, ¬ v.Kept e s w data) (called : v.Called o e s w backend answer)
      (soon : v.InTime e answer) (result : answer.result = .ok r) :
      Offers v o e s w (.won r) (returned e.seat.tag r)

/-- How the turn of a source ends that has nothing to offer. -/
inductive Passes (v : Resolver) (o : Surroundings σ) (e : Errand) (s : Source) (w : World σ) :
    Ending → Prop where
  | refused (bare : ∀ data, ¬ v.Kept e s w data) (refusal : (v.granted e s w).2 = none) :
      Passes v o e s w .refused
  | unserved {a : Admission} {err : Failure} (bare : ∀ data, ¬ v.Kept e s w data)
      (admitted : (v.granted e s w).2 = some a)
      (unknown : v.registry.find (address e s) s.isUrl = .error err) : Passes v o e s w .unserved
  | failed {backend : Backend} {answer : Answer} {err : Failure}
      (bare : ∀ data, ¬ v.Kept e s w data) (called : v.Called o e s w backend answer)
      (soon : v.InTime e answer) (result : answer.result = .error err) :
      Passes v o e s w (.failed err)
  | silent {backend : Backend} {answer : Answer} (bare : ∀ data, ¬ v.Kept e s w data)
      (called : v.Called o e s w backend answer) (late : ¬ v.InTime e answer) :
      Passes v o e s w (.failed (v.lateness e s))

variable {v : Resolver} {o : Surroundings σ} {e : Errand} {env : World σ → World σ → Prop}
  {s : Source} {rest : List Source} {time time' n : Nat} {w w' : World σ} {ending : Ending}
  {call : Option (Backend × Call)} {stops : List (Stop σ)} {t : Stop σ} {out : Outcome}
  {data : Bytes} {r : Response} {backend backend' : Backend} {answer answer' : Answer}

theorem found?_eq_some_iff : v.found? e s w = some data ↔ v.Kept e s w data := by
  unfold found? lookup Kept
  split
  · rename_i h
    exact ⟨nofun, fun hn => absurd (beq_iff_eq.1 h) hn.1⟩
  · rename_i h
    rw [World.cached_eq_some_iff]
    exact ⟨fun hc => ⟨fun h0 => h (beq_iff_eq.2 h0), hc⟩, fun hc => hc.2⟩

theorem Called.of_fetch {b : Breaker} {a : Admission} {reach : Reach σ}
    (admitted : v.granted e s w = (b, some a))
    (known : v.registry.find (address e s) s.isUrl = .ok backend)
    (answers : backend.fetch o (v.searched e s w).reach (v.callOf e s w) = (reach, answer)) :
    v.Called o e s w backend answer := by
  rw [reach_searched] at answers
  exact ⟨⟨a, congrArg Prod.snd admitted⟩, known, congrArg Prod.snd answers⟩

theorem Called.unique (h : v.Called o e s w backend answer)
    (h' : v.Called o e s w backend' answer') : answer = answer' := by
  have hb : backend = backend' := Except.ok.inj (h.known.symm.trans h'.known)
  subst hb
  exact h.answers.symm.trans h'.answers

theorem Passes.passesOn (h : v.Passes o e s w ending) : ending.passesOn = true := by
  cases h <;> rfl

theorem Offers.passesOn (h : v.Offers o e s w ending r) : ending.passesOn = false := by
  cases h <;> rfl

/-- In a turn, nothing is called, or the backend of the source is, once. -/
theorem Turn.call_cases (h : Turn v o e env s time w ending call w' time') :
    (ending.attempts = 0 ∧ call = none) ∨ (ending.attempts = 1 ∧
      ∃ backend, v.registry.find (address e s) s.isUrl = .ok backend ∧
        call = some (backend, v.callOf e s w)) := by
  cases h with
  | fetched missed left admitted known answers wait =>
    exact .inr ⟨Fetch.attempts_ending _, _, known, rfl⟩
  | _ => exact .inl ⟨rfl, rfl⟩

theorem Turn.attempts_eq (h : Turn v o e env s time w ending call w' time') :
    ending.attempts = if call.isSome then 1 else 0 := by
  rcases h.call_cases with ⟨ha, rfl⟩ | ⟨ha, _, _, rfl⟩ <;> exact ha

/-! ## 4. The first offer -/

/-- The attempts are the calls. -/
theorem Course.attempts_eq (h : Course v o e env rest time w stops w') (tag : Include) (n : Nat) :
    (outcomeOf tag n stops).attempts = n + stops.countP (·.call.isSome) := by
  induction h generalizing n with
  | exhausted => rfl
  | decided turn decides =>
    rw [outcomeOf_decided _ _ decides, attempts_close, turn.attempts_eq, List.countP_singleton]
  | next turn passes _ ih =>
    rw [outcomeOf_next _ _ passes, ih, turn.attempts_eq, List.countP_cons, Nat.add_assoc]
    exact congrArg (n + ·) (Nat.add_comm ..)

/-- The first source with something to offer is the last one that has had its turn. -/
structure Takes (v : Resolver) (o : Surroundings σ) (e : Errand) (stops tried : List (Stop σ))
    (t : Stop σ) (r : Response) : Prop where
  last : stops = tried ++ [t]
  passed : ∀ t' ∈ tried, v.Passes o e t'.source t'.start t'.ending
  first : ∀ t' ∈ tried, ∀ ending r, ¬ v.Offers o e t'.source t'.start ending r
  offers : v.Offers o e t.source t.start t.ending r

namespace Falling

/-- A backend fails after three milliseconds. -/
def outside : Surroundings Unit where
  network _ s := (s, none, .failed ⟨true, "no network"⟩)
  program _ _ s := (s, .missing "no programs")
  custom _ _ s := (s, ⟨some 3, .error (.http "HTTP 500")⟩)
  close _ s := s
  pace := 1000000

def resolver : Resolver where
  registry := (Registry.empty.withAlias "a".toList (.custom 0 "a".toList)).withAlias "m".toList
    (.store 0)
  breakers := ⟨2, 12, 1000⟩
  timeout := .ofSeconds 1
  lifetime := 0
  maxBody := 1024

def tag : Include :=
  (Include.ofRaw ⟨Text.utf8 "include src='a' src='b' src='m' key='k'".toList, 0, 50⟩).read.1

def errand : Errand := ⟨⟨0, 0, tag⟩, .ofParts Request.get .root .empty, .never⟩

def world : World Unit :=
  (World.new () [(0, Store.ofList [("k".toList, Text.utf8 ['+'])])] 9000 none).setBreaker ⟨0, 0, 0⟩
    ⟨2, 1⟩

end Falling

end Resolver

end EdgeInclude

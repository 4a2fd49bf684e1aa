import EdgeInclude.Proofs.Resolver.AnyOrder
import EdgeInclude.Proofs.Resolver.Turns
import EdgeInclude.Proofs.Tally

/-!
# What a resolution counts

Resolving the tags of a page counts the fetches that end, those that are given up, the sources that
are refused and the fragments that stand in, each in the place of the program where it happens. All
that happens goes into a journal here, tag by tag and in one order, and the counters are held
against it.

* `Ending.count` — what a turn adds to the counters, by how it ends; `FetchCounts.untimed` — all
  counters but the time that fetches have taken.
* `Resolver.Journal` — the steps of a resolution, from one world to another.
* `Resolver.Journal.counts_eq` — the counters are what the journal adds up to.
* `Resolver.Tried`, `Resolver.Concluded` — what the journal holds of one tag, up to its outcome.
* `Resolver.Journal.anyOrder` — tags that are resolved together write such a journal, whatever the
  order in which their fetches end.
* `Resolver.Balance`, `Resolver.balance_resolveAll` — the counters of a page add up.
-/

namespace EdgeInclude

/-! ## 1. Endings on the counters -/

/-- The counters without the time that fetches have taken. -/
def FetchCounts.untimed (c : FetchCounts) : FetchCounts := { c with micros := 0 }

@[simp] theorem FetchCounts.untimed_fetch (c : FetchCounts) (ok : Bool) (d : Duration) :
    (c.fetch ok d).untimed = c.untimed.fetch ok 0 := rfl

namespace Ending

/-- What a turn adds to the counters, by how it ends, and not by how long it takes. -/
def count : Ending → FetchCounts → FetchCounts
  | served _, c => c.cacheHit
  | refused, c => c.skip
  | won _, c => c.fetch true 0
  | cancelled _, c => c.cancel
  | outOfTime _, c | failed _, c => c.fetch false 0
  | expired, c | unserved, c => c

/-- A fetch has come to its end. -/
def isFetched : Ending → Bool
  | won _ | outOfTime _ | failed _ => true
  | _ => false

/-- A fetch has come to its end without an answer. -/
def isFailed : Ending → Bool
  | outOfTime _ | failed _ => true
  | _ => false

/-- A fetch has been given up. -/
def isCancelled : Ending → Bool
  | cancelled _ => true
  | _ => false

/-- The breaker has refused the source. -/
def isRefused : Ending → Bool
  | refused => true
  | _ => false

/-- A cached fragment has stood in. -/
def isServed : Ending → Bool
  | served _ => true
  | _ => false

/-- One turn on each of the counters. -/
theorem counters_count (ending : Ending) (c : FetchCounts) :
    (ending.count c).total = c.total + (if ending.isFetched then 1 else 0) ∧
    (ending.count c).failed = c.failed + (if ending.isFailed then 1 else 0) ∧
    (ending.count c).cancelled = c.cancelled + (if ending.isCancelled then 1 else 0) ∧
    (ending.count c).skipped = c.skipped + (if ending.isRefused then 1 else 0) ∧
    (ending.count c).cacheHits = c.cacheHits + (if ending.isServed then 1 else 0) ∧
    (ending.count c).fallbacks = c.fallbacks := by
  cases ending <;> simp [count, isFetched, isFailed, isCancelled, isRefused, isServed,
    FetchCounts.fetch, FetchCounts.cancel, FetchCounts.skip, FetchCounts.cacheHit]

end Ending

namespace Resolver

variable {σ : Type} {v : Resolver} {o : Surroundings σ} {es : List Errand} {e : Errand}
  {s : Source} {rest tried : List Source} {f : Fetch} {ending : Ending} {time time' i n : Nat}
  {w w' w₀ u : World σ} {out : Outcome}

/-! ## 2. Journals -/

/-- What happens in a resolution to the tag in a place. -/
inductive Entry where
  /-- A source has had its turn without a fetch. -/
  | passed (place : Nat) (s : Source) (ending : Ending)
  /-- A fetch has begun. -/
  | begun (place : Nat) (f : Fetch)
  /-- It has ended. -/
  | ended (place : Nat) (f : Fetch)

namespace Entry

def place : Entry → Nat
  | passed i _ _ | begun i _ | ended i _ => i

/-- How a turn ends with it, if one does. -/
def ending? : Entry → Option Ending
  | passed _ _ ending => some ending
  | begun _ _ => none
  | ended _ f => some f.ending

/-- Whether a turn ends with it in some way. -/
def ends (p : Ending → Bool) (x : Entry) : Bool := (x.ending?.map p).getD false

/-- Whether a fetch begins with it. -/
def isBegun : Entry → Bool
  | begun _ _ => true
  | _ => false

end Entry

/-- The entries of the tag in a place. -/
def entriesOf (i : Nat) (log : List Entry) : List Entry := log.filter (·.place == i)

/-- The steps of a resolution of tags, from one world to another: sources are asked, and fetches
that have begun come to an end, once each. Nothing happens in between. -/
inductive Journal (v : Resolver) (o : Surroundings σ) (es : List Errand) (w₀ : World σ) :
    List Entry → World σ → Prop where
  | opens : Journal v o es w₀ [] w₀
  | passes {log : List Entry} {w w' : World σ} {i time : Nat} {e : Errand} {s : Source}
      {ending : Ending} (before : Journal v o es w₀ log w) (tag : es[i]? = some e)
      (turn : Turn v o e Eq s time w ending none w' time) :
      Journal v o es w₀ (log ++ [.passed i s ending]) w'
  | begins {log : List Entry} {w w' : World σ} {i time : Nat} {e : Errand} {s : Source} {f : Fetch}
      (before : Journal v o es w₀ log w) (tag : es[i]? = some e)
      (asked : v.ask o e s time w = (w', .fetching f)) :
      Journal v o es w₀ (log ++ [.begun i f]) w'
  | ends {log : List Entry} {w : World σ} {i : Nat} {e : Errand} {f : Fetch}
      (before : Journal v o es w₀ log w) (tag : es[i]? = some e)
      (underWay : (entriesOf i log).getLast? = some (.begun i f)) :
      Journal v o es w₀ (log ++ [.ended i f]) (v.settle e f w).1

/-! ## 3. The counters of a journal -/

@[simp] theorem counts_searched (v : Resolver) (e : Errand) (s : Source) (w : World σ) :
    (v.searched e s w).counts = w.counts := by
  unfold searched lookup World.cached
  split
  · rfl
  · split <;> rfl

theorem counts_store (v : Resolver) (tag : Include) (key : Text) (data : Bytes) (w : World σ) :
    (v.store tag key data w).counts = w.counts := by
  unfold store World.keep
  split
  · rfl
  · split <;> rfl

/-- A turn without a fetch counts how it ends. -/
theorem Turn.counts_eq (h : Turn v o e Eq s time w ending none w' time') :
    w'.counts.untimed = ending.count w.counts.untimed := by
  have hsearched := congrArg FetchCounts.untimed (counts_searched v e s w)
  cases h with
  | served found => exact congrArg FetchCounts.cacheHit hsearched
  | expired missed spent => exact hsearched
  | refused missed left refusal => exact congrArg FetchCounts.skip hsearched
  | unserved missed left admitted unknown => exact hsearched

/-- That a fetch of a source begins counts nothing. -/
theorem counts_of_fetching (h : v.ask o e s time w = (w', .fetching f)) :
    w'.counts = w.counts ∧ f.source = s := by
  rw [ask_eq] at h
  split at h
  · cases h
  split at h
  · cases h
  split at h
  · cases h
  rw [launch_eq] at h
  split at h
  · cases h
  · cases h
    exact ⟨counts_searched .., rfl⟩

/-- The end of a fetch counts how it ends. -/
theorem counts_settle (v : Resolver) (e : Errand) (f : Fetch) (u : World σ) :
    (v.settle e f u).1.counts.untimed = f.ending.count u.counts.untimed := by
  rw [fst_settle]
  rcases f.ending_cases with ⟨r, -, he⟩ | ⟨err, -, ⟨-, he⟩ | ⟨-, -, he⟩ | ⟨-, -, he⟩⟩ <;> rw [he]
  · exact congrArg FetchCounts.untimed (counts_store ..)
  · rfl
  · rfl
  · rfl

/-- **The counters are what the journal adds up to.** -/
theorem Journal.counts_eq {log : List Entry} (h : Journal v o es w₀ log w) :
    w.counts.untimed =
      (log.filterMap Entry.ending?).foldl (fun c ending => ending.count c) w₀.counts.untimed := by
  induction h with
  | opens => rfl
  | passes before tag turn ih =>
    rw [List.filterMap_append, List.foldl_append, ← ih]
    exact turn.counts_eq
  | begins before tag asked ih =>
    rw [List.filterMap_append, List.foldl_append, ← ih]
    exact congrArg FetchCounts.untimed (counts_of_fetching asked).1
  | ends before tag underWay ih =>
    rw [List.filterMap_append, List.foldl_append, ← ih]
    exact counts_settle ..

/-- **A counter goes up with the turns of a kind**, as many as the journal has. -/
theorem Journal.counter_eq {log : List Entry} (h : Journal v o es w₀ log w)
    (counter : FetchCounts → UInt64) (p : Ending → Bool)
    (ht : ∀ c : FetchCounts, counter c.untimed = counter c)
    (hp : ∀ ending c, counter (Ending.count ending c) = counter c + if p ending then 1 else 0) :
    counter w.counts = counter w₀.counts + .ofNat (log.countP (Entry.ends p)) := by
  have hfold := Tally.counter_foldl Ending.count counter p hp (log.filterMap Entry.ending?)
    w₀.counts.untimed
  rw [← h.counts_eq, ht, ht, List.countP_filterMap] at hfold
  exact hfold

/-! ## 4. The journal of a tag -/

/-- The entries of a tag whose sources have all passed on, with the number of its attempts. -/
inductive Tried (i : Nat) : List Source → List Entry → (attempts : Nat) → Prop where
  | untried : Tried i [] [] 0
  | passed {tried : List Source} {own : List Entry} {n : Nat} {s : Source} {ending : Ending}
      (before : Tried i tried own n) (idle : ending.attempts = 0)
      (passes : ending.passesOn = true) :
      Tried i (tried ++ [s]) (own ++ [.passed i s ending]) n
  | fetched {tried : List Source} {own : List Entry} {n : Nat} {f : Fetch}
      (before : Tried i tried own n) (passes : f.ending.passesOn = true) :
      Tried i (tried ++ [f.source]) (own ++ [.begun i f, .ended i f]) (n + 1)

/-- The entries of a tag that has an outcome: its sources have had their turns, in their order and
once each, up to one that has decided, if there is one. -/
inductive Concluded (i : Nat) (e : Errand) : List Entry → Outcome → Prop where
  | refused {err : Failure} (refusal : refusal? e = some err) : Concluded i e [] ⟨0, .error err⟩
  | exhausted {own : List Entry} {n : Nat} (all : Tried i e.seat.tag.sources own n) :
      Concluded i e own (giveUp e.seat.tag n)
  | passed {tried : List Source} {own : List Entry} {n : Nat} {s : Source} {ending : Ending}
      (before : Tried i tried own n) (next : tried ++ [s] <+: e.seat.tag.sources)
      (idle : ending.attempts = 0) (decides : ending.passesOn = false) :
      Concluded i e (own ++ [.passed i s ending]) (ending.close e.seat.tag n)
  | fetched {tried : List Source} {own : List Entry} {n : Nat} {f : Fetch}
      (before : Tried i tried own n) (next : tried ++ [f.source] <+: e.seat.tag.sources)
      (decides : f.ending.passesOn = false) :
      Concluded i e (own ++ [.begun i f, .ended i f]) (f.ending.close e.seat.tag (n + 1))

/-- How far a tag has come, by its entries. -/
def Reaches (i : Nat) (e : Errand) (own : List Entry) : Progress → Prop
  | .omitted => Visit.isWanted e = false ∧ own = []
  | .done out => Visit.isWanted e = true ∧ Concluded i e own out
  | .fetching f n rest => Visit.isWanted e = true ∧
      ∃ tried before k, n = k + 1 ∧ own = before ++ [.begun i f] ∧ Tried i tried before k ∧
        e.seat.tag.sources = tried ++ f.source :: rest

/-! ## 5. Tags go on -/

variable {log new own before : List Entry} {settled : Settled}

theorem entriesOf_append (i : Nat) (log new : List Entry) :
    entriesOf i (log ++ new) = entriesOf i log ++ entriesOf i new := List.filter_append ..

theorem entriesOf_self (h : ∀ x ∈ new, x.place = i) : entriesOf i new = new :=
  List.filter_eq_self.2 fun x hx => beq_iff_eq.2 (h x hx)

theorem entriesOf_other {j : Nat} (h : ∀ x ∈ new, x.place = i) (hj : j ≠ i) :
    entriesOf j new = [] :=
  List.filter_eq_nil_iff.2 fun x hx heq => hj ((beq_iff_eq.1 heq).symm.trans (h x hx))

/-- The next source of a tag is one of its sources. -/
theorem prefix_of_eq (hs : e.seat.tag.sources = tried ++ s :: rest) :
    tried ++ [s] <+: e.seat.tag.sources := ⟨rest, by rw [hs, List.append_assoc]; rfl⟩

/-- What comes of a tag when a fetch has ended, which was attempt `n`. -/
def Comes (i : Nat) (e : Errand) (tried : List Source) (own : List Entry) (n : Nat) :
    Settled → Prop
  | .won r => Concluded i e own ⟨n, .ok r⟩
  | .gone err => Concluded i e own ⟨n, .error err⟩
  | .late => Concluded i e own (giveUp e.seat.tag n)
  | .next => Tried i tried own n

/-- **The end of a fetch** is the next entry of its tag; it decides, or the tag goes on. -/
theorem Journal.settles (h : Journal v o es w₀ log w) (tag : es[i]? = some e)
    (own : entriesOf i log = before ++ [.begun i f]) (tries : Tried i tried before n)
    (hs : e.seat.tag.sources = tried ++ f.source :: rest) :
    Journal v o es w₀ (log ++ [.ended i f]) (v.settle e f w).1 ∧
      Comes i e (tried ++ [f.source]) (entriesOf i log ++ [.ended i f]) (n + 1)
        (v.settle e f w).2 := by
  have hlast : (entriesOf i log).getLast? = some (.begun i f) := by rw [own, List.getLast?_concat]
  refine ⟨h.ends tag hlast, ?_⟩
  have hcat : entriesOf i log ++ [.ended i f] = before ++ [.begun i f, .ended i f] := by
    rw [own, List.append_assoc]
    rfl
  have hclose : f.ending.passesOn = false → Concluded i e (before ++ [.begun i f, .ended i f])
      (f.ending.close e.seat.tag (n + 1)) := .fetched tries (prefix_of_eq hs)
  rw [hcat, snd_settle]
  rcases f.ending_cases with ⟨r, -, he⟩ | ⟨err, -, ⟨-, he⟩ | ⟨-, -, he⟩ | ⟨-, -, he⟩⟩
  · rw [he] at hclose ⊢
    exact hclose rfl
  · rw [he] at hclose ⊢
    exact hclose rfl
  · rw [he] at hclose ⊢
    exact hclose rfl
  · rw [he]
    exact .fetched tries (by rw [he]; rfl)

/-- What a tag has on the journal when it has gone on. -/
def GoesOn (v : Resolver) (o : Surroundings σ) (es : List Errand) (w₀ : World σ) (log : List Entry)
    (i : Nat) (e : Errand) (r : World σ × Progress) : Prop :=
  ∃ new, (∀ x ∈ new, x.place = i) ∧ Journal v o es w₀ (log ++ new) r.1 ∧
    Reaches i e (entriesOf i log ++ new) r.2

theorem forall_place_singleton {x : Entry} (hx : x.place = i) : ∀ y ∈ [x], y.place = i :=
  fun _ hy => List.mem_singleton.1 hy ▸ hx

/-- A tag goes on by one entry of its own. -/
theorem entriesOf_concat (x : Entry) (hx : x.place = i) :
    entriesOf i (log ++ [x]) = entriesOf i log ++ [x] := by
  rw [entriesOf_append, entriesOf_self (forall_place_singleton hx)]

theorem GoesOn.of_concat {r : World σ × Progress} (x : Entry) (hx : x.place = i)
    (h : GoesOn v o es w₀ (log ++ [x]) i e r) : GoesOn v o es w₀ log i e r := by
  obtain ⟨new, hnew, hj, hs⟩ := h
  refine ⟨x :: new, List.forall_mem_cons.2 ⟨hx, hnew⟩, ?_, ?_⟩
  · rwa [List.append_cons]
  · rwa [List.append_cons, ← entriesOf_concat x hx]

theorem GoesOn.concluded {x : Entry} (hx : x.place = i)
    (h : Journal v o es w₀ (log ++ [x]) w) (wanted : Visit.isWanted e = true)
    (hc : Concluded i e (entriesOf i log ++ [x]) out) :
    GoesOn v o es w₀ log i e (w, .done out) :=
  ⟨[x], forall_place_singleton hx, h, wanted, hc⟩

/-- **The sources that are left are tried on the journal.** -/
theorem Journal.advance (h : Journal v o es w₀ log w) (tag : es[i]? = some e)
    (wanted : Visit.isWanted e = true) (tries : Tried i tried (entriesOf i log) n)
    (hs : e.seat.tag.sources = tried ++ rest) :
    GoesOn v o es w₀ log i e (Visit.advance v o e rest time n w) := by
  induction rest generalizing log w tried n time with
  | nil =>
    rw [List.append_nil] at hs
    refine ⟨[], List.forall_mem_nil _, ?_, wanted, ?_⟩
    · rwa [List.append_nil]
    · rw [List.append_nil]
      exact .exhausted (hs ▸ tries)
  | cons s rest ih =>
    have hmore : e.seat.tag.sources = (tried ++ [s]) ++ rest := by rw [hs, List.append_cons]
    unfold Visit.advance
    cases ha : v.ask o e s time w with
    | mk w₁ a =>
      have hturn := turn_of_ask Eq ha
      cases a with
      | served content =>
        exact .concluded rfl (h.passes tag hturn) wanted (.passed tries (prefix_of_eq hs) rfl rfl)
      | late =>
        exact .concluded rfl (h.passes tag hturn) wanted (.passed tries (prefix_of_eq hs) rfl rfl)
      | passedOver =>
        obtain ⟨ending, hp, hidle, hturn⟩ := hturn
        have hown : entriesOf i (log ++ [.passed i s ending]) = _ := entriesOf_concat _ rfl
        refine .of_concat (.passed i s ending) rfl (ih (h.passes tag hturn) ?_ hmore)
        rw [hown]
        exact .passed tries hidle hp
      | fetching f =>
        have hbegun := h.begins tag ha
        have hown : entriesOf i (log ++ [.begun i f]) = _ := entriesOf_concat _ rfl
        obtain rfl := (counts_of_fetching ha).2
        refine .of_concat (.begun i f) rfl ?_
        dsimp only
        split
        · refine ⟨[], List.forall_mem_nil _, ?_, wanted, tried, entriesOf i log, n, rfl, ?_,
            tries, hs⟩
          · rwa [List.append_nil]
          · rw [List.append_nil, hown]
        · obtain ⟨hended, hcomes⟩ := hbegun.settles tag hown tries hs
          cases hset : v.settle e f w₁ with
          | mk u settled =>
            rw [hset] at hended hcomes
            cases settled with
            | won r => exact .concluded rfl hended wanted hcomes
            | gone err => exact .concluded rfl hended wanted hcomes
            | late => exact .concluded rfl hended wanted hcomes
            | next =>
              have hmine : entriesOf i (log ++ [.begun i f] ++ [.ended i f]) = _ :=
                entriesOf_concat _ rfl
              refine .of_concat (.ended i f) rfl (ih hended ?_ hmore)
              rw [hmine]
              exact hcomes

/-- A tag begins on the journal. -/
theorem Journal.start (h : Journal v o es w₀ log w) (tag : es[i]? = some e)
    (hown : entriesOf i log = []) : GoesOn v o es w₀ log i e (Visit.start v o e w) := by
  have hstay : Journal v o es w₀ (log ++ []) w := by rwa [List.append_nil]
  unfold Visit.start
  split
  · rename_i hunwanted
    refine ⟨[], List.forall_mem_nil _, hstay, by simpa using hunwanted, ?_⟩
    rw [hown]
    rfl
  · rename_i hwanted
    have hwanted : Visit.isWanted e = true := by simpa using hwanted
    split
    · rename_i err href
      refine ⟨[], List.forall_mem_nil _, hstay, hwanted, ?_⟩
      rw [hown]
      exact .refused href
    · exact h.advance tag hwanted (by rw [hown]; exact .untried) rfl

/-- A tag whose fetch ends goes on. -/
theorem Journal.resume {p : Progress} (h : Journal v o es w₀ log w) (tag : es[i]? = some e)
    (stands : Reaches i e (entriesOf i log) p) :
    GoesOn v o es w₀ log i e (Visit.resume v o e w p) := by
  have hstay : GoesOn v o es w₀ log i e (w, p) :=
    ⟨[], List.forall_mem_nil _, by rwa [List.append_nil], by rwa [List.append_nil]⟩
  cases p with
  | omitted => exact hstay
  | done out => exact hstay
  | fetching f n rest =>
    obtain ⟨wanted, tried, before, k, rfl, hown, tries, hs⟩ := stands
    obtain ⟨hended, hcomes⟩ := h.settles tag hown tries hs
    unfold Visit.resume
    dsimp only
    cases hset : v.settle e f w with
    | mk u settled =>
      rw [hset] at hended hcomes
      cases settled with
      | won r => exact .concluded rfl hended wanted hcomes
      | gone err => exact .concluded rfl hended wanted hcomes
      | late => exact .concluded rfl hended wanted hcomes
      | next =>
        have hmine : entriesOf i (log ++ [.ended i f]) = _ := entriesOf_concat _ rfl
        refine .of_concat (.ended i f) rfl
          (hended.advance tag wanted ?_ (hs.trans (List.append_cons ..)))
        rw [hmine]
        exact hcomes

/-- **Tags that are resolved together write a journal**, whatever the order of their fetches. -/
theorem Journal.anyOrder {c : Scene σ} (h : Agenda.AnyOrder v o es w₀ c) :
    ∃ log, Journal v o es w₀ log c.world ∧ (∀ x ∈ log, x.place < c.visits.length) ∧
      ∀ i visit, c.visits[i]? = some visit →
        Reaches i visit.errand (entriesOf i log) visit.progress := by
  induction h with
  | start =>
    refine ⟨[], .opens, List.forall_mem_nil _, fun i visit hi => ?_⟩
    rw [List.getElem?_nil] at hi
    cases hi
  | @begins w a e before next ih =>
    obtain ⟨log, hj, hplace, hall⟩ := ih
    have hfresh : entriesOf a.length log = [] :=
      List.filter_eq_nil_iff.2 fun x hx heq => Nat.ne_of_lt (hplace x hx) (beq_iff_eq.1 heq)
    obtain ⟨new, hnew, hj', hs⟩ := hj.start next hfresh
    refine ⟨log ++ new, hj', ?_, fun i visit hi => ?_⟩
    · intro x hx
      rw [List.length_append, List.length_singleton]
      rcases List.mem_append.1 hx with hx | hx
      · exact Nat.lt_succ_of_lt (hplace x hx)
      · rw [hnew x hx]
        exact Nat.lt_succ_self _
    · rcases get_concat_cases hi with ⟨hlt, hi⟩ | ⟨rfl, rfl⟩
      · rw [entriesOf_append, entriesOf_other hnew (Nat.ne_of_lt hlt), List.append_nil]
        exact hall i visit hi
      · rw [entriesOf_append, entriesOf_self hnew]
        exact hs
  | @goesOn w a j t visit before at_j underWay ih =>
    obtain ⟨log, hj, hplace, hall⟩ := ih
    obtain ⟨new, hnew, hj', hs⟩ := hj.resume (before.errand_at at_j).1 (hall j visit at_j)
    refine ⟨log ++ new, hj', ?_, fun i other hi => ?_⟩
    · intro x hx
      rw [List.length_set]
      rcases List.mem_append.1 hx with hx | hx
      · exact hplace x hx
      · rw [hnew x hx]
        exact (List.getElem?_eq_some_iff.1 at_j).1
    · rcases Agenda.get_set_cases hi with ⟨rfl, rfl⟩ | ⟨hne, hi⟩
      · rw [entriesOf_append, entriesOf_self hnew]
        exact hs
      · rw [entriesOf_append, entriesOf_other hnew hne, List.append_nil]
        exact hall i other hi

/-! ## 6. The balance -/

/-- A fetch that has begun comes to its end or is given up, and nothing stands in for it. -/
theorem Entry.countP_fetch (i : Nat) (f : Fetch) :
    [Entry.begun i f, .ended i f].countP (Entry.ends Ending.isFetched) +
      [Entry.begun i f, .ended i f].countP (Entry.ends Ending.isCancelled) = 1 ∧
    [Entry.begun i f, .ended i f].countP (Entry.ends Ending.isServed) = 0 := by
  rcases f.ending_cases with ⟨r, -, he⟩ | ⟨err, -, ⟨-, he⟩ | ⟨-, -, he⟩ | ⟨-, -, he⟩⟩ <;>
    simp [Entry.ends, Entry.ending?, he, Ending.isFetched, Ending.isCancelled, Ending.isServed]

/-- A tag whose sources have passed on has fetched as often as it has tried to; nothing has been
given up, and nothing has stood in. -/
theorem Tried.countP_eq (h : Tried i tried own n) :
    own.countP Entry.isBegun = n ∧ own.countP (Entry.ends Ending.isFetched) = n ∧
      own.countP (Entry.ends Ending.isCancelled) = 0 ∧
      own.countP (Entry.ends Ending.isServed) = 0 := by
  induction h with
  | untried => exact ⟨rfl, rfl, rfl, rfl⟩
  | @passed tried own n s ending before idle passes ih =>
    obtain ⟨hb, hf, hc, hs⟩ := ih
    simp only [List.countP_append, hb, hf, hc, hs]
    cases ending with
    | refused => exact ⟨rfl, rfl, rfl, rfl⟩
    | unserved => exact ⟨rfl, rfl, rfl, rfl⟩
    | failed err => cases idle
    | _ => cases passes
  | @fetched tried own n f before passes ih =>
    obtain ⟨hb, hf, hc, hs⟩ := ih
    simp only [List.countP_append, hb, hf, hc, hs]
    rcases f.ending_cases with ⟨r, -, he⟩ | ⟨err, -, ⟨-, he⟩ | ⟨-, -, he⟩ | ⟨-, -, he⟩⟩
    · rw [he] at passes
      cases passes
    · rw [he] at passes
      cases passes
    · rw [he] at passes
      cases passes
    · simp [List.countP_cons, Entry.isBegun, Entry.ends, Entry.ending?, he, Ending.isFetched,
        Ending.isCancelled, Ending.isServed]

/-- Nothing has stood in for a tag whose sources have passed on. -/
theorem Tried.not_served {content : Bytes} (h : Tried i tried own n) :
    .passed i s (.served content) ∉ own := by
  intro hmem
  have hpos : 0 < own.countP (Entry.ends Ending.isServed) :=
    List.countP_pos_iff.2 ⟨_, hmem, rfl⟩
  rw [h.countP_eq.2.2.2] at hpos
  cases hpos

/-- A tag with an outcome: its attempts are the fetches that have begun, and each of these has come
to an end or has been given up. A fragment has stood in at most once, and is the outcome then. -/
theorem Concluded.countP_eq (h : Concluded i e own out) :
    own.countP Entry.isBegun = out.attempts ∧
      own.countP (Entry.ends Ending.isFetched) + own.countP (Entry.ends Ending.isCancelled) =
        out.attempts ∧
      own.countP (Entry.ends Ending.isServed) ≤ 1 ∧
      ∀ s content, .passed i s (.served content) ∈ own → out.result = .ok ⟨.empty, content⟩ := by
  cases h with
  | refused refusal => exact ⟨rfl, rfl, Nat.zero_le 1, nofun⟩
  | exhausted all =>
    obtain ⟨hb, hf, hc, hs⟩ := all.countP_eq
    refine ⟨hb, ?_, ?_, fun s content hmem => absurd hmem all.not_served⟩
    · rw [hf, hc]
      rfl
    · rw [hs]
      exact Nat.zero_le 1
  | @passed tried own n s ending before next idle decides =>
    obtain ⟨hb, hf, hc, hs⟩ := before.countP_eq
    simp only [List.countP_append, hb, hf, hc, hs, attempts_close]
    have hlast : ∀ s' content, .passed i s' (.served content) ∈ own ++ [.passed i s ending] →
        ending = .served content := by
      intro s' content hmem
      rcases List.mem_append.1 hmem with hmem | hmem
      · exact absurd hmem before.not_served
      · cases List.mem_singleton.1 hmem
        rfl
    cases ending with
    | served content =>
      refine ⟨rfl, rfl, Nat.le_refl 1, fun s' content' hmem => ?_⟩
      cases hlast s' content' hmem
      rfl
    | expired =>
      refine ⟨rfl, rfl, Nat.zero_le 1, fun s' content' hmem => ?_⟩
      cases hlast s' content' hmem
    | won r => cases idle
    | cancelled err => cases idle
    | outOfTime err => cases idle
    | _ => cases decides
  | @fetched tried own n f before next decides =>
    obtain ⟨hb, hf, hc, hs⟩ := before.countP_eq
    have hnone : ∀ s' content, .passed i s' (.served content) ∉
        own ++ [.begun i f, .ended i f] := by
      intro s' content hmem
      rcases List.mem_append.1 hmem with hmem | hmem
      · exact before.not_served hmem
      · simp at hmem
    obtain ⟨hone, hzero⟩ := Entry.countP_fetch i f
    refine ⟨?_, ?_, ?_, fun s' content hmem => absurd hmem (hnone s' content)⟩
    · rw [List.countP_append, hb, attempts_close]
      rfl
    · rw [List.countP_append, List.countP_append, hf, hc, attempts_close]
      omega
    · rw [List.countP_append, hs, hzero]
      exact Nat.zero_le 1

/-- Counting the fallback texts changes one counter. -/
theorem counts_countFallbacks (vs : List Visit) (w : World σ) : (countFallbacks vs w).counts =
    { w.counts with fallbacks := w.counts.fallbacks + .ofNat (vs.countP fellBack) } := by
  have hfold : ∀ (l : List Visit) (c : FetchCounts), l.foldl (fun c _ => c.fallback) c =
      { c with fallbacks := c.fallbacks + .ofNat l.length } := by
    intro l
    induction l with
    | nil => intro c; simp
    | cons visit l ih =>
      intro c
      rw [List.foldl_cons, ih, List.length_cons, UInt64.ofNat_add]
      simp [FetchCounts.fallback, UInt64.add_assoc, UInt64.add_comm]
  rw [List.countP_eq_length_filter]
  exact hfold _ _

/-- What the entries of a tag are when no fetch is under way. -/
def Accounted (i : Nat) (own : List Entry) (visit : Visit) : Prop :=
  (visit.progress = .omitted ∧ Visit.isWanted visit.errand = false ∧ own = []) ∨
  ∃ out, visit.progress = .done out ∧ Visit.isWanted visit.errand = true ∧
    Concluded i visit.errand own out

theorem Reaches.accounted {visit : Visit} (h : Reaches i visit.errand own visit.progress)
    (he : visit.ends? = none) : Accounted i own visit := by
  unfold Visit.ends? at he
  cases hp : visit.progress with
  | omitted =>
    rw [hp] at h
    exact .inl ⟨hp, h⟩
  | done out =>
    rw [hp] at h
    exact .inr ⟨out, hp, h⟩
  | fetching f n rest =>
    rw [hp] at he
    cases he

theorem Accounted.countP_eq {visit : Visit} (h : Accounted i own visit) :
    own.countP Entry.isBegun = visit.attempts ∧
      own.countP (Entry.ends Ending.isFetched) + own.countP (Entry.ends Ending.isCancelled) =
        visit.attempts ∧
      own.countP (Entry.ends Ending.isServed) ≤ 1 ∧
      ∀ s content, .passed i s (.served content) ∈ own →
        outcome visit = .ok ⟨.empty, content⟩ := by
  unfold Visit.attempts outcome
  rcases h with ⟨hp, -, rfl⟩ | ⟨out, hp, -, hout⟩
  · rw [hp]
    exact ⟨rfl, rfl, Nat.zero_le 1, nofun⟩
  · rw [hp]
    exact hout.countP_eq

/-- A tag falls back exactly if it is wanted and has failed, unless the request has been given up.
-/
theorem Accounted.fellBack_eq {visit : Visit} (h : Accounted i own visit)
    (hs : ∃ r, standIn visit = .ok r) :
    fellBack visit = (Visit.isWanted visit.errand && !(outcome visit).isOk) := by
  obtain ⟨r, hs⟩ := hs
  unfold standIn at hs
  unfold fellBack
  rcases h with ⟨hp, hwanted, -⟩ | ⟨out, hp, hwanted, -⟩
  · rw [hwanted, outcome, hp]
    rfl
  · rw [hwanted]
    cases ho : outcome visit with
    | ok r => rfl
    | error err =>
      rw [ho] at hs
      cases hc : err.isCancelled with
      | false => simp [hc, Except.isOk, Except.toBool]
      | true =>
        dsimp only at hs
        rw [if_pos hc] at hs
        cases hs

/-- How a resolution of tags is counted: what `log` has of it, the visits that it ends with, and the
worlds before and behind it. -/
structure Balance (v : Resolver) (o : Surroundings σ) (es : List Errand) (w : World σ)
    (log : List Entry) (vs : List Visit) (u : World σ) : Prop where
  /-- The journal is one of the whole resolution, up to the counting of fallback texts. -/
  journal : ∃ u₀, Journal v o es w log u₀ ∧ u = countFallbacks vs u₀
  /-- Each tag has its entries in it, from its condition up to its outcome. -/
  tags : ∀ i visit, vs[i]? = some visit → Accounted i (entriesOf i log) visit
  /-- Attempts are fetches that begin. -/
  begun : log.countP Entry.isBegun = (vs.map Visit.attempts).sum
  /-- Each of them comes to an end or is given up. -/
  ended : log.countP (Entry.ends Ending.isFetched) + log.countP (Entry.ends Ending.isCancelled) =
    (vs.map Visit.attempts).sum
  total : u.counts.total = w.counts.total + .ofNat (log.countP (Entry.ends Ending.isFetched))
  cancelled : u.counts.cancelled =
    w.counts.cancelled + .ofNat (log.countP (Entry.ends Ending.isCancelled))
  failed : u.counts.failed = w.counts.failed + .ofNat (log.countP (Entry.ends Ending.isFailed))
  skipped : u.counts.skipped = w.counts.skipped + .ofNat (log.countP (Entry.ends Ending.isRefused))
  /-- Hits of the cache are tags that a cached fragment has stood in for. -/
  cacheHits : u.counts.cacheHits = w.counts.cacheHits + .ofNat
    ((List.range vs.length).countP fun i => (entriesOf i log).any (Entry.ends Ending.isServed))
  /-- A fragment that has stood in for a tag is its outcome. -/
  served : ∀ i visit s content, vs[i]? = some visit → .passed i s (.served content) ∈ log →
    outcome visit = .ok ⟨.empty, content⟩
  fallbacks : u.counts.fallbacks = w.counts.fallbacks + .ofNat (vs.countP fellBack)

/-- The attempts are what two of the counters have gone up by. -/
theorem Balance.attempts_eq {vs : List Visit} (h : Balance v o es w log vs u) :
    (u.counts.total - w.counts.total) + (u.counts.cancelled - w.counts.cancelled) =
      .ofNat (vs.map Visit.attempts).sum := by
  rw [h.total, h.cancelled, ← h.ended, UInt64.ofNat_add, UInt64.add_comm w.counts.total,
    UInt64.add_comm w.counts.cancelled, UInt64.add_sub_cancel, UInt64.add_sub_cancel]

/-- **The counters of tags that are resolved together add up**, whatever the order in which their
fetches end. -/
theorem balance_of_complete {c : Scene σ} (h : Agenda.AnyOrder v o es w c) (hc : c.IsComplete es) :
    ∃ log, Balance v o es w log c.visits (countFallbacks c.visits c.world) := by
  obtain ⟨log, hj, hplace, hall⟩ := Journal.anyOrder h
  have htags : ∀ i visit, c.visits[i]? = some visit → Accounted i (entriesOf i log) visit :=
    fun i visit hi => (hall i visit hi).accounted (hc.ended visit (List.mem_of_getElem? hi))
  have hbegun := Tally.sum_map_eq c.visits Visit.attempts _ fun i visit hi =>
    (htags i visit hi).countP_eq.1.symm
  have hended := Tally.sum_map_eq c.visits Visit.attempts _ fun i visit hi =>
    (htags i visit hi).countP_eq.2.1.symm
  have hsum : ∀ q : Entry → Bool, log.countP q =
      ∑ i ∈ Finset.range c.visits.length, (entriesOf i log).countP q :=
    fun q => Tally.countP_eq_sum Entry.place q _ hplace
  have hserved : log.countP (Entry.ends Ending.isServed) = (List.range c.visits.length).countP
      fun i => (entriesOf i log).any (Entry.ends Ending.isServed) := by
    rw [Tally.countP_range, hsum]
    refine Finset.sum_congr rfl fun i hi => ?_
    have hlt := Finset.mem_range.1 hi
    have hone := (htags i _ (List.getElem?_eq_getElem hlt)).countP_eq.2.2.1
    split
    · rename_i hany
      have hpos := List.countP_pos_iff.2 (List.any_eq_true.1 hany)
      omega
    · rename_i hnone
      exact List.countP_eq_zero.2 fun x hx hp => hnone (List.any_eq_true.2 ⟨x, hx, hp⟩)
  have hcounts := counts_countFallbacks c.visits c.world
  refine ⟨log, ⟨c.world, hj, rfl⟩, htags, ?_, ?_, ?_, ?_, ?_, ?_, ?_, ?_, ?_⟩
  · rw [hsum, hbegun]
  · rw [hsum, hsum, ← Finset.sum_add_distrib, hended]
  · rw [hcounts]
    exact hj.counter_eq (·.total) _ (fun _ => rfl) fun ending c =>
      (ending.counters_count c).1
  · rw [hcounts]
    exact hj.counter_eq (·.cancelled) _ (fun _ => rfl) fun ending c =>
      (ending.counters_count c).2.2.1
  · rw [hcounts]
    exact hj.counter_eq (·.failed) _ (fun _ => rfl) fun ending c =>
      (ending.counters_count c).2.1
  · rw [hcounts]
    exact hj.counter_eq (·.skipped) _ (fun _ => rfl) fun ending c =>
      (ending.counters_count c).2.2.2.1
  · rw [hcounts, ← hserved]
    exact hj.counter_eq (·.cacheHits) _ (fun _ => rfl) fun ending c =>
      (ending.counters_count c).2.2.2.2.1
  · intro i visit s content hi hmem
    refine (htags i visit hi).countP_eq.2.2.2 s content ?_
    exact List.mem_filter.2 ⟨hmem, beq_self_eq_true i⟩
  · have hkept := hj.counter_eq (·.fallbacks) (fun _ => false) (fun _ => rfl) fun ending c =>
      (ending.counters_count c).2.2.2.2.2.trans (by simp)
    have hnone : log.countP (Entry.ends fun _ => false) = 0 :=
      List.countP_eq_zero.2 fun x _ => by cases x <;> exact Bool.false_ne_true
    rw [hnone] at hkept
    rw [hcounts]
    simp [hkept]

/-- **The counters of a page add up.** Whatever the tags, the backends, the breakers and the cache
are, and whenever the request is given up: there is a journal of the resolution that the counters
agree with. The attempts of all tags are the fetches that have come to an end and those that have
been given up, and are what these two counters have gone up by; fetches without an answer, refused
sources and cached fragments are counted as they happen; and the page has as many tags that have
fallen back as are wanted and have failed, which is what is counted. -/
theorem balance_resolveAll (v : Resolver) (o : Surroundings σ) (page : Nat) (tags : Page)
    (r : Request) (d : Departure) (w : World σ) :
    ∃ log vs u, vs = (v.visitAll o (errands page tags r d) w).2 ∧
      u = (v.resolveAll o page tags r d w).1 ∧ vs.map (·.errand) = errands page tags r d ∧
      Balance v o (errands page tags r d) w log vs u ∧
      (u.counts.total - w.counts.total) + (u.counts.cancelled - w.counts.cancelled) =
        .ofNat (vs.map Visit.attempts).sum ∧
      ∀ res, (v.resolveAll o page tags r d w).2 = .ok res →
        u.counts.fallbacks = w.counts.fallbacks + .ofNat res.fallbacks ∧
        res.fallbacks =
          vs.countP fun visit => Visit.isWanted visit.errand && !(outcome visit).isOk := by
  obtain ⟨c, hany, hcomplete, hvisit⟩ := exists_anyOrder v o (errands page tags r d) w
  obtain ⟨log, hbalance⟩ := balance_of_complete hany hcomplete
  have herrands := errands_visitAll (v := v) (o := o) (errands page tags r d) w
  unfold resolveAll
  rw [hvisit] at herrands ⊢
  refine ⟨log, c.visits, _, rfl, rfl, herrands, hbalance, hbalance.attempts_eq,
    fun res hres => ?_⟩
  obtain ⟨parts, hall, -, -, hfell⟩ := parts_of_assemble hres
  refine ⟨hfell ▸ hbalance.fallbacks, hfell.trans (List.countP_congr fun visit hm => ?_)⟩
  obtain ⟨i, hi⟩ := List.mem_iff_getElem?.1 hm
  have hstand : ∃ r, standIn visit = .ok r := by
    obtain ⟨hlt, rfl⟩ := List.getElem?_eq_some_iff.1 hi
    obtain ⟨r, hr, -⟩ := standIn_of_replacement (hall.get hlt (hall.length_eq ▸ hlt))
    exact ⟨r, hr⟩
  rw [(hbalance.tags i visit hi).fellBack_eq hstand]

end Resolver

end EdgeInclude

import EdgeInclude.Proofs.Page.Sharing
import EdgeInclude.Proofs.Tally

/-!
# What callers do with a store

A caller that loads a page looks it up, and if it finds none that fits its body it scans the body or
waits for the scan of another caller. What callers do over a course of incidents goes into a journal
here, act by act, and the store and its counters are held against it.

* `PageStore.Act`, `PageStore.Loading.acts` — the acts of callers, told from the phases that they
  go through.
* `PageStore.Journal` — what acts do to a store.
* `PageStore.acts_keep` — what moves, stays and changes of the store keep holds after all incidents,
  of the acts together with the callers.
* `PageStore.Told`, `PageStore.told_acts` — the acts are a journal of the store, and those of a
  caller are what it has come through.
* `PageStore.Journal.counter_eq`, `PageStore.Journal.scan_eq` — what a journal counts, and what its
  scans find.
-/

namespace EdgeInclude

namespace PageStore

open Relation (TransGen)

/-! ## 1. Acts -/

/-- What a caller does. -/
inductive Act where
  /-- It finds a page that fits its body. -/
  | hit (call : Nat)
  /-- It finds none. -/
  | miss (call : Nat)
  /-- It scans its body. -/
  | scan (call : Nat) (r : Except Failure ParsedPage)
  /-- It has waited for the scan of another caller. -/
  | wait (call : Nat)
  deriving DecidableEq, Repr

namespace Act

def call : Act → Nat
  | hit i | miss i | scan i _ | wait i => i

def isHit : Act → Bool
  | hit _ => true
  | _ => false

def isMiss : Act → Bool
  | miss _ => true
  | _ => false

def isScan : Act → Bool
  | scan _ _ => true
  | _ => false

def isWait : Act → Bool
  | wait _ => true
  | _ => false

/-- A scan that has found the tags of its body. -/
def isParse : Act → Bool
  | scan _ (.ok _) => true
  | _ => false

/-- What an act adds to the counters. -/
def count : Act → PageCounts → PageCounts
  | hit _, c => c.hit
  | miss _, c => c.miss
  | scan _ (.ok _), c => c.parse
  | scan _ (.error _), c => c
  | wait _, c => c.wait

/-- One act on each of the counters. -/
theorem counters_count (a : Act) (c : PageCounts) :
    (a.count c).hits = c.hits + (if a.isHit then 1 else 0) ∧
    (a.count c).misses = c.misses + (if a.isMiss then 1 else 0) ∧
    (a.count c).parses = c.parses + (if a.isParse then 1 else 0) ∧
    (a.count c).waits = c.waits + if a.isWait then 1 else 0 := by
  cases a with
  | scan i r => cases r <;> simp [count, isHit, isMiss, isParse, isWait, PageCounts.parse]
  | _ => simp [count, isHit, isMiss, isParse, isWait, PageCounts.hit, PageCounts.miss,
      PageCounts.wait]

/-- The result of a scan for a fingerprint. -/
def scanFor (calls : Calls) (fp : Fingerprint) : Act → Option (Except Failure ParsedPage)
  | scan i r => if calls[i]?.map (·.1) = some fp then some r else none
  | _ => none

end Act

/-- The acts of a caller. -/
def actsOf (i : Nat) (log : List Act) : List Act := log.filter (·.call == i)

/-- The results of the scans for a fingerprint, one after the other. -/
def scansFor (calls : Calls) (fp : Fingerprint) (log : List Act) :
    List (Except Failure ParsedPage) := log.filterMap (Act.scanFor calls fp)

/-- What a caller has done by the time it has come to a phase. -/
def done (i : Nat) : Phase (Except Failure ParsedPage) → List Act
  | .fresh | .dropped => []
  | .waiting _ | .working .. => [.miss i]
  | .returned .ready _ => [.hit i]
  | .returned .leader r => [.miss i, .scan i r]
  | .returned .follower _ => [.miss i, .wait i]

/-- What a caller does from one phase to another. -/
def since (i : Nat) (p q : Phase (Except Failure ParsedPage)) : List Act :=
  (done i q).drop (done i p).length

/-- What a caller does in an incident. -/
def Incident.acts (b : Loading) : Incident → List Act
  | .caller e => since e.task (b.phase e.task) ((b.step e).phase e.task)
  | _ => []

/-- What callers do over a course of incidents. -/
def Loading.acts (b : Loading) : List Incident → List Act
  | [] => []
  | x :: rest => x.acts b ++ Loading.acts (b.undergo x) rest

variable {s s₀ : PageStore} {calls : Calls} {b b' b₀ : Loading} {i j : Nat} {fp : Fingerprint}
  {body : Bytes} {page : ParsedPage} {maxSize : Nat} {log new : List Act}
  {p q r : Phase (Except Failure ParsedPage)} {woken : List Nat} {incidents : List Incident}

theorem actsOf_append (i : Nat) (log new : List Act) :
    actsOf i (log ++ new) = actsOf i log ++ actsOf i new := List.filter_append ..

theorem actsOf_self (h : ∀ a ∈ new, a.call = i) : actsOf i new = new :=
  List.filter_eq_self.2 fun a ha => beq_iff_eq.2 (h a ha)

theorem actsOf_other (h : ∀ a ∈ new, a.call = i) (hj : j ≠ i) : actsOf j new = [] :=
  List.filter_eq_nil_iff.2 fun a ha heq => hj ((beq_iff_eq.1 heq).symm.trans (h a ha))

theorem scansFor_append (calls : Calls) (fp : Fingerprint) (log new : List Act) :
    scansFor calls fp (log ++ new) = scansFor calls fp log ++ scansFor calls fp new :=
  List.filterMap_append

theorem call_of_mem_done (i : Nat) (p : Phase (Except Failure ParsedPage)) :
    ∀ a ∈ done i p, a.call = i := by
  unfold done
  split <;> simp [Act.call]

/-! ## 2. From phase to phase -/

theorem since_self (i : Nat) (p : Phase (Except Failure ParsedPage)) : since i p p = [] :=
  List.drop_length

theorem done_append_since (h : done i p <+: done i q) : done i p ++ since i p q = done i q := by
  obtain ⟨more, hmore⟩ := h
  unfold since
  rw [← hmore, List.drop_left]

theorem since_trans (hpq : done i p <+: done i q) (hqr : done i q <+: done i r) :
    since i p q ++ since i q r = since i p r := by
  have h : done i p ++ (since i p q ++ since i q r) = done i p ++ since i p r := by
    rw [← List.append_assoc, done_append_since hpq, done_append_since hqr,
      done_append_since (hpq.trans hqr)]
  exact List.append_cancel_left h

/-- A caller goes on from what it has done. -/
theorem done_of_move (m : Batch.Move i b b') (hd : b'.phase i ≠ .dropped) :
    done i (b.phase i) <+: done i (b'.phase i) := by
  cases m with
  | found own was look moved => rw [was]; exact List.nil_prefix
  | enter own was look number moved => rw [was]; exact List.nil_prefix
  | follow own was value moved => rw [was, moved.self]; exact ⟨[_], rfl⟩
  | begin own was value permit moved => rw [was, moved.self]; exact List.prefix_rfl
  | pause was less moved => rw [was, moved.self]; exact List.prefix_rfl
  | complete own was value moved => rw [was, moved.self]; exact ⟨[_], rfl⟩
  | leave was moved => exact absurd moved.self hd
  | forgo was moved => exact absurd moved.self hd

/-- What every move of a caller keeps, together with what the caller has done in it. -/
theorem moves_keep {Q : List Act → Loading → Prop}
    (hmove : ∀ {i log} {b b' : Loading}, b.Sound → Q log b → Batch.Move i b b' →
      Q (log ++ since i (b.phase i) (b'.phase i)) b')
    (hm : TransGen (Batch.Move i) b b') (h : b.Sound) (hq : Q log b) (hd : b'.phase i ≠ .dropped) :
    b'.Sound ∧ Q (log ++ since i (b.phase i) (b'.phase i)) b' ∧
      done i (b.phase i) <+: done i (b'.phase i) := by
  induction hm with
  | single m => exact ⟨h.move m, hmove h hq m, done_of_move m hd⟩
  | tail _ m ih =>
    obtain ⟨hs, hq', hpre⟩ := ih m.live.1
    have hnext := done_of_move m hd
    refine ⟨hs.move m, ?_, hpre.trans hnext⟩
    rw [← since_trans hpre hnext, ← List.append_assoc]
    exact hmove hs hq' m

/-- **What moves, stays and changes of the store keep holds after all incidents**, of the acts of
the callers together with the callers. -/
theorem acts_keep {Q : List Act → Loading → Prop}
    (hmove : ∀ {i log} {b b' : Loading}, b.Sound → Q log b → Batch.Move i b b' →
      Q (log ++ since i (b.phase i) (b'.phase i)) b')
    (hrest : ∀ {i log} {b b' : Loading}, Q log b → Batch.Rest i b b' → Q log b')
    (hstore : ∀ {log} {b : Loading}, ∀ x ∈ incidents, (∀ e, x ≠ .caller e) → Q log b →
      Q log (b.undergo x))
    (h : b.Sound) (hq : Q log b) : Batch.Sound (b.undergoAll incidents) ∧
      Q (log ++ b.acts incidents) (b.undergoAll incidents) := by
  have hstay : ∀ {i log} {b b' : Loading}, b.Sound → Q log b → Batch.Rest i b b' →
      b'.Sound ∧ Q (log ++ since i (b.phase i) (b'.phase i)) b' := by
    intro i log b b' h hq hr
    rw [hr.phase_eq, since_self, List.append_nil]
    exact ⟨h.rest hr, hrest hq hr⟩
  have hstep : ∀ {log} {b : Loading} (e : Batch.Event), b.Sound → Q log b →
      (b.step e).Sound ∧ Q (log ++ Incident.acts b (.caller e)) (b.step e) := by
    intro log b e h hq
    cases e with
    | poll i =>
      rcases Batch.moves_poll h i with hm | ⟨hr, -⟩
      · have hd : b.phase i ≠ .dropped := by
          obtain ⟨_, m, -⟩ := TransGen.head'_iff.1 hm
          exact m.live.1
        obtain ⟨hs, hq', -⟩ := moves_keep hmove hm h hq (Batch.phase_poll_ne hd)
        exact ⟨hs, hq'⟩
      · exact hstay h hq hr
    | drop i =>
      rcases Batch.move_drop b i with m | hr
      · exact ⟨h.move m, hmove h hq m⟩
      · exact hstay h hq hr
    | count i => exact hstay h hq (Batch.rest_count b i)
  unfold Loading.undergoAll
  induction incidents generalizing b log with
  | nil => exact ⟨h, by rwa [Loading.acts, List.append_nil]⟩
  | cons x rest ih =>
    have hone : Batch.Sound (b.undergo x) ∧ Q (log ++ x.acts b) (b.undergo x) := by
      have hnil : Q log b → Q (log ++ []) b := fun h => by rwa [List.append_nil]
      cases x with
      | caller e => exact hstep e h hq
      | removed fp => exact ⟨h.share _, hstore _ List.mem_cons_self nofun (hnil hq)⟩
      | cleared => exact ⟨h.share _, hstore _ List.mem_cons_self nofun (hnil hq)⟩
      | kept fp page => exact ⟨h.share _, hstore _ List.mem_cons_self nofun (hnil hq)⟩
    rw [Loading.acts, ← List.append_assoc]
    exact ih (fun x hx => hstore x (List.mem_cons_of_mem _ hx)) hone.1 hone.2

/-! ## 3. Journals -/

/-- What is done to a store: by callers, act by act, and by others, who change what is kept. -/
inductive Journal (calls : Calls) (s₀ : PageStore) : List Act → PageStore → Prop where
  | opens : Journal calls s₀ [] s₀
  | hits {log : List Act} {s : PageStore} {i : Nat} {fp : Fingerprint} {body : Bytes}
      {page : ParsedPage} (before : Journal calls s₀ log s) (call : calls[i]? = some (fp, body))
      (found : (s.lookup fp body).2 = some page) :
      Journal calls s₀ (log ++ [.hit i]) (s.lookup fp body).1
  | misses {log : List Act} {s : PageStore} {i : Nat} {fp : Fingerprint} {body : Bytes}
      (before : Journal calls s₀ log s) (call : calls[i]? = some (fp, body))
      (missed : (s.lookup fp body).2 = none) :
      Journal calls s₀ (log ++ [.miss i]) (s.lookup fp body).1
  | scans {log : List Act} {s : PageStore} {i : Nat} {fp : Fingerprint} {body : Bytes}
      (before : Journal calls s₀ log s) (call : calls[i]? = some (fp, body)) :
      Journal calls s₀ (log ++ [.scan i (s.parseInto fp body).2]) (s.parseInto fp body).1
  | waits {log : List Act} {s : PageStore} {i : Nat} {fp : Fingerprint} {body : Bytes}
      (before : Journal calls s₀ log s) (call : calls[i]? = some (fp, body)) :
      Journal calls s₀ (log ++ [.wait i]) { s with counts := s.counts.wait }
  | removed {log : List Act} {s : PageStore} (before : Journal calls s₀ log s)
      (fp : Fingerprint) : Journal calls s₀ log (s.remove fp).1
  | cleared {log : List Act} {s : PageStore} (before : Journal calls s₀ log s) :
      Journal calls s₀ log s.clear
  | kept {log : List Act} {s : PageStore} (before : Journal calls s₀ log s) (fp : Fingerprint)
      (page : ParsedPage) : Journal calls s₀ log { s with cache := s.cache.insert fp page }

theorem counts_lookup (s : PageStore) (fp : Fingerprint) (body : Bytes) :
    (s.lookup fp body).1.counts =
      if (s.lookup fp body).2.isSome then s.counts.hit else s.counts.miss := by
  rw [lookup_eq]
  split
  · split <;> rfl
  · rfl

/-- A scan finds what there is in the body. -/
theorem parseInto_eq_scan (h : s.pool.IsFresh maxSize) (fp : Fingerprint) (body : Bytes) :
    (s.parseInto fp body).2.map (·.tags) = (scan maxSize body).map Page.ofTags := by
  rw [parseInto_eq, h.scan_eq]
  cases scan maxSize body <;> rfl

namespace Journal

/-- **The counters are what the acts add up to.** -/
theorem counts_eq (h : Journal calls s₀ log s) :
    s.counts = log.foldl (fun c a => a.count c) s₀.counts := by
  induction h with
  | opens => rfl
  | hits before call found ih =>
    rw [List.foldl_append, ← ih, counts_lookup, found]
    rfl
  | misses before call missed ih =>
    rw [List.foldl_append, ← ih, counts_lookup, missed]
    rfl
  | scans before call ih =>
    rw [List.foldl_append, ← ih, parseInto_eq]
    split <;> rfl
  | waits before call ih =>
    rw [List.foldl_append, ← ih]
    rfl
  | removed before fp ih => exact ih
  | cleared before ih => exact ih
  | kept before fp page ih => exact ih

/-- **A counter goes up with the acts of a kind**, as many as the journal has. -/
theorem counter_eq (h : Journal calls s₀ log s) (counter : PageCounts → UInt64) (p : Act → Bool)
    (hp : ∀ a c, counter (Act.count a c) = counter c + if p a then 1 else 0) :
    counter s.counts = counter s₀.counts + .ofNat (log.countP p) := by
  rw [h.counts_eq, Tally.counter_foldl Act.count counter p hp]

/-- Acts are those of calls. -/
theorem call_lt (h : Journal calls s₀ log s) : ∀ a ∈ log, a.call < calls.length := by
  have hsnoc : ∀ {log : List Act} {a : Act} {e}, (∀ a ∈ log, a.call < calls.length) →
      calls[a.call]? = some e → ∀ x ∈ log ++ [a], x.call < calls.length := by
    intro log a e ih hcall x hx
    rcases List.mem_append.1 hx with hx | hx
    · exact ih x hx
    · rw [List.mem_singleton.1 hx]
      exact (List.getElem?_eq_some_iff.1 hcall).1
  induction h with
  | opens => exact nofun
  | hits before call found ih => exact hsnoc ih call
  | misses before call missed ih => exact hsnoc ih call
  | scans before call ih => exact hsnoc ih call
  | waits before call ih => exact hsnoc ih call
  | removed before fp ih => exact ih
  | cleared before ih => exact ih
  | kept before fp page ih => exact ih

/-- **A scan finds what there is in the body of its caller**, and scanners stay like new. -/
theorem scan_eq (h : Journal calls s₀ log s) (hpool : s₀.pool.IsFresh maxSize) :
    s.pool.IsFresh maxSize ∧ ∀ i r fp body, .scan i r ∈ log → calls[i]? = some (fp, body) →
      r.map (·.tags) = (scan maxSize body).map Page.ofTags := by
  have hold : ∀ {log : List Act} {a : Act} {i r}, a.isScan = false → .scan i r ∈ log ++ [a] →
      .scan i r ∈ log := by
    intro log a i r ha hm
    refine (List.mem_append.1 hm).resolve_right fun hm => ?_
    rw [← List.mem_singleton.1 hm] at ha
    cases ha
  induction h with
  | opens => exact ⟨hpool, nofun⟩
  | hits before call found ih =>
    exact ⟨isFresh_lookup ih.1 _ _, fun i r fp body hm => ih.2 i r fp body (hold rfl hm)⟩
  | misses before call missed ih =>
    exact ⟨isFresh_lookup ih.1 _ _, fun i r fp body hm => ih.2 i r fp body (hold rfl hm)⟩
  | @scans _ s j fp' body' before call ih =>
    refine ⟨isFresh_parseInto ih.1 _ _, fun i r fp body hm hcall => ?_⟩
    rcases List.mem_append.1 hm with hm | hm
    · exact ih.2 i r fp body hm hcall
    · cases List.mem_singleton.1 hm
      cases call.symm.trans hcall
      exact parseInto_eq_scan ih.1 fp' body'
  | waits before call ih => exact ⟨ih.1, fun i r fp body hm => ih.2 i r fp body (hold rfl hm)⟩
  | removed before fp ih => exact ih
  | cleared before ih => exact ih
  | kept before fp page ih => exact ih

end Journal

/-! ## 4. The acts of callers are a journal -/

theorem Loading.Calling.moved (h : Loading.Calling calls b) (hm : b.Moved i p woken b') :
    Loading.Calling calls b' := fun j => (hm.job j).trans (h j)

/-- What callers have done since a time `b₀`: it is a journal of the store, and each caller that has
not been given up has done what it takes to come to where it is. Who had been given up by then has
done nothing. -/
structure Told (calls : Calls) (b₀ : Loading) (log : List Act) (b : Loading) : Prop where
  calling : Loading.Calling calls b
  journal : Journal calls b₀.shared log b.shared
  own : ∀ i, b.phase i ≠ .dropped → done i (b₀.phase i) ++ actsOf i log = done i (b.phase i)
  gone : ∀ i, b₀.phase i = .dropped → b.phase i = .dropped ∧ actsOf i log = []

namespace Told

theorem refl (h : Loading.Calling calls b) : Told calls b [] b :=
  ⟨h, .opens, fun _ _ => List.append_nil _, fun _ hd => ⟨hd, rfl⟩⟩

theorem of_moved (h : Told calls b₀ log b) (m : Batch.Move i b b') (hm : b.Moved i p woken b')
    (hj : Journal calls b₀.shared (log ++ since i (b.phase i) (b'.phase i)) b'.shared) :
    Told calls b₀ (log ++ since i (b.phase i) (b'.phase i)) b' := by
  have hnew : ∀ a ∈ since i (b.phase i) (b'.phase i), a.call = i :=
    fun a ha => call_of_mem_done i _ a (List.mem_of_mem_drop ha)
  refine ⟨h.calling.moved hm, hj, fun j hd => ?_, fun j hd => ?_⟩
  · rw [actsOf_append, ← List.append_assoc]
    by_cases hji : j = i
    · subst hji
      rw [h.own j m.live.1, actsOf_self hnew, done_append_since (done_of_move m hd)]
    · rw [hm.other j hji] at hd ⊢
      rw [actsOf_other hnew hji, List.append_nil, h.own j hd]
  · obtain ⟨hgone, hacts⟩ := h.gone j hd
    have hji : j ≠ i := fun he => m.live.1 (he ▸ hgone)
    rw [actsOf_append, hacts, actsOf_other hnew hji, hm.other j hji]
    exact ⟨hgone, rfl⟩

/-- **What a caller does in a move is what happens to the store in it.** -/
theorem move (h : Told calls b₀ log b) (m : Batch.Move i b b') :
    Told calls b₀ (log ++ since i (b.phase i) (b'.phase i)) b' := by
  have hj := h.journal
  have hsilent : since i (b.phase i) (b'.phase i) = [] → b'.shared = b.shared →
      Journal calls b₀.shared (log ++ since i (b.phase i) (b'.phase i)) b'.shared := by
    intro hno hs
    rw [hno, hs, List.append_nil]
    exact hj
  obtain ⟨_, _, hmoved⟩ := m.moved
  refine h.of_moved m hmoved ?_
  cases m with
  | found own was look moved coalescer shared =>
    obtain ⟨fp, body, hc, rfl⟩ := h.calling.exists_call own
    obtain ⟨page, hpage, rfl⟩ := Option.map_eq_some_iff.1 look
    rw [was, moved.self, shared]
    exact hj.hits hc hpage
  | enter own was look number moved awake coalescer shared =>
    obtain ⟨fp, body, hc, rfl⟩ := h.calling.exists_call own
    rw [was, moved.self, shared]
    exact hj.misses hc (Option.map_eq_none_iff.1 look)
  | follow own was value moved coalescer shared =>
    obtain ⟨fp, body, hc, rfl⟩ := h.calling.exists_call own
    rw [was, moved.self, shared]
    exact hj.waits hc
  | begin own was value permit moved awake coalescer shared =>
    obtain ⟨fp, body, -, rfl⟩ := h.calling.exists_call own
    exact hsilent (by rw [was, moved.self]; rfl) shared
  | pause was less moved awake coalescer shared =>
    exact hsilent (by rw [was, moved.self]; rfl) shared
  | complete own was value moved coalescer shared =>
    obtain ⟨fp, body, hc, rfl⟩ := h.calling.exists_call own
    rw [was, moved.self, shared, ← value]
    exact hj.scans hc
  | leave was moved coalescer shared =>
    exact hsilent (by rw [moved.self]; exact List.drop_nil) shared
  | forgo was moved coalescer shared =>
    exact hsilent (by rw [moved.self]; exact List.drop_nil) shared

theorem rest (h : Told calls b₀ log b) (r : Batch.Rest i b b') : Told calls b₀ log b' := by
  refine ⟨h.calling.moved r.moved, ?_, fun j hd => ?_, fun j hd => ?_⟩
  · rw [r.shared]
    exact h.journal
  · rw [r.phase_eq] at hd ⊢
    exact h.own j hd
  · rw [r.phase_eq]
    exact h.gone j hd

theorem undergo (h : Told calls b₀ log b) (x : Incident) (hx : ∀ e, x ≠ .caller e) :
    Told calls b₀ log (b.undergo x) := by
  cases x with
  | caller e => exact absurd rfl (hx e)
  | removed fp => exact ⟨h.calling, h.journal.removed fp, h.own, h.gone⟩
  | cleared => exact ⟨h.calling, h.journal.cleared, h.own, h.gone⟩
  | kept fp page => exact ⟨h.calling, h.journal.kept fp page, h.own, h.gone⟩

end Told

/-- **The acts of callers are a journal of the store**, over every course of incidents. -/
theorem told_acts (h : b.Sound) (hc : Loading.Calling calls b) (incidents : List Incident) :
    Batch.Sound (b.undergoAll incidents) ∧
      Told calls b (b.acts incidents) (b.undergoAll incidents) :=
  acts_keep (Q := Told calls b) (fun _ hq m => hq.move m) (fun hq r => hq.rest r)
    (fun x _ hx hq => hq.undergo x hx) h (.refl hc)

end PageStore

end EdgeInclude

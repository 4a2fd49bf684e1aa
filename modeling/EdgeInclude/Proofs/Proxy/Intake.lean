import EdgeInclude.Proofs.Proxy.Answer

/-!
# What is counted of what the origin delivers

Bytes from the origin are counted where a body is collected. A page that is kept is not collected,
and the body of a page that is too large only up to the chunk with which it is. The rest of these
bodies goes to the client without being counted.

* `Proxy.Taken` — what of a body is collected, and what goes to the client while it comes.
* `Proxy.Intake` — a page that is asked for, and what the origin delivers for it.
* `Proxy.Serving` — pages that are served one after the other, with other requests between them.
* `Proxy.fromOrigin_filter` — what a page adds to the count.
* `Proxy.Serving.fromOrigin_eq` — what is counted of many pages, and what is not.
-/

namespace EdgeInclude

namespace Proxy

variable {σ : Type} {p : Proxy} {e : Engine} {o : Surroundings σ} {c : ClientRequest} {r : Request}
  {s t : Engine.State σ} {limit : Nat} {body : Bytes} {a : Arrival} {x : Exchange} {status : Nat}

/-! ## 1. Bodies -/

/-- How a body comes in, for a page that is kept or not: what of it is collected, and what goes to
the client while it comes. -/
inductive Taken (limit : Nat) : Bool → List Bytes → Bytes → Bytes → Prop where
  | kept (chunks : List Bytes) : Taken limit true chunks [] chunks.flatten
  | whole (chunks : List Bytes) (fits : chunks.flatten.length ≤ limit) :
      Taken limit false chunks chunks.flatten []
  /-- The chunk with which there are more bytes than the limit is collected as well. -/
  | exceeding (front : List Bytes) (chunk : Bytes) (rest : List Bytes)
      (fits : front.flatten.length ≤ limit) (exceeds : limit < (front ++ [chunk]).flatten.length) :
      Taken limit false (front ++ chunk :: rest) (front ++ [chunk]).flatten rest.flatten

variable {known : Bool} {chunks : List Bytes} {first rest : Bytes}

/-- Every byte of a body is collected or goes to the client while it comes, and none is both. -/
theorem Taken.append_eq (h : Taken limit known chunks first rest) :
    first ++ rest = chunks.flatten := by
  cases h with
  | kept => rfl
  | whole => exact List.append_nil _
  | exceeding front chunk rest =>
    rw [← List.flatten_append, List.append_assoc]
    rfl

/-- Of a page that is not kept and not too large, nothing goes by without being counted. -/
theorem Taken.eq_of_le (h : Taken limit false chunks first rest)
    (hl : chunks.flatten.length ≤ limit) : first = chunks.flatten := by
  cases h with
  | whole => rfl
  | exceeding front chunk more fits exceeds =>
    rw [List.flatten_append, List.length_append] at exceeds hl
    rw [List.flatten_cons, List.length_append] at hl
    rw [List.flatten_cons, List.flatten_nil, List.append_nil] at exceeds
    omega

/-- What has been collected already is in front of all chunks. -/
theorem taken_gather_append (front : List Bytes) (h : front.flatten.length ≤ limit)
    (chunks : List Bytes) :
    Taken limit false (front ++ chunks) (gather limit front.flatten chunks).body
      (gather limit front.flatten chunks).rest.flatten := by
  induction chunks generalizing front with
  | nil =>
    rw [List.append_nil]
    exact .whole front h
  | cons chunk rest ih =>
    have hnext : front.flatten ++ chunk = (front ++ [chunk]).flatten := by simp
    unfold gather
    rw [hnext]
    split
    · rename_i hl
      exact .exceeding front chunk rest h hl
    · rename_i hl
      have hrest := ih (front ++ [chunk]) (Nat.le_of_not_lt hl)
      rwa [List.append_assoc] at hrest

/-! ## 2. Pages -/

/-- A page that a client asks for: the engine before it, the request, and the body that the origin
delivers. -/
structure Intake (σ : Type) where
  before : Engine.State σ
  request : ClientRequest
  body : Arrival

/-- The engine after a request: it is answered or left, and then counted. -/
def visit (p : Proxy) (o : Surroundings σ) (c : ClientRequest) (s : Engine.State σ) :
    Engine.State σ :=
  let out := p.filter o c s
  log out.2.1 out.1

namespace Intake

variable (i : Intake σ) (p : Proxy) (o : Surroundings σ)

def after : Engine.State σ := visit p o i.request i.before

/-- Whether the tags of the page are kept. -/
def isKept : Bool :=
  (i.before.pages.peek
    (p.engine.fingerprint (pageRequest p.engine i.request i.before.world.now))).2.isSome

/-- What the origin delivers. -/
def received : Bytes := i.body.chunks.flatten

/-- What is collected, and counted. -/
def counted : Bytes :=
  if i.isKept p then [] else (gather p.engine.config.maxBody [] i.body.chunks).body

/-- What goes to the client without having been collected. -/
def uncounted : Bytes :=
  if i.isKept p then i.received else (gather p.engine.config.maxBody [] i.body.chunks).rest.flatten

/-- The page is asked for with its body, is processed, and is answered without a failure. -/
structure Served : Prop where
  get : i.request.method = Request.get
  accepted : Eligibility.ofRequest p.engine.config.patterns i.request.method i.request.target.path
    i.request.headers = true
  delivered : ∃ status headers declared,
    delivery p.engine o i.request i.before = .response status headers declared i.body
  succeeds : (p.filter o i.request i.before).2.2 = .ok true
  processed : (p.filter o i.request i.before).2.1.context.processed = true

variable {i p o}

theorem taken : Taken p.engine.config.maxBody (i.isKept p) i.body.chunks (i.counted p)
    (i.uncounted p) := by
  unfold counted uncounted
  cases i.isKept p with
  | true => exact .kept _
  | false => exact taken_gather_append [] (Nat.zero_le _) _

theorem length_counted_add : (i.counted p).length + (i.uncounted p).length = i.received.length := by
  rw [← List.length_append, i.taken.append_eq]
  rfl

end Intake

/-- What is told of a page that has been served. -/
structure Intake.Accounted (i : Intake σ) (p : Proxy) (o : Surroundings σ) : Prop where
  complete : i.body.breakdown = none
  taken : Taken p.engine.config.maxBody (i.isKept p) i.body.chunks (i.counted p) (i.uncounted p)
  grows : (i.after p o).bytes.fromOrigin =
    i.before.bytes.fromOrigin + UInt64.ofNat (i.counted p).length

/-- Pages that are served one after the other. Between them, requests may come that are not for a
page that may have tags. -/
inductive Serving (p : Proxy) (o : Surroundings σ) :
    Engine.State σ → List (Intake σ) → Engine.State σ → Prop where
  | nil (s : Engine.State σ) : Serving p o s [] s
  | page {i : Intake σ} {is : List (Intake σ)} {t : Engine.State σ} (served : i.Served p o)
      (more : Serving p o (i.after p o) is t) : Serving p o i.before (i :: is) t
  | other {s t : Engine.State σ} {c : ClientRequest} {is : List (Intake σ)}
      (refused : Eligibility.ofRequest p.engine.config.patterns c.method c.target.path c.headers =
        false)
      (more : Serving p o (visit p o c s) is t) : Serving p o s is t

/-! ## 3. What is counted -/

theorem fromOrigin_send (q : Plan) (status : Nat) (first : Bytes) (rest : Arrival) (x : Exchange)
    (s : Engine.State σ) :
    (send q status first rest x s).1.bytes.fromOrigin = s.bytes.fromOrigin := by
  obtain ⟨n, hn⟩ := exists_send_fst q status first rest x s
  rw [hn]
  rfl

theorem fromOrigin_sendPlanned (q : Plan) (status : Nat) (body : Arrival) (x : Exchange)
    (s : Engine.State σ) :
    (sendPlanned q status body x s).1.bytes.fromOrigin = s.bytes.fromOrigin := by
  obtain ⟨n, hn⟩ := exists_sendPlanned_fst q status body x s
  rw [hn]
  rfl

/-- A body that is sent to its end has not been broken off. -/
theorem breakdown_of_ending {j : Injector} (h : ending j a = .ok ()) : a.breakdown = none := by
  unfold ending at h
  cases hb : a.breakdown with
  | none => rfl
  | some k =>
    rw [hb] at h
    cases h

theorem breakdown_of_send {q : Plan} (h : (send q status body a x s).2.2 = .ok ()) :
    a.breakdown = none := by
  rw [send_eq] at h
  split at h
  · exact breakdown_of_ending h
  · cases h
  · cases h

theorem breakdown_of_sendPlanned {q : Plan} (h : (sendPlanned q status a x s).2.2 = .ok ()) :
    a.breakdown = none := by
  unfold sendPlanned at h
  split at h
  · have hrest := breakdown_of_send h
    exact hrest
  · split at h
    · cases h
    · exact breakdown_of_send h

/-- **What has been collected is counted**, when a page goes out whose plan needs its body. -/
theorem fromOrigin_sendGathered {q : Plan}
    (h : (sendGathered e o q r status a x s).2.2 = .ok ()) :
    a.breakdown = none ∧ (sendGathered e o q r status a x s).1.bytes.fromOrigin =
      s.bytes.fromOrigin + UInt64.ofNat (gather e.config.maxBody [] a.chunks).body.length := by
  have hsends := sendsGathered e o q r status a x s
  generalize sendGathered e o q r status a x s = out at hsends h ⊢
  cases hsends with
  | broken => cases h
  | exceeding =>
    have hend := breakdown_of_send h
    exact ⟨hend, fromOrigin_send ..⟩
  | failed => cases h
  | @sent t q' complete planned =>
    have hbytes : t.bytes = (collected e a s).bytes := by
      rw [← Engine.bytes_completePlan e o q r a.chunks.flatten .never (collected e a s), planned]
    refine ⟨complete, (fromOrigin_send ..).trans ?_⟩
    rw [hbytes]
    rfl

/-- A page that may not be processed is not. -/
theorem processed_of_ineligible {headers : Headers} {declared : Option Nat}
    (hel : Eligibility.ofResponse status (Hop.strip headers) = false)
    (hx : x.context.processed = false) :
    (answer e o r x s (.response status headers declared a)).2.1.context.processed = false := by
  unfold answer
  dsimp only
  rw [hel, Bool.not_false, if_pos rfl, streamRest_eq]
  exact hx

theorem fromOrigin_answer {headers : Headers} {declared : Option Nat} (hm : r.method ≠ Request.head)
    (hel : Eligibility.ofResponse status (Hop.strip headers) = true)
    (hok : (answer e o r x s (.response status headers declared a)).2.2 = .ok ()) :
    a.breakdown = none ∧
      (answer e o r x s (.response status headers declared a)).1.bytes.fromOrigin =
        s.bytes.fromOrigin + UInt64.ofNat
          (if (s.pages.peek (e.fingerprint r)).2.isSome then []
            else (gather e.config.maxBody [] a.chunks).body).length := by
  cases hp : (s.pages.peek (e.fingerprint r)).2 with
  | none =>
    rw [answer_of_new o a x declared hel hm hp] at hok ⊢
    exact fromOrigin_sendGathered hok
  | some q =>
    obtain ⟨t, -, hbytes, hans⟩ := exists_answer_of_kept o a x declared hel hm hp
    rw [hans] at hok ⊢
    split at hok
    · cases hok
    · refine ⟨breakdown_of_sendPlanned hok, ?_⟩
      rw [fromOrigin_sendPlanned, hbytes]
      exact (UInt64.add_zero _).symm

/-- **What a page that is served adds to the count**: the length of what is collected of its body.
The origin has not broken off. -/
theorem fromOrigin_filter {i : Intake σ} (h : i.Served p o) :
    i.body.breakdown = none ∧ (i.after p o).bytes.fromOrigin =
      i.before.bytes.fromOrigin + UInt64.ofNat (i.counted p).length := by
  obtain ⟨hget, haccepted, ⟨status, headers, declared, hdelivered⟩, hok, hprocessed⟩ := h
  unfold Intake.after visit
  have hfilter := filter_of_accepted haccepted o i.before
  rw [hdelivered] at hfilter
  rw [hfilter] at hok hprocessed ⊢
  have hm : (pageRequest p.engine i.request i.before.world.now).method ≠ Request.head := by
    show i.request.method ≠ _
    rw [hget]
    decide
  cases hel : Eligibility.ofResponse status (Hop.strip headers) with
  | false => exact absurd (hprocessed.symm.trans (processed_of_ineligible hel rfl)) (by decide)
  | true =>
    refine fromOrigin_answer hm hel ?_
    dsimp only at hok
    generalize (answer _ _ _ _ _ _).2.2 = done at hok
    cases done with
    | error err => cases hok
    | ok u => rfl

/-- A request that is not for a page that may have tags adds nothing. -/
theorem fromOrigin_visit_of_refused (h : Eligibility.ofRequest p.engine.config.patterns c.method
    c.target.path c.headers = false) :
    (visit p o c s).bytes.fromOrigin = s.bytes.fromOrigin := by
  show (p.filter o c s).1.bytes.fromOrigin = _
  unfold filter
  rw [h]
  dsimp only
  split
  · split <;> rfl
  · rfl

/-! ## 4. Many pages -/

variable {is : List (Intake σ)}

theorem sum_counted_add (p : Proxy) (is : List (Intake σ)) :
    (is.map fun i => (i.counted p).length).sum + (is.map fun i => (i.uncounted p).length).sum =
      (is.map fun i => i.received.length).sum := by
  induction is with
  | nil => rfl
  | cons i is ih =>
    simp only [List.map_cons, List.sum_cons]
    have hi := i.length_counted_add (p := p)
    omega

/-- Between two pages nothing is counted. -/
theorem Serving.fromOrigin_counted (h : Serving p o s is t) :
    (∀ i ∈ is, i.Accounted p o) ∧ t.bytes.fromOrigin =
      s.bytes.fromOrigin + UInt64.ofNat (is.map fun i => (i.counted p).length).sum := by
  induction h with
  | nil s => exact ⟨fun _ hi => absurd hi List.not_mem_nil, (UInt64.add_zero _).symm⟩
  | @page i is t served more ih =>
    obtain ⟨hcomplete, hgrows⟩ := fromOrigin_filter served
    refine ⟨List.forall_mem_cons.2 ⟨⟨hcomplete, i.taken, hgrows⟩, ih.1⟩, ?_⟩
    rw [ih.2, hgrows, List.map_cons, List.sum_cons, UInt64.ofNat_add, UInt64.add_assoc]
  | other refused more ih =>
    rw [fromOrigin_visit_of_refused refused] at ih
    exact ih

/-- **What is counted of pages that are served, and what is not**, whichever of them are kept and
however the origin cuts their bodies. Each page adds what is collected of its body, no more and no
less; what has been counted and what has gone by are together all that the origin has delivered.
For a page that is not kept and not too large, all of it is counted. -/
theorem Serving.fromOrigin_eq (h : Serving p o s is t) :
    (∀ i ∈ is, i.Accounted p o) ∧
    t.bytes.fromOrigin =
      s.bytes.fromOrigin + UInt64.ofNat (is.map fun i => (i.counted p).length).sum ∧
    t.bytes.fromOrigin + UInt64.ofNat (is.map fun i => (i.uncounted p).length).sum =
      s.bytes.fromOrigin + UInt64.ofNat (is.map fun i => i.received.length).sum ∧
    ∀ i ∈ is, i.isKept p = false → i.received.length ≤ p.engine.config.maxBody →
      (i.after p o).bytes.fromOrigin =
        i.before.bytes.fromOrigin + UInt64.ofNat i.received.length := by
  obtain ⟨hall, hsum⟩ := h.fromOrigin_counted
  refine ⟨hall, hsum, ?_, fun i hi hnew hfits => ?_⟩
  · rw [hsum, UInt64.add_assoc, ← UInt64.ofNat_add, sum_counted_add]
  · obtain ⟨-, htaken, hgrows⟩ := hall i hi
    rw [hnew] at htaken
    rw [hgrows, htaken.eq_of_le hfits]
    rfl

namespace Sample

/-- The page is asked for, and its body comes in whole. -/
def visited (s : Engine.State Unit) : Intake Unit := ⟨s, ask, ⟨Engine.Sample.cut, none⟩⟩

/-- The engine after the page has been asked for, and this has been counted. -/
def logged : Engine.State Unit := visit gateway site ask Engine.Sample.state

theorem served_of_succeeds {s : Engine.State Unit}
    (h : (gateway.filter site ask s).2.2.toOption = some true ∧
      (gateway.filter site ask s).2.1.context.processed = true) :
    (visited s).Served gateway site where
  get := rfl
  accepted := rfl
  delivered := ⟨200, Engine.Sample.declared, none, rfl⟩
  succeeds := by
    show (gateway.filter site ask s).2.2 = _
    cases hr : (gateway.filter site ask s).2.2 with
    | error err =>
      rw [hr] at h
      cases h.1
    | ok b =>
      rw [hr] at h
      cases h.1
      rfl
  processed := h.2

/-- The page is served twice. -/
theorem serving : Serving gateway site Engine.Sample.state
    [visited Engine.Sample.state, visited logged] (visit gateway site ask logged) :=
  .page (i := visited Engine.Sample.state) (served_of_succeeds (by decide +kernel))
    (.page (i := visited logged) (served_of_succeeds (by decide +kernel)) (.nil _))

end Sample

open Sample in
/-- The page is served twice. It is not kept at first, and then it is. -/
theorem fromOrigin_eq_sample :
    Serving gateway site Engine.Sample.state [visited Engine.Sample.state, visited logged]
        (visit gateway site ask logged) ∧
      (visited Engine.Sample.state).isKept gateway = false ∧
      (visited logged).isKept gateway = true ∧
      logged.bytes.fromOrigin = 95 ∧
      (visit gateway site ask logged).bytes.fromOrigin + 95 = 190 := by
  obtain ⟨-, -, hsum, hnew⟩ := serving.fromOrigin_eq
  have hfirst : (visited Engine.Sample.state).isKept gateway = false := by decide +kernel
  have hsecond : (visited logged).isKept gateway = true := by decide +kernel
  have hreceived : ∀ s, (visited s).received.length = 95 := fun s => by
    show Engine.Sample.cut.flatten.length = 95
    decide +kernel
  have hgoes : ([visited Engine.Sample.state, visited logged].map fun i =>
      (i.uncounted gateway).length).sum = 95 := by decide +kernel
  have hcomes : ([visited Engine.Sample.state, visited logged].map fun i =>
      i.received.length).sum = 190 := by
    rw [List.map_cons, List.map_cons, hreceived, hreceived]
    rfl
  have hstart : Engine.Sample.state.bytes.fromOrigin = 0 := rfl
  refine ⟨serving, hfirst, hsecond, ?_, ?_⟩
  · have hgrows := hnew (visited Engine.Sample.state) List.mem_cons_self hfirst
      (by rw [hreceived]; decide)
    rw [hreceived] at hgrows
    exact hgrows.trans (congrArg (· + UInt64.ofNat 95) hstart)
  · rw [hgoes, hcomes, hstart] at hsum
    exact hsum

open Sample in
/-- **Not all that comes is counted**: a page that is kept adds nothing when it is served again. -/
theorem exists_uncounted : ¬ ∀ (s t : Engine.State Unit) (is : List (Intake Unit)),
    Serving gateway site s is t → t.bytes.fromOrigin =
      s.bytes.fromOrigin + UInt64.ofNat (is.map fun i => i.received.length).sum := by
  intro h
  exact absurd (h _ _ _ serving) (by decide +kernel)

end Proxy

end EdgeInclude

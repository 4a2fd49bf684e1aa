import EdgeInclude.Proofs.Engine.Streaming
import EdgeInclude.Proxy.Basic

/-!
# What is sent to a client

A body is read up to a limit before anything is sent, and what has been read is sent in front of
what follows. Nothing is lost or sent twice, wherever the reading stops.

* `Proxy.gather_eq`, `Proxy.gather_nil` — what has been read and what follows are the body; the
  limit is exceeded if and only if the body is longer.
* `Proxy.stream_eq`, `Proxy.streamRest_eq` — what an injector writes for all chunks is sent, and
  counted.
* `Proxy.send_eq` — what is sent by a plan: nothing, or header fields and then a body.
* `Proxy.sendsGathered` — all that can become of a body that is collected.
-/

namespace EdgeInclude

theorem Engine.countInjected_zero {σ : Type} (s : Engine.State σ) : countInjected 0 s = s := by
  obtain ⟨pages, world, requests, bytes⟩ := s
  obtain ⟨fromOrigin, injected, toClient⟩ := bytes
  have hzero : injected + UInt64.ofNat 0 = injected := UInt64.add_zero injected
  unfold countInjected ByteCounts.inject
  dsimp only
  rw [hzero]

namespace Proxy

variable {σ : Type} {limit : Nat} {body : Bytes} {x : Exchange}

/-! ## 1. Collecting -/

/-- **Nothing is lost where the collecting stops**, and it stops before the end if and only if the
body is longer than the limit. -/
theorem gather_eq (chunks : List Bytes) (h : body.length ≤ limit) :
    (gather limit body chunks).body ++ (gather limit body chunks).rest.flatten =
        body ++ chunks.flatten ∧
      ((gather limit body chunks).overflow = true ↔ limit < (body ++ chunks.flatten).length) ∧
      ((gather limit body chunks).overflow = false → (gather limit body chunks).rest = []) := by
  induction chunks generalizing body with
  | nil =>
    refine ⟨rfl, ⟨nofun, fun hl => ?_⟩, fun _ => rfl⟩
    rw [List.flatten_nil, List.append_nil] at hl
    omega
  | cons chunk rest ih =>
    unfold gather
    rw [List.flatten_cons, ← List.append_assoc]
    split
    · rename_i hl
      refine ⟨rfl, ⟨fun _ => ?_, fun _ => rfl⟩, nofun⟩
      rw [List.length_append]
      omega
    · rename_i hl
      exact ih (Nat.le_of_not_lt hl)

/-- Collecting from the beginning: within the limit, all of the body is there. -/
theorem gather_nil (limit : Nat) (chunks : List Bytes) :
    (gather limit [] chunks).body ++ (gather limit [] chunks).rest.flatten = chunks.flatten ∧
      ((gather limit [] chunks).overflow = true ↔ limit < chunks.flatten.length) ∧
      ((gather limit [] chunks).overflow = false →
        (gather limit [] chunks).body = chunks.flatten ∧ (gather limit [] chunks).rest = []) := by
  obtain ⟨hread, hover, hrest⟩ := gather_eq chunks (show ([] : Bytes).length ≤ limit by simp)
  refine ⟨hread, hover, fun hfits => ⟨?_, hrest hfits⟩⟩
  rw [hrest hfits, List.flatten_nil, List.append_nil] at hread
  exact hread

/-! ## 2. Sending chunks -/

theorem Exchange.body_nil (x : Exchange) : x.body [] = x := by
  obtain ⟨context, sent⟩ := x
  unfold Exchange.body
  congr 1
  cases sent with
  | none => rfl
  | some r =>
    rw [Option.map_some, List.append_nil]

theorem Exchange.body_body (x : Exchange) (a b : Bytes) : (x.body a).body b = x.body (a ++ b) := by
  obtain ⟨context, sent⟩ := x
  unfold Exchange.body
  dsimp only
  rw [List.length_append, ← Nat.add_assoc]
  congr 1
  cases sent with
  | none => rfl
  | some r =>
    rw [Option.map_some, Option.map_some, Option.map_some, List.append_assoc]

/-- **What is written for chunks is sent.** -/
theorem stream_eq (i : Injector) (x : Exchange) (chunks : List Bytes) :
    stream i x chunks = ((i.writeAll chunks).1, x.body (i.writeAll chunks).2) := by
  induction chunks generalizing i x with
  | nil => exact Prod.ext rfl x.body_nil.symm
  | cons chunk rest ih =>
    show stream (i.write chunk).1 (x.body (i.write chunk).2) rest = _
    rw [ih, Exchange.body_body, Injector.writeAll_cons]

/-- What becomes of a body behind what has been sent of it. -/
def ending (i : Injector) (rest : Arrival) : Except Fault Unit :=
  if rest.breakdown.isSome then .error .read
  else match i.finish with
    | .ok () => .ok ()
    | .error e => .error (.status e.status)

/-- What has been read is sent in front of what follows; whether it is empty is of no matter. -/
theorem streamRest_eq (i : Injector) (first : Bytes) (rest : Arrival) (x : Exchange) :
    streamRest i first rest x =
      (x.body (i.writeAll (first :: rest.chunks)).2,
        ending (i.writeAll (first :: rest.chunks)).1 rest) := by
  have hfirst : i.writeAll (if first.isEmpty then rest.chunks else first :: rest.chunks) =
      i.writeAll (first :: rest.chunks) := by
    cases first with
    | nil => rfl
    | cons b bs => rfl
  unfold streamRest
  rw [stream_eq, hfirst]
  unfold ending
  dsimp only
  split
  · rfl
  · cases ((i.writeAll (first :: rest.chunks)).1).finish <;> rfl

/-! ## 3. Sending by a plan -/

/-- The request of a page that may be processed. -/
def Exchange.processing (x : Exchange) : Exchange :=
  { x with context := { x.context with processed := true } }

/-- The request with what a plan tells for the log. -/
def Exchange.planned (x : Exchange) (p : Plan) : Exchange :=
  { x with context := { x.context with tags := p.tagCount, degraded := p.degraded } }

/-- **What is sent by a plan**: a failure as long as nothing has been sent, else the header fields
of the plan and all that its injector writes. -/
theorem send_eq (p : Plan) (status : Nat) (first : Bytes) (rest : Arrival) (x : Exchange)
    (s : Engine.State σ) : (send p status first rest x s).2 =
      match p.headers, p.injector with
      | .ok h, .ok i =>
        (((x.planned p).head status h).body (i.writeAll (first :: rest.chunks)).2,
          ending (i.writeAll (first :: rest.chunks)).1 rest)
      | .error e, _ | _, .error e => (x.planned p, .error (.status e.status)) := by
  unfold send
  cases p.headers with
  | error e => rfl
  | ok h =>
    cases p.injector with
    | error e => rfl
    | ok i => exact streamRest_eq i first rest _

/-- Sending changes nothing but how many bytes have been put into pages. -/
theorem exists_send_fst (p : Plan) (status : Nat) (first : Bytes) (rest : Arrival) (x : Exchange)
    (s : Engine.State σ) :
    ∃ n, (send p status first rest x s).1 = Engine.countInjected n s := by
  unfold send
  cases p.headers with
  | error e => exact ⟨0, (Engine.countInjected_zero s).symm⟩
  | ok h =>
    cases p.injector with
    | error e => exact ⟨0, (Engine.countInjected_zero s).symm⟩
    | ok i => exact ⟨_, rfl⟩

theorem exists_sendPlanned_fst (p : Plan) (status : Nat) (body : Arrival) (x : Exchange)
    (s : Engine.State σ) :
    ∃ n, (sendPlanned p status body x s).1 = Engine.countInjected n s := by
  unfold sendPlanned
  split
  · exact exists_send_fst ..
  · split
    · exact ⟨0, (Engine.countInjected_zero s).symm⟩
    · exact exists_send_fst ..

/-- Sending leaves pages and backends as they are. -/
theorem pages_send (p : Plan) (status : Nat) (first : Bytes) (rest : Arrival) (x : Exchange)
    (s : Engine.State σ) : (send p status first rest x s).1.pages = s.pages := by
  obtain ⟨n, hn⟩ := exists_send_fst p status first rest x s
  rw [hn]
  rfl

theorem pages_sendPlanned (p : Plan) (status : Nat) (body : Arrival) (x : Exchange)
    (s : Engine.State σ) : (sendPlanned p status body x s).1.pages = s.pages := by
  obtain ⟨n, hn⟩ := exists_sendPlanned_fst p status body x s
  rw [hn]
  rfl

/-! ## 4. Sending a body that is collected -/

/-- The engine when what has been collected of a body is counted. -/
def collected (e : Engine) (body : Arrival) (s : Engine.State σ) : Engine.State σ :=
  { s with bytes := s.bytes.origin (gather e.config.maxBody [] body.chunks).body.length }

/-- What can become of a body that is collected for a plan. -/
inductive SendsGathered (e : Engine) (o : Surroundings σ) (p : Plan) (r : Request) (status : Nat)
    (body : Arrival) (x : Exchange) (s : Engine.State σ) :
    Engine.State σ × Exchange × Except Fault Unit → Prop where
  | broken : SendsGathered e o p r status body x s (s, x, .error .read)
  /-- It exceeds the limit, and goes out unchanged. -/
  | exceeding (exceeds : e.config.maxBody < body.chunks.flatten.length) :
      SendsGathered e o p r status body x s
        (send p.bypass status (gather e.config.maxBody [] body.chunks).body
          { body with chunks := (gather e.config.maxBody [] body.chunks).rest } x
          (collected e body s))
  | failed {t : Engine.State σ} {err : Failure}
      (planned : e.completePlan o p r body.chunks.flatten .never (collected e body s) =
        (t, .error err)) :
      SendsGathered e o p r status body x s (t, x, .error (.status err.status))
  /-- All of it is there. -/
  | sent {t : Engine.State σ} {q : Plan} (complete : body.breakdown = none)
      (planned : e.completePlan o p r body.chunks.flatten .never (collected e body s) =
        (t, .ok q)) :
      SendsGathered e o p r status body x s
        (send q status body.chunks.flatten ⟨[], none⟩ x t)

/-- **Nothing else becomes of it.** -/
theorem sendsGathered (e : Engine) (o : Surroundings σ) (p : Plan) (r : Request) (status : Nat)
    (body : Arrival) (x : Exchange) (s : Engine.State σ) :
    SendsGathered e o p r status body x s (sendGathered e o p r status body x s) := by
  obtain ⟨-, hover, hall⟩ := gather_nil e.config.maxBody body.chunks
  unfold sendGathered
  dsimp only
  cases hfits : (gather e.config.maxBody [] body.chunks).overflow with
  | true => exact .exceeding (hover.1 hfits)
  | false =>
    rw [Bool.not_false, Bool.true_and, if_neg Bool.false_ne_true]
    split
    · exact .broken
    · rename_i hread
      have hend : body.breakdown = none := Option.not_isSome_iff_eq_none.1 hread
      obtain ⟨hbody, hrest⟩ := hall hfits
      rw [hbody, hrest, hend]
      have hplan : e.completePlan o p r body.chunks.flatten departure
          { s with bytes := s.bytes.origin body.chunks.flatten.length } =
            e.completePlan o p r body.chunks.flatten .never (collected e body s) := by
        rw [collected, hbody, departure_eq_never]
      rw [hplan]
      split
      · rename_i hp
        exact .failed hp
      · rename_i hp
        exact .sent hend hp

end Proxy

end EdgeInclude

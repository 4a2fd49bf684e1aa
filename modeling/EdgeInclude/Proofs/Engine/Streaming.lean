import EdgeInclude.Proofs.Engine.Fields
import EdgeInclude.Proofs.Engine.Process
import EdgeInclude.Proofs.Resolver.Spans
import EdgeInclude.Proofs.Splice.Stream

/-!
# A page in chunks is the page as a whole

A page can go out while its body arrives: its plan is made first, and then every chunk is written on
its own. Text or binary is told by the first chunk here and by the whole body there, and pages
without tags go through the replacements here and not there; none of this can be seen from outside.

* `Engine.stream`, `Plan.send` — a page in chunks, from its plan to its last byte.
* `Payload.looksLikeText_of_prefix` — what begins a text is text.
* `Plan.send_of_bypass`, `Plan.send_of_ready` — what goes out by a plan.
* `Engine.Kept.fits` — a page that was kept when a body was processed fits this body.
* `Engine.stream_eq_process` — the page in chunks against the page as a whole.
-/

namespace EdgeInclude

/-! ## 1. The first chunk -/

/-- What begins a text is text. -/
theorem Payload.looksLikeText_of_prefix {head body : Bytes} (h : head <+: body)
    (ht : looksLikeText body = true) : looksLikeText head = true := by
  have hp : head.take sniffLength <+: body.take sniffLength := by
    obtain ⟨rest, rfl⟩ := h
    rw [List.take_append]
    exact List.prefix_append _ _
  unfold looksLikeText at ht ⊢
  simp only [Bool.and_eq_true, Bool.not_eq_true', List.any_eq_false, List.isPrefixOf_iff_prefix,
    List.contains_eq_mem, decide_eq_false_iff_not] at ht ⊢
  exact ⟨fun s hs hsp => ht.1 s hs (hsp.trans hp), fun hz => ht.2 (hp.subset hz)⟩

/-- The first chunk that is not empty; the empty one, if there is none. -/
def firstChunk (chunks : List Bytes) : Bytes := (chunks.find? fun c => !c.isEmpty).getD []

variable {chunks : List Bytes}

theorem isPrefix_firstChunk (chunks : List Bytes) : firstChunk chunks <+: chunks.flatten := by
  induction chunks with
  | nil => exact List.prefix_rfl
  | cons c rest ih =>
    cases c with
    | nil => exact ih
    | cons b bs => exact List.prefix_append (b :: bs) rest.flatten

theorem looksLikeText_firstChunk (chunks : List Bytes) :
    Payload.looksLikeText (firstChunk chunks) = Injector.beginsAsText chunks := by
  unfold firstChunk Injector.beginsAsText
  cases chunks.find? fun c => !c.isEmpty with
  | none => rfl
  | some c => rfl

theorem isEmpty_firstChunk (h : Injector.beginsAsText chunks = false) :
    (firstChunk chunks).isEmpty = false := by
  rw [← looksLikeText_firstChunk] at h
  cases hc : firstChunk chunks with
  | nil =>
    rw [hc] at h
    cases h
  | cons b bs => rfl

/-- A page that is text begins as text, however it is cut. -/
theorem beginsAsText_of_looksLikeText (h : Payload.looksLikeText chunks.flatten = true) :
    Injector.beginsAsText chunks = true := by
  rw [← looksLikeText_firstChunk]
  exact Payload.looksLikeText_of_prefix (isPrefix_firstChunk chunks) h

/-! ## 2. Sending -/

/-- A page that goes out in chunks. -/
structure Streamed where
  headers : Headers
  body : Bytes
  /-- The number of replacements. -/
  tags : Nat
  degraded : Bool
  /-- What comes after the header fields and the bytes of the body: a failure, or the end. -/
  ending : Except Failure Unit

/-- What goes out by a plan: the header fields, then what is written for each chunk. It is a failure
only as long as nothing has gone out. -/
def Plan.send (p : Plan) (chunks : List Bytes) : Except Failure Streamed := do
  let p := p.observe (firstChunk chunks)
  let headers ← p.headers
  match p.injector with
  | .error err => return ⟨headers, [], p.tagCount, p.degraded, .error err⟩
  | .ok i =>
    let (i, out) := i.writeAll chunks
    return ⟨headers, out, p.tagCount, p.degraded, i.finish⟩

/-- A page that is processed as a whole, as it goes out. -/
def Served.streamed (page : Served) : Streamed :=
  ⟨page.headers, page.body, page.tags, page.degraded, .ok ()⟩

namespace Plan

variable {p : Plan} {tags : Replacements} {returned : Headers}

theorem origin_observe (p : Plan) (chunk : Bytes) : (p.observe chunk).origin = p.origin := by
  unfold observe
  split
  · split <;> rfl
  · rfl

theorem degraded_observe (p : Plan) (chunk : Bytes) :
    (p.observe chunk).degraded = p.degraded := by
  unfold observe
  split
  · split <;> rfl
  · rfl

theorem observe_of_bypass (h : p.state = .bypass) (chunk : Bytes) : p.observe chunk = p := by
  unfold observe
  rw [h]

theorem observe_of_text {chunk : Bytes} (h : Payload.looksLikeText chunk = true) :
    p.observe chunk = p := by
  unfold observe
  rw [h, Bool.not_true, Bool.and_false]
  split <;> rfl

/-- A page that passes unchanged goes out as it came. -/
theorem send_of_bypass (h : p.state = .bypass) (chunks : List Bytes) :
    p.send chunks = .ok ⟨p.origin, chunks.flatten, 0, p.degraded, .ok ()⟩ := by
  obtain ⟨origin, state, degraded⟩ := p
  cases h
  obtain ⟨ha, hout⟩ := Injector.writeAll_of_bypass (i := .passing) rfl chunks
  have hf : (Injector.passing.writeAll chunks).1.finish = .ok () :=
    Injector.finish_of_bypass ha.mode_eq
  show Except.ok (Streamed.mk origin (Injector.passing.writeAll chunks).2 0 degraded
    (Injector.passing.writeAll chunks).1.finish) = _
  rw [hout, hf]

/-- What goes out by a plan with replacements, for a page that begins as text. -/
theorem send_of_ready (h : p.state = .ready tags returned)
    (ht : Injector.beginsAsText chunks = true) :
    p.send chunks = (headersWith p.origin tags returned).map fun fields =>
      ⟨fields, patched tags.patches 0 chunks.flatten, tags.length, p.degraded,
        ((Injector.new tags).writeAll chunks).1.finish⟩ := by
  obtain ⟨-, -, -, -, hout⟩ := Injector.writeAll_new_of_text tags ht
  have hobs : p.observe (firstChunk chunks) = p :=
    observe_of_text ((looksLikeText_firstChunk chunks).trans ht)
  obtain ⟨origin, state, degraded⟩ := p
  cases h
  unfold send
  rw [hobs, ← hout]
  show (headersWith origin tags returned >>= fun fields => _) = _
  cases headersWith origin tags returned <;> rfl

/-- A plan with replacements lets a page pass that does not begin as text. -/
theorem send_of_binary (h : p.state ≠ .pending) (ht : Injector.beginsAsText chunks = false) :
    p.send chunks = .ok ⟨p.origin, chunks.flatten, 0, p.degraded, .ok ()⟩ := by
  have hb : (p.observe (firstChunk chunks)).state = .bypass := by
    unfold observe
    split
    · rw [looksLikeText_firstChunk, ht, isEmpty_firstChunk ht]
      rfl
    · rename_i hs
      cases hp : p.state with
      | pending => exact absurd hp h
      | ready tags returned => exact absurd hp (hs tags returned)
      | bypass => rfl
  have hsend : p.send chunks = (p.observe (firstChunk chunks)).send chunks := by
    unfold send
    rw [observe_of_bypass hb]
  rw [hsend, send_of_bypass hb, origin_observe, degraded_observe]

end Plan

/-! ## 3. Kept pages -/

namespace Engine

variable {σ : Type} {e : Engine} {o : Surroundings σ} {r : Request} {origin : Headers}
  {body : Bytes} {d : Departure} {s : State σ} {page : ParsedPage} {res : Resolution}

/-- Of all that is done for a whole body, only loading its tags changes the pages that are kept. -/
theorem pages_process (e : Engine) (o : Surroundings σ) (r : Request) (origin : Headers)
    (body : Bytes) (d : Departure) (s : State σ) : (e.process o r origin body d s).1.pages =
      if Payload.looksLikeText body then (s.pages.load (e.fingerprint r) body).1 else s.pages := by
  unfold process
  dsimp only
  cases ht : Payload.looksLikeText body with
  | false => rfl
  | true =>
    rw [if_neg (by simp), if_pos rfl]
    have hl : (e.load r body { s with bytes := s.bytes.origin body.length }).1.pages =
        (s.pages.load (e.fingerprint r) body).1 := rfl
    split
    · rename_i hp
      rw [hp] at hl
      split <;> exact hl
    · rename_i hp
      rw [hp] at hl
      split
      · exact hl
      · exact (pages_finish ..).trans hl

theorem pages_completePlan (e : Engine) (o : Surroundings σ) (p : Plan) (r : Request)
    (body : Bytes) (d : Departure) (s : State σ) : (e.completePlan o p r body d s).1.pages =
      if !p.isReady && Payload.looksLikeText body then (s.pages.load (e.fingerprint r) body).1
      else s.pages := by
  unfold completePlan
  cases p.isReady with
  | true => rfl
  | false =>
    cases ht : Payload.looksLikeText body with
    | false => rfl
    | true =>
      rw [if_neg Bool.false_ne_true, if_neg (by simp)]
      have hl : (e.load r body s).1.pages = (s.pages.load (e.fingerprint r) body).1 := rfl
      split
      · rename_i hp
        rw [hp] at hl
        split <;> exact hl
      · rename_i hp
        rw [hp] at hl
        exact hl

/-- Making a plan counts no bytes. -/
theorem bytes_completePlan (e : Engine) (o : Surroundings σ) (p : Plan) (r : Request)
    (body : Bytes) (d : Departure) (s : State σ) :
    (e.completePlan o p r body d s).1.bytes = s.bytes := by
  unfold completePlan
  split
  · rfl
  · split
    · rfl
    · have hl : (e.load r body s).1.bytes = s.bytes := rfl
      split
      · rename_i hp
        rw [hp] at hl
        split <;> exact hl
      · rename_i hp
        rw [hp] at hl
        exact hl

/-- A page that was not kept before a body was processed, and was kept after it. What lay around the
engine then need not be what lies around it now. -/
inductive Kept (e : Engine) (fp : Fingerprint) (body : Bytes) (page : ParsedPage) : Prop where
  | processed {τ : Type} {o : Surroundings τ} {r : Request} {origin : Headers} {d : Departure}
      {s : State τ} (ready : s.IsReady e) (own : e.fingerprint r = fp)
      (before : (s.pages.peek fp).2 ≠ some page)
      (after : ((e.process o r origin body d s).1.pages.peek fp).2 = some page) :
      Kept e fp body page
  | completed {τ : Type} {o : Surroundings τ} {p : Plan} {r : Request} {d : Departure}
      {s : State τ} (ready : s.IsReady e) (own : e.fingerprint r = fp)
      (before : (s.pages.peek fp).2 ≠ some page)
      (after : ((e.completePlan o p r body d s).1.pages.peek fp).2 = some page) :
      Kept e fp body page

/-- **A page that was kept when a body was processed fits this body**, and the body is text. -/
theorem Kept.fits {fp : Fingerprint} (h : e.Kept fp body page) :
    Payload.looksLikeText body = true ∧ page.tags.fits body = true := by
  have hload : ∀ {t : PageStore}, t.pool.IsFresh e.config.maxTag → (t.peek fp).2 ≠ some page →
      ((t.load fp body).1.peek fp).2 = some page → page.tags.fits body = true :=
    fun hr hb ha => by
      obtain ⟨tags, hscan, hp⟩ := PageStore.tags_of_peek_load hr hb ha
      rw [hp]
      exact Page.fits_ofTags hscan
  cases h with
  | processed ready own before after =>
    rw [pages_process, own] at after
    split at after
    · rename_i ht
      exact ⟨ht, hload ready before after⟩
    · exact absurd after before
  | completed ready own before after =>
    rw [pages_completePlan, own] at after
    split at after
    · rename_i ht
      exact ⟨(Bool.and_eq_true_iff.1 ht).2, hload ready before after⟩
    · exact absurd after before

/-! ## 4. The page in chunks -/

/-- A page in chunks, from its plan to its last byte; the plan waits for the whole body if the tags
of the page are not known before. -/
def stream (e : Engine) (o : Surroundings σ) (r : Request) (origin : Headers) (chunks : List Bytes)
    (d : Departure) (s : State σ) : State σ × Except Failure Streamed :=
  match e.beginStream o r origin d s with
  | (s, .error err) => (s, .error err)
  | (s, .ok p) =>
    let (s, p) := e.completePlan o p r chunks.flatten d s
    (s, p.bind (·.send chunks))

/-- A plan is made at once for a page that is kept. -/
theorem stream_of_kept (hm : r.method ≠ Request.head)
    (hp : (s.pages.peek (e.fingerprint r)).2 = some page) :
    (e.stream o r origin chunks d s).2 =
      ((e.resolver.resolveAll o page.id page.tags r d s.world).2.map
        (Plan.pending origin).resolve).bind (·.send chunks) := by
  have hm' : (r.method == Request.head) = false := beq_eq_false_iff_ne.2 hm
  -- the plan is complete, so that its completion leaves it as it is
  have hbegin : ∃ t, e.beginStream o r origin d s =
      (t, (e.resolver.resolveAll o page.id page.tags r d s.world).2.map
        (Plan.pending origin).resolve) := by
    unfold beginStream
    rw [hm', if_neg Bool.false_ne_true]
    cases hk : s.pages.peek (e.fingerprint r) with
    | mk pages found =>
      rw [hk] at hp
      cases hp
      exact ⟨_, rfl⟩
  obtain ⟨t, ht⟩ := hbegin
  unfold stream
  rw [ht]
  cases (e.resolver.resolveAll o page.id page.tags r d s.world).2 with
  | error err => rfl
  | ok res => rfl

/-- The plan waits for the body of a page that is not kept. -/
theorem stream_of_new (hm : r.method ≠ Request.head)
    (hp : (s.pages.peek (e.fingerprint r)).2 = none) :
    (e.stream o r origin chunks d s).2 =
      (e.completePlan o (.pending origin) r chunks.flatten d
        { s with pages := (s.pages.peek (e.fingerprint r)).1 }).2.bind (·.send chunks) := by
  have hm' : (r.method == Request.head) = false := beq_eq_false_iff_ne.2 hm
  unfold stream beginStream
  rw [hm', if_neg Bool.false_ne_true]
  cases hk : s.pages.peek (e.fingerprint r) with
  | mk pages found =>
    rw [hk] at hp
    cases hp
    rfl

/-- The plan of a page that has no plan yet, once its body is complete. -/
theorem completePlan_of_pending (ht : Payload.looksLikeText body = true) :
    (e.completePlan o (.pending origin) r body d s).2 =
      match (s.pages.load (e.fingerprint r) body).2 with
      | .error err => if isMalformed err then .ok (Plan.pending origin).degrade else .error err
      | .ok page => (e.resolver.resolveAll o page.id page.tags r d s.world).2.map
          (Plan.pending origin).resolve := by
  unfold completePlan load
  rw [if_neg (by exact Bool.false_ne_true), ht, if_neg (by simp)]
  cases s.pages.load (e.fingerprint r) body with
  | mk pages result =>
    cases result with
    | error err =>
      dsimp only
      split <;> rfl
    | ok page => rfl

/-- A page whose body cannot be scanned passes unchanged, or fails. -/
theorem process_of_failure {err : Failure} (ht : Payload.looksLikeText body = true)
    (hl : (s.pages.load (e.fingerprint r) body).2 = .error err) :
    (e.process o r origin body d s).2 =
      if isMalformed err then .ok (unchanged origin body true) else .error err := by
  have hload : e.load r body { s with bytes := s.bytes.origin body.length } =
      (e.opened r body s, .error err) := Prod.ext rfl hl
  unfold process
  rw [ht, Bool.not_true, if_neg Bool.false_ne_true, hload]
  dsimp only
  split <;> rfl

theorem finish_snd (origin : Headers) (body : Bytes) (result : Except Failure Resolution)
    (s : State σ) : (finish origin body result s).2 = result.bind (build origin body) := by
  unfold finish
  cases result with
  | error err => rfl
  | ok res =>
    dsimp only
    cases hb : build origin body res with
    | error err => exact hb.symm
    | ok page => exact hb.symm

/-- What is put into a page lies in every body that the page fits. -/
theorem stop_le_of_fits (hf : page.tags.fits body = true) {w : World σ}
    (h : (e.resolver.resolveAll o page.id page.tags r d w).2 = .ok res) :
    ∀ a ∈ res.tags.items, a.stop ≤ body.length := by
  intro a ha
  obtain ⟨t, ht, -, hstop⟩ := Resolver.exists_tag_of_mem h ha
  have hfit : t.fits body = true := List.all_eq_true.1 hf t ht
  rw [hstop]
  exact (RawTag.fits_iff.1 hfit).1

/-- **Sending by a plan is putting the page together**, for text that all replacements lie in. -/
theorem send_resolve (ht : Payload.looksLikeText chunks.flatten = true)
    (hl : ∀ a ∈ res.tags.items, a.stop ≤ chunks.flatten.length) (origin : Headers) :
    ((Plan.pending origin).resolve res).send chunks =
      (build origin chunks.flatten res).map Served.streamed := by
  have hbegin := beginsAsText_of_looksLikeText ht
  obtain ⟨hon, htags, -, hpos, -⟩ := Injector.writeAll_new_of_text res.tags hbegin
  have hend : ((Injector.new res.tags).writeAll chunks).1.finish = .ok () :=
    hon.finish_ok (by rwa [htags, hpos])
  rw [Plan.send_of_ready rfl hbegin, hend]
  unfold build
  rw [inject_of_fits hl]
  show (headersWith origin res.tags res.headers).map _ = _
  cases headersWith origin res.tags res.headers <;> rfl

/-- What goes out by the plan of a page is the page that goes out as a whole. A page without tags
comes out of an empty plan as it came. -/
theorem send_resolved (ht : Payload.looksLikeText chunks.flatten = true)
    (hf : page.tags.fits chunks.flatten = true) (hd : DeclaresPlainly origin) (w : World σ)
    (s : State σ) :
    (((e.resolver.resolveAll o page.id page.tags r d w).2.map (Plan.pending origin).resolve).bind
        (·.send chunks)) =
      (if page.tags.isEmpty then .ok (unchanged origin chunks.flatten false)
        else (finish origin chunks.flatten
          (e.resolver.resolveAll o page.id page.tags r d w).2 s).2).map Served.streamed := by
  by_cases hempty : page.tags.isEmpty = true
  · rw [if_pos hempty, List.isEmpty_iff.1 hempty, Resolver.resolveAll_nil]
    show ((Plan.pending origin).resolve ⟨.empty, .empty, 0⟩).send chunks = _
    rw [send_resolve ht (fun _ ha => absurd ha List.not_mem_nil)]
    unfold build
    rw [inject_of_fits (fun _ ha => absurd ha List.not_mem_nil), headersWith_empty hd]
    show Except.ok (Streamed.mk origin (patched [] 0 chunks.flatten) 0 false (.ok ())) = _
    rw [patched_nil]
    rfl
  · rw [if_neg hempty, finish_snd]
    have hstop := @stop_le_of_fits σ e o r chunks.flatten d page
    cases hr : (e.resolver.resolveAll o page.id page.tags r d w).2 with
    | error err => rfl
    | ok res => exact send_resolve ht (hstop hf hr) origin

/-- A binary page goes out as it came. -/
theorem process_of_binary (ht : Payload.looksLikeText body = false) :
    (e.process o r origin body d s).2 = .ok (unchanged origin body false) := by
  unfold process
  rw [ht]
  rfl

/-- The plan of a binary page that has no plan yet. -/
theorem completePlan_of_binary (ht : Payload.looksLikeText body = false) :
    (e.completePlan o (.pending origin) r body d s).2 = .ok (.passing origin) := by
  unfold completePlan
  rw [if_neg (by exact Bool.false_ne_true), ht]
  rfl

/-- A page that is not kept goes out in chunks as it does as a whole. -/
theorem stream_of_none (hready : s.IsReady e) (hm : r.method ≠ Request.head)
    (hd : DeclaresPlainly origin) (hp : (s.pages.peek (e.fingerprint r)).2 = none) :
    (e.stream o r origin chunks d s).2 =
      (e.process o r origin chunks.flatten d s).2.map Served.streamed := by
  rw [stream_of_new hm hp]
  cases ht : Payload.looksLikeText chunks.flatten with
  | false =>
    rw [completePlan_of_binary ht, process_of_binary ht]
    exact Plan.send_of_bypass rfl chunks
  | true =>
    rw [completePlan_of_pending ht, PageStore.load_peek hp]
    cases hl : (s.pages.load (e.fingerprint r) chunks.flatten).2 with
    | error err =>
      rw [process_of_failure ht hl]
      dsimp only
      split
      · exact Plan.send_of_bypass rfl chunks
      · rfl
    | ok page =>
      have hf := PageStore.fits_of_load hready hl
      rw [process_of_load ht hl]
      dsimp only
      rw [send_resolved ht hf hd s.world
        (e.resolveAll o page r d (e.opened r chunks.flatten s)).1]
      split <;> rfl

/-- A page that is kept and fits the body goes out in chunks as it does as a whole. -/
theorem stream_of_fits (hm : r.method ≠ Request.head) (hd : DeclaresPlainly origin)
    (hp : (s.pages.peek (e.fingerprint r)).2 = some page)
    (ht : Payload.looksLikeText chunks.flatten = true)
    (hf : page.tags.fits chunks.flatten = true) :
    (e.stream o r origin chunks d s).2 =
      (e.process o r origin chunks.flatten d s).2.map Served.streamed := by
  have hl : (s.pages.load (e.fingerprint r) chunks.flatten).2 = .ok page := by
    rw [PageStore.load_of_fits hp hf]
  rw [stream_of_kept hm hp, process_of_load ht hl, send_resolved ht hf hd s.world
    (e.resolveAll o page r d (e.opened r chunks.flatten s)).1]
  split <;> rfl

/-- **A page in chunks is the page as a whole**, for every body and however it is cut: the same
header fields, the same bytes, as many replacements, an end without failure, and the same failure
otherwise, which comes before anything goes out. The origin declares at most one length, in plain
form and below 2^63, and a page that is kept for the request has been kept when this body was
processed. -/
theorem stream_eq_process (e : Engine) (o : Surroundings σ) (r : Request) (origin : Headers)
    (chunks : List Bytes) (d : Departure) (s : State σ) (hready : s.IsReady e)
    (hmethod : r.method ≠ Request.head) (hdeclares : DeclaresPlainly origin)
    (hkept : ∀ page, (s.pages.peek (e.fingerprint r)).2 = some page →
      e.Kept (e.fingerprint r) chunks.flatten page) :
    (e.stream o r origin chunks d s).2 =
      (e.process o r origin chunks.flatten d s).2.map Served.streamed := by
  cases hp : (s.pages.peek (e.fingerprint r)).2 with
  | none => exact stream_of_none hready hmethod hdeclares hp
  | some page =>
    obtain ⟨ht, hf⟩ := (hkept page hp).fits
    exact stream_of_fits hmethod hdeclares hp ht hf

namespace Sample

/-- What the origin says of the page. -/
def declared : Headers := Headers.empty.insert lengthField (lengthValue 95)

/-- The page, cut inside of two of its tags. -/
def cut : List Bytes := [[], source.take 5, source.drop 5 |>.take 70, source.drop 75]

/-- The engine after the page has gone out as a whole. -/
def later : State Unit := (engine.process outside request declared source .never state).1

end Sample

open Sample in
theorem stream_sample :
    (later.pages.peek (engine.fingerprint request)).2.isSome ∧
      (engine.stream outside request declared cut .never later).2 =
        .ok ⟨declared.insert lengthField (lengthValue 6), Text.utf8 "ab+c!d".toList, 3, false,
          .ok ()⟩ := by
  have hrun : (engine.process outside request declared cut.flatten .never later).2.toOption =
      some ⟨Text.utf8 "ab+c!d".toList, declared.insert lengthField (lengthValue 6), 3, 1,
        false⟩ := by
    decide +kernel
  refine ⟨by decide +kernel, ?_⟩
  rw [stream_eq_process engine outside request declared cut .never later
    (isReady_process (isReady_start ..) ..) (by decide) (.length 95 (by decide +kernel) (by decide))
    fun page hp => .processed (isReady_start engine () _ 1) rfl (fun hb => by cases hb) hp]
  cases hp : (engine.process outside request declared cut.flatten .never later).2 with
  | error err =>
    rw [hp] at hrun
    cases hrun
  | ok page =>
    rw [hp] at hrun
    cases hrun
    rfl

end Engine

end EdgeInclude

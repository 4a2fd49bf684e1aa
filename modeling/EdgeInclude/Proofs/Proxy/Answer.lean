import EdgeInclude.Proofs.Engine.ContentLength
import EdgeInclude.Proofs.Http.Values
import EdgeInclude.Proofs.Proxy.Sending

/-!
# What a client is answered

A page is fetched from the origin and answered in one of many ways: as it came, because it may not
be processed or is too large; with a plan that was known before its body; with a plan that needs the
body. The client cannot tell the last two from a page that is processed as a whole.

* `Proxy.Receives` — a client gets a reply, all of it, and it is counted.
* `Proxy.fetched` — the engine when the answer of the origin has come.
* `Engine.exists_process`, `Engine.process_of_page` — the page that goes out for a body, and the
  plan that it goes out by.
* `Proxy.pages_answer`, `Proxy.isReady_filter` — what is left behind an answer.
* `Proxy.KeptThrough` — a page that an earlier request through the proxy has left behind.
* `Proxy.filter_answers` — what is answered.
-/

namespace EdgeInclude

/-! ## 1. Lengths -/

theorem declaredLength?_strip (h : Headers) : declaredLength? (Hop.strip h) = declaredLength? h :=
  declaredLength?_congr ((h.getAll_filterNames _ lengthField).trans (if_pos (by decide)))

/-- The length that is declared is that of a body, if one is declared. -/
def Honest (h : Headers) (body : Bytes) : Prop :=
  ∀ n, declaredLength? h = some n → n.toNat = body.length

theorem Honest.strip {h : Headers} {body : Bytes} (hh : Honest h body) :
    Honest (Hop.strip h) body := fun n hn => hh n ((declaredLength?_strip h).symm.trans hn)

/-- **What goes out is as honest as what has come.** -/
theorem GoesOut.honest {origin fields : Headers} {page out : Bytes}
    (h : GoesOut origin page fields out) (hh : Honest origin page) (ho : out.length < 2 ^ 64) :
    Honest fields out := by
  cases h with
  | unchanged => exact hh
  | @replaced tags returned fields ok =>
    intro m hm
    cases hd : declaredLength? origin with
    | none =>
      rw [headersWith_of_none hd] at ok
      cases ok
      rw [declaredLength?_congr (getAll_length_appendAll origin returned), hd] at hm
      cases hm
    | some n =>
      obtain ⟨m', ha, hlen⟩ := getAll_length_of_headersWith hd ok
      rw [declaredLength?_of_getAll hlen] at hm
      cases hm
      exact Replacements.toNat_of_adjust ha (hh n hd) ho

/-- A length is adjusted if it covers all replacements and a word with a sign holds the result. -/
theorem Replacements.exists_adjust_of_short {tags : Replacements} {page : Bytes} {n : UInt64}
    (hn : n.toNat = page.length) (hl : ∀ a ∈ tags.items, a.stop ≤ page.length)
    (hs : (patched tags.patches 0 page).length < 2 ^ 63) : ∃ m, tags.adjust n = .ok m := by
  have hword : n.toInt64 + tags.delta = Int64.ofNat (patched tags.patches 0 page).length := by
    rw [ofNat_length_eq hl, ← hn, ← UInt64.toInt64_ofNat', UInt64.ofNat_toNat]
  have hsettle : adjust.settle tags n = .ok (n.toInt64 + tags.delta).toUInt64 := by
    have hpos : ¬ n.toInt64 + tags.delta < 0 := by
      rw [hword, Int64.lt_iff_toInt_lt, Int64.toInt_ofNat_of_lt hs]
      show ¬ (_ : Int) < 0
      omega
    unfold adjust.settle
    dsimp only
    rw [if_neg hpos]
  unfold adjust
  split
  · rename_i last hlast
    have hstop := hl last (List.mem_of_getLast? hlast)
    rw [if_neg (by omega)]
    exact ⟨_, hsettle⟩
  · exact ⟨_, hsettle⟩

theorem exists_headersWith_of_short {origin : Headers} {tags : Replacements} {page : Bytes}
    (hh : Honest origin page) (hl : ∀ a ∈ tags.items, a.stop ≤ page.length)
    (hs : (patched tags.patches 0 page).length < 2 ^ 63) (returned : Headers) :
    ∃ fields, headersWith origin tags returned = .ok fields := by
  cases hd : declaredLength? origin with
  | none => exact ⟨_, headersWith_of_none hd⟩
  | some n =>
    obtain ⟨m, hm⟩ := Replacements.exists_adjust_of_short (hh n hd) hl hs
    rw [headersWith_of_some hd, hm]
    exact ⟨_, rfl⟩

/-! ## 2. Plans and whole pages -/

namespace Engine

variable {σ : Type} {e : Engine} {o : Surroundings σ} {r : Request} {origin : Headers}
  {body : Bytes} {s : State σ} {page : ParsedPage}

/-- With its replacements, a page would have more bytes than a word with a sign can count. -/
def Outgrows (e : Engine) (o : Surroundings σ) (r : Request) (body : Bytes) (s : State σ) : Prop :=
  ∃ page res, (s.pages.load (e.fingerprint r) body).2 = .ok page ∧
    (e.resolveAll o page r .never s).2 = .ok res ∧
    2 ^ 63 ≤ (patched res.tags.patches 0 body).length

/-- A plan that what goes out for a page as a whole can go out by: it passes the page unchanged, or
puts the same replacements into it. -/
inductive SuitedBy (origin : Headers) (body : Bytes) : Plan → Served → Prop where
  | passing {p : Plan} {out : Served} (bypassed : p.state = .bypass) (own : p.origin = origin)
      (same : out.body = body) : SuitedBy origin body p out
  | replacing {out : Served} {res : Resolution} {fields : Headers}
      (text : Payload.looksLikeText body = true)
      (inside : ∀ a ∈ res.tags.items, a.stop ≤ body.length)
      (ok : headersWith origin res.tags res.headers = .ok fields)
      (same : out.body = patched res.tags.patches 0 body) (short : out.body.length < 2 ^ 63) :
      SuitedBy origin body ((Plan.pending origin).resolve res) out

variable (origin) in
/-- The page of a body whose tags are known, and the plan for it. -/
theorem process_of_page (hg : e.registry.NeverCancels o) (hh : Honest origin body)
    (ht : Payload.looksLikeText body = true)
    (hl : (s.pages.load (e.fingerprint r) body).2 = .ok page) {tags : List RawTag}
    (hscan : scan e.config.maxTag body = .ok tags) (hp : page.tags = Page.ofTags tags)
    (hsize : ¬ e.Outgrows o r body s) :
    ∃ res out, (e.resolver.resolveAll o page.id page.tags r .never s.world).2 = .ok res ∧
      (e.process o r origin body .never s).2 = .ok out ∧
      SuitedBy origin body ((Plan.pending origin).resolve res) out := by
  obtain ⟨hpair, hin⟩ := scan_spans hscan
  have hraws : page.tags.raws = tags := by rw [hp, Page.raws_ofTags]
  obtain ⟨res, -, hres, -⟩ :=
    @Resolver.exists_resolveAll _ e.resolver o hg page.id page.tags r s.world
      (by rw [hraws]; exact hpair) (by rw [hraws]; exact fun t ht => (hin t ht).start_lt_stop)
  have hinside : ∀ a ∈ res.tags.items, a.stop ≤ body.length := by
    intro a ha
    obtain ⟨t, ht, -, hstop⟩ := Resolver.exists_tag_of_mem hres ha
    rw [hraws] at ht
    exact hstop ▸ (hin t ht).stop_le
  have hshort : (patched res.tags.patches 0 body).length < 2 ^ 63 :=
    Nat.lt_of_not_le fun hlen => hsize ⟨page, res, hl, hres, hlen⟩
  obtain ⟨fields, hfields⟩ := exists_headersWith_of_short hh hinside hshort res.headers
  rw [process_of_load ht hl]
  by_cases hempty : page.tags.isEmpty = true
  · -- without tags, what goes out by the plan is the body
    have hnone : res = ⟨.empty, .empty, 0⟩ := by
      rw [List.isEmpty_iff.1 hempty, Resolver.resolveAll_nil] at hres
      exact (Except.ok.inj hres).symm
    have hbody : body = patched res.tags.patches 0 body := by
      rw [hnone]
      exact (patched_nil 0 body).symm
    rw [if_pos hempty]
    exact ⟨res, unchanged origin body false, hres, rfl,
      .replacing ht hinside hfields hbody (by rw [← hbody] at hshort; exact hshort)⟩
  · rw [if_neg hempty, finish_snd]
    have hworld : (e.resolveAll o page r .never (e.opened r body s)).2 = .ok res := hres
    rw [hworld]
    refine ⟨res, ⟨patched res.tags.patches 0 body, fields, res.tags.length, res.fallbacks, false⟩,
      hres, ?_, .replacing ht hinside hfields rfl hshort⟩
    show build origin body res = _
    unfold build
    rw [hfields, inject_of_fits hinside]
    rfl

theorem isMalformed_of_scan {maxSize : Nat} {err : Failure} (h : scan maxSize body = .error err) :
    isMalformed err = true := by
  obtain ⟨cs, hr⟩ := RawTag.exists_reads body 0
  rw [scan_eq_verdict hr] at h
  obtain ⟨-, c, -, -, -, -, rfl⟩ := RawTag.verdict_eq_error_iff.1 h
  rfl

/-- **The page of a body that is new, and the plan for it.** -/
theorem exists_process (hready : s.IsReady e) (hg : e.registry.NeverCancels o)
    (hh : Honest origin body) (hnone : (s.pages.peek (e.fingerprint r)).2 = none)
    (hsize : ¬ e.Outgrows o r body s) {t : State σ} (hworld : t.world = s.world)
    (hpages : t.pages = (s.pages.peek (e.fingerprint r)).1) :
    ∃ p out, (e.completePlan o (.pending origin) r body .never t).2 = .ok p ∧
      (e.process o r origin body .never s).2 = .ok out ∧ SuitedBy origin body p out := by
  cases ht : Payload.looksLikeText body with
  | false =>
    exact ⟨_, _, completePlan_of_binary ht, process_of_binary ht, .passing rfl rfl rfl⟩
  | true =>
    have hload : (s.pages.load (e.fingerprint r) body).2 =
        (scan e.config.maxTag body).map fun tags => ⟨s.pages.next, Page.ofTags tags⟩ :=
      (PageStore.load_eq_parse hnone body).1.trans (PageStore.parse_eq_scan hready body)
    rw [completePlan_of_pending ht, hpages, PageStore.load_peek hnone, hworld]
    cases hs : scan e.config.maxTag body with
    | error err =>
      rw [hs] at hload
      rw [hload, process_of_failure ht hload, if_pos (isMalformed_of_scan hs)]
      exact ⟨_, _, if_pos (isMalformed_of_scan hs), rfl, .passing rfl rfl rfl⟩
    | ok tags =>
      rw [hs] at hload
      rw [hload]
      obtain ⟨res, out, hres, hout, hsuits⟩ :=
        process_of_page origin hg hh ht hload hs rfl hsize
      refine ⟨_, out, ?_, hout, hsuits⟩
      dsimp only [Except.map]
      rw [hres]

end Engine

/-! ## 3. Replies -/

namespace Proxy

variable {σ : Type} {e : Engine} {o : Surroundings σ} {r : Request} {s : Engine.State σ}
  {origin : Headers} {page first : Bytes} {rest body : Arrival} {x : Exchange} {method : Text}
  {status : Nat} {p : Plan}

/-- A client that asks with a method gets a reply with a status and a body. All that is written
reaches it, and is counted. -/
structure Receives (method : Text) (status : Nat) (body : Bytes) (x : Exchange) : Prop where
  reply : ∃ fields, x.sent = some ⟨status, fields, body⟩ ∧
    delivered method ⟨status, fields, body⟩ = ⟨status, fields, body⟩
  status : x.context.status = some status
  bytes : x.context.bytes = body.length

theorem receives_body (hm : method ≠ Request.head) (hx : x.context.bytes = 0) {fields : Headers}
    (hh : Honest fields page) : Receives method status page ((x.head status fields).body page) where
  reply := by
    refine ⟨fields, rfl, ?_⟩
    unfold delivered
    dsimp only
    rw [if_neg (by simpa using hm)]
    cases hd : declaredLength? fields with
    | none => rfl
    | some n =>
      dsimp only
      rw [hh n hd, List.take_length]
  status := rfl
  bytes := by
    show x.context.bytes + page.length = page.length
    rw [hx, Nat.zero_add]

/-- What has become of a request: its client gets a reply, and there is no failure. -/
structure Answers {α : Type} (done : α) (method : Text) (status : Nat) (page : Bytes)
    (out : Exchange × Except Fault α) : Prop where
  succeeds : out.2 = .ok done
  receives : Receives method status page out.1

variable (rest) in
/-- **What goes out by a plan is the page that goes out as a whole**, wherever the reading of the
body has stopped. -/
theorem answers_send {out : Served} (hs : Engine.SuitedBy origin page p out)
    (hh : Honest origin page) (hread : first ++ rest.chunks.flatten = page)
    (hend : rest.breakdown = none) (hm : method ≠ Request.head) (hx : x.context.bytes = 0) :
    Answers () method status out.body (send p status first rest x s).2 := by
  have hflat : (first :: rest.chunks).flatten = page := hread
  rw [send_eq]
  cases hs with
  | passing bypassed own same =>
    obtain ⟨plan, state, degraded⟩ := p
    cases bypassed
    cases own
    obtain ⟨ha, hout⟩ := Injector.writeAll_of_bypass (i := .passing) rfl (first :: rest.chunks)
    rw [hflat] at hout
    refine ⟨?_, ?_⟩
    · show ending (Injector.passing.writeAll (first :: rest.chunks)).1 rest = _
      unfold ending
      rw [hend, Injector.finish_of_bypass ha.mode_eq]
      rfl
    · show Receives method status _ (Exchange.body _ (Injector.passing.writeAll _).2)
      rw [hout, same]
      exact receives_body (x := x.planned _) hm hx hh
  | @replacing _ res fields text inside ok same short =>
    have hbegin : Injector.beginsAsText (first :: rest.chunks) = true :=
      beginsAsText_of_looksLikeText (hflat ▸ text)
    obtain ⟨hon, htags, -, hpos, hout⟩ := Injector.writeAll_new_of_text res.tags hbegin
    rw [hflat] at hpos hout
    have hfields : ((Plan.pending origin).resolve res).headers = .ok fields := ok
    rw [hfields]
    refine ⟨?_, ?_⟩
    · show ending ((Injector.new res.tags).writeAll (first :: rest.chunks)).1 rest = _
      unfold ending
      rw [hend, hon.finish_ok (by rwa [htags, hpos])]
      rfl
    · show Receives method status _ (Exchange.body _ ((Injector.new res.tags).writeAll _).2)
      rw [hout, ← same]
      have hgoes : GoesOut origin page fields out.body := same ▸ .replaced ok
      exact receives_body (x := x.planned _) hm hx
        (hgoes.honest hh (Nat.lt_trans short (by decide)))

/-- A plan that is known before its body, for text: the first chunk is sent in front of the rest. -/
theorem answers_sendPlanned {out : Served} (hs : Engine.SuitedBy origin body.chunks.flatten p out)
    (ht : Payload.looksLikeText body.chunks.flatten = true) (hh : Honest origin body.chunks.flatten)
    (hend : body.breakdown = none) (hm : method ≠ Request.head) (hx : x.context.bytes = 0) :
    Answers () method status out.body (sendPlanned p status body x s).2 := by
  unfold sendPlanned
  cases hc : body.chunks with
  | nil =>
    rw [hc] at hs hh
    dsimp only
    rw [hend, Plan.observe_of_text rfl]
    exact answers_send body hs hh (by rw [hc]; rfl) hend hm hx
  | cons chunk more =>
    rw [hc] at hs ht hh
    dsimp only
    rw [Plan.observe_of_text (Payload.looksLikeText_of_prefix (List.prefix_append _ _) ht)]
    exact answers_send { body with chunks := more } hs hh rfl hend hm hx

variable (body x status) in
/-- A body that exceeds the limit goes out as it came. -/
theorem answers_sendGathered_of_lt (hh : Honest origin body.chunks.flatten)
    (hlong : e.config.maxBody < body.chunks.flatten.length) (hend : body.breakdown = none)
    (hm : method ≠ Request.head) (hx : x.context.bytes = 0) :
    Answers () method status body.chunks.flatten
        (sendGathered e o (.pending origin) r status body x s).2 ∧
      (sendGathered e o (.pending origin) r status body x s).1.pages = s.pages := by
  obtain ⟨hread, hover, -⟩ := gather_nil e.config.maxBody body.chunks
  have hg : (gather e.config.maxBody [] body.chunks).overflow = true := hover.2 hlong
  unfold sendGathered
  dsimp only
  rw [hg, hend, if_neg (by exact Bool.false_ne_true), if_pos rfl]
  refine ⟨?_, pages_send ..⟩
  have hsuits : Engine.SuitedBy origin body.chunks.flatten (Plan.pending origin).bypass
      (Engine.unchanged origin body.chunks.flatten false) := .passing rfl rfl rfl
  exact answers_send ⟨(gather e.config.maxBody [] body.chunks).rest, none⟩ hsuits hh hread rfl hm hx

variable (body x status) in
/-- A body within the limit goes out by the plan that is made of it. -/
theorem answers_sendGathered_of_le (hready : s.IsReady e) (hg : e.registry.NeverCancels o)
    (hh : Honest origin body.chunks.flatten)
    (hshort : body.chunks.flatten.length ≤ e.config.maxBody) (hend : body.breakdown = none)
    (hm : method ≠ Request.head) (hx : x.context.bytes = 0)
    (hnone : (s.pages.peek (e.fingerprint r)).2 = none)
    (hsize : ¬ e.Outgrows o r body.chunks.flatten s) {t : Engine.State σ}
    (hworld : t.world = s.world) (hpages : t.pages = (s.pages.peek (e.fingerprint r)).1) :
    ∃ out, (e.process o r origin body.chunks.flatten .never s).2 = .ok out ∧
      Answers () method status out.body
        (sendGathered e o (.pending origin) r status body x t).2 := by
  obtain ⟨-, hover, hall⟩ := gather_nil e.config.maxBody body.chunks
  have hfits : (gather e.config.maxBody [] body.chunks).overflow = false := by
    rw [← Bool.not_eq_true, hover]
    exact Nat.not_lt_of_le hshort
  obtain ⟨hbody, hrest⟩ := hall hfits
  obtain ⟨p, out, hplan, hout, hsuits⟩ := Engine.exists_process hready hg hh hnone hsize
    (t := { t with bytes := t.bytes.origin body.chunks.flatten.length }) hworld hpages
  refine ⟨out, hout, ?_⟩
  unfold sendGathered
  dsimp only
  rw [hfits, hend, hrest, hbody, departure_eq_never, if_neg (by exact Bool.false_ne_true),
    if_neg Bool.false_ne_true]
  generalize hc : e.completePlan o (.pending origin) r body.chunks.flatten .never
    { t with bytes := t.bytes.origin body.chunks.flatten.length } = done at hplan
  obtain ⟨u, result⟩ := done
  cases hplan
  exact answers_send ⟨[], none⟩ hsuits hh (List.append_nil _) rfl hm hx

/-! ## 4. Requests -/

/-- The engine when the answer of the origin has come. -/
def fetched (e : Engine) (o : Surroundings σ) (c : ClientRequest) (s : Engine.State σ) :
    Engine.State σ :=
  { s with world := { s.world with
    reach := { s.world.reach with
      outside := (o.network (originRequest e c) s.world.reach.outside).1 }
    now := s.world.now +
      originTime e o (o.network (originRequest e c) s.world.reach.outside).2.1 } }

/-- What the origin delivers for the page that a client asks for. -/
def delivery (e : Engine) (o : Surroundings σ) (c : ClientRequest) (s : Engine.State σ) :
    Delivery := (o.network (originRequest e c) s.world.reach.outside).2.2

variable {proxy : Proxy} {c : ClientRequest} {headers : Headers} {declared : Option Nat}

theorem isPurge_of_ofRequest {patterns : List Text} {path : Text}
    (h : Eligibility.ofRequest patterns method path headers = true) :
    Purge.isPurge method = false := by
  unfold Eligibility.ofRequest at h
  simp only [Bool.and_eq_true, Bool.or_eq_true, beq_iff_eq] at h
  rcases h.1.1 with rfl | rfl <;> decide

/-- A request for a page is answered with what the origin delivers. -/
theorem filter_of_accepted (h : Eligibility.ofRequest proxy.engine.config.patterns c.method
    c.target.path c.headers = true) (o : Surroundings σ) (s : Engine.State σ) :
    proxy.filter o c s =
      let out := answer proxy.engine o (pageRequest proxy.engine c s.world.now)
        (.new c.target.path) (fetched proxy.engine o c s) (delivery proxy.engine o c s)
      (out.1, out.2.1, out.2.2.map fun _ => true) := by
  unfold filter
  rw [isPurge_of_ofRequest h, h]
  rfl

variable (body x) in
/-- A page that may not be processed goes out as it came. -/
theorem answers_of_ineligible (hel : Eligibility.ofResponse status (Hop.strip headers) = false)
    (hh : Honest headers body.chunks.flatten) (hend : body.breakdown = none)
    (hm : method ≠ Request.head) (hx : x.context.bytes = 0) :
    Answers () method status body.chunks.flatten
      (answer e o r x s (.response status headers declared body)).2 := by
  unfold answer
  dsimp only
  rw [hel, Bool.not_false, if_pos rfl, streamRest_eq]
  obtain ⟨ha, hout⟩ := Injector.writeAll_of_bypass (i := .passing) rfl ([] :: body.chunks)
  have hbody : (Injector.passing.writeAll ([] :: body.chunks)).2 = body.chunks.flatten := hout
  refine ⟨?_, ?_⟩
  · unfold ending
    rw [hend, Injector.finish_of_bypass ha.mode_eq]
    rfl
  · rw [hbody]
    exact receives_body hm hx hh.strip

/-- A page that is asked for without its body is not looked into. -/
theorem answer_of_head (hel : Eligibility.ofResponse status (Hop.strip headers) = true)
    (hm : r.method = Request.head) : answer e o r x s (.response status headers declared body) =
      sendPlanned (.passing ((Hop.strip headers).remove lengthField)) status body
        x.processing s := by
  have hbegin : e.beginStream o r (Hop.strip headers) .never s =
      (s, .ok (.passing ((Hop.strip headers).remove lengthField))) := by
    unfold Engine.beginStream
    rw [if_pos (beq_iff_eq.2 hm)]
    rfl
  unfold answer
  dsimp only
  rw [hel, departure_eq_never, hbegin]
  rfl

variable (o body x declared) in
/-- A page that may be processed and is not kept is collected. -/
theorem answer_of_new (hel : Eligibility.ofResponse status (Hop.strip headers) = true)
    (hm : r.method ≠ Request.head) (hnone : (s.pages.peek (e.fingerprint r)).2 = none) :
    answer e o r x s (.response status headers declared body) =
      sendGathered e o (.pending (Hop.strip headers)) r status body
        x.processing
        { s with pages := (s.pages.peek (e.fingerprint r)).1 } := by
  have hbegin : e.beginStream o r (Hop.strip headers) .never s =
      ({ s with pages := (s.pages.peek (e.fingerprint r)).1 },
        .ok (.pending (Hop.strip headers))) := by
    unfold Engine.beginStream
    rw [if_neg (by simpa using hm)]
    cases hp : s.pages.peek (e.fingerprint r) with
    | mk pages found =>
      rw [hp] at hnone
      cases hnone
      rfl
  unfold answer
  dsimp only
  rw [hel, departure_eq_never, hbegin]
  rfl

variable (o body x declared) in
/-- A page that may be processed and is kept has its plan before its body. -/
theorem exists_answer_of_kept (hel : Eligibility.ofResponse status (Hop.strip headers) = true)
    (hm : r.method ≠ Request.head) {q : ParsedPage}
    (hkept : (s.pages.peek (e.fingerprint r)).2 = some q) :
    ∃ t, t.pages = { (s.pages.peek (e.fingerprint r)).1 with
        counts := (s.pages.peek (e.fingerprint r)).1.counts.hit } ∧ t.bytes = s.bytes ∧
      answer e o r x s (.response status headers declared body) =
        match (e.resolver.resolveAll o q.id q.tags r .never s.world).2 with
        | .error err =>
          (t, x.processing,
            .error (.status err.status))
        | .ok res => sendPlanned ((Plan.pending (Hop.strip headers)).resolve res) status body
          x.processing t := by
  obtain ⟨t, hbegin, hpages, hbytes⟩ : ∃ t, e.beginStream o r (Hop.strip headers) .never s =
        (t, (e.resolver.resolveAll o q.id q.tags r .never s.world).2.map
          (Plan.pending (Hop.strip headers)).resolve) ∧
      t.pages = { (s.pages.peek (e.fingerprint r)).1 with
        counts := (s.pages.peek (e.fingerprint r)).1.counts.hit } ∧ t.bytes = s.bytes := by
    unfold Engine.beginStream
    rw [if_neg (by simpa using hm)]
    cases hp : s.pages.peek (e.fingerprint r) with
    | mk pages found =>
      rw [hp] at hkept
      cases hkept
      exact ⟨_, rfl, rfl, rfl⟩
  refine ⟨t, hpages, hbytes, ?_⟩
  unfold answer
  dsimp only
  rw [hel, departure_eq_never, hbegin]
  cases (e.resolver.resolveAll o q.id q.tags r .never s.world).2 <;> rfl

/-! ## 5. Kept pages -/

variable (origin) in
/-- Of all that is done for a body that is collected, only making the plan changes the pages that
are kept; then the body is text, and all of it is there. -/
theorem pages_sendGathered (e : Engine) (o : Surroundings σ) (r : Request) (status : Nat)
    (body : Arrival) (x : Exchange) (s : Engine.State σ) :
    (sendGathered e o (.pending origin) r status body x s).1.pages = s.pages ∨
      Payload.looksLikeText body.chunks.flatten = true ∧
        (sendGathered e o (.pending origin) r status body x s).1.pages =
          (s.pages.load (e.fingerprint r) body.chunks.flatten).1 := by
  have hplan := Engine.pages_completePlan e o (.pending origin) r body.chunks.flatten .never
    (collected e body s)
  have hmade : ∀ {t : Engine.State σ}, t.pages = (e.completePlan o (.pending origin) r
      body.chunks.flatten .never (collected e body s)).1.pages → t.pages = s.pages ∨
        Payload.looksLikeText body.chunks.flatten = true ∧
          t.pages = (s.pages.load (e.fingerprint r) body.chunks.flatten).1 := by
    intro t ht
    rw [ht, hplan]
    cases Payload.looksLikeText body.chunks.flatten with
    | false => exact .inl rfl
    | true => exact .inr ⟨rfl, rfl⟩
  have hsends := sendsGathered e o (.pending origin) r status body x s
  generalize sendGathered e o (.pending origin) r status body x s = out at hsends ⊢
  cases hsends with
  | broken => exact .inl rfl
  | exceeding => exact .inl (pages_send ..)
  | failed planned => exact hmade (by rw [planned])
  | sent _ planned =>
    rw [pages_send]
    exact hmade (by rw [planned])

/-- **What an answer does to the pages that are kept**: the page is found as it was before, or else
its tags are looked for in the body, which is text then. -/
theorem pages_answer (e : Engine) (o : Surroundings σ) (r : Request) (x : Exchange)
    (s : Engine.State σ) (status : Nat) (headers : Headers) (declared : Option Nat)
    (body : Arrival) :
    let pages := (answer e o r x s (.response status headers declared body)).1.pages
    (pages.pool = s.pages.pool ∧
        (pages.peek (e.fingerprint r)).2 = (s.pages.peek (e.fingerprint r)).2) ∨
      Payload.looksLikeText body.chunks.flatten = true ∧
        pages =
          ((s.pages.peek (e.fingerprint r)).1.load (e.fingerprint r) body.chunks.flatten).1 := by
  have peeked : ∀ {pages : PageStore}, pages.pool = s.pages.pool →
      pages.cache = (s.pages.peek (e.fingerprint r)).1.cache → pages.pool = s.pages.pool ∧
        (pages.peek (e.fingerprint r)).2 = (s.pages.peek (e.fingerprint r)).2 :=
    fun hpool hcache => ⟨hpool, (congrArg (fun c => (c.get (e.fingerprint r)).2) hcache).trans
      (PageStore.peek_peek s.pages _)⟩
  intro pages
  cases hel : Eligibility.ofResponse status (Hop.strip headers) with
  | false =>
    have hans : pages = s.pages := by
      show (answer e o r x s (.response status headers declared body)).1.pages = _
      unfold answer
      dsimp only
      rw [hel]
      rfl
    rw [hans]
    exact .inl ⟨rfl, rfl⟩
  | true =>
    by_cases hm : r.method = Request.head
    · -- the tags of a page without a body are not looked for
      have hans : pages = s.pages := by
        show (answer e o r x s (.response status headers declared body)).1.pages = _
        rw [answer_of_head hel hm, pages_sendPlanned]
      rw [hans]
      exact .inl ⟨rfl, rfl⟩
    · cases hp : (s.pages.peek (e.fingerprint r)).2 with
      | some q =>
        obtain ⟨t, ht, -, hans⟩ := exists_answer_of_kept o body x declared hel hm hp
        have hpages : pages = t.pages := by
          show (answer e o r x s (.response status headers declared body)).1.pages = _
          rw [hans]
          split
          · rfl
          · exact pages_sendPlanned ..
        rw [hpages, ht, ← hp]
        exact .inl (peeked rfl rfl)
      | none =>
        have hans := answer_of_new o body x declared hel hm hp
        rcases pages_sendGathered (Hop.strip headers) e o r status body x.processing
          { s with pages := (s.pages.peek (e.fingerprint r)).1 } with ht | ⟨htext, ht⟩
        · have hpages : pages = (s.pages.peek (e.fingerprint r)).1 :=
            (congrArg (fun a => a.1.pages) hans).trans ht
          rw [hpages, ← hp]
          exact .inl (peeked rfl rfl)
        · exact .inr ⟨htext, (congrArg (fun a => a.1.pages) hans).trans ht⟩

/-- **A page that is kept behind an answer, and was not before, has the tags of the body.** -/
theorem tags_of_peek_answer (hready : s.IsReady e) {q : ParsedPage}
    (before : (s.pages.peek (e.fingerprint r)).2 ≠ some q)
    (after : ((answer e o r x s (.response status headers declared body)).1.pages.peek
      (e.fingerprint r)).2 = some q) :
    Payload.looksLikeText body.chunks.flatten = true ∧
      ∃ tags, scan e.config.maxTag body.chunks.flatten = .ok tags ∧ q.tags = Page.ofTags tags := by
  rcases pages_answer e o r x s status headers declared body with ⟨-, hpeek⟩ | ⟨htext, hpages⟩
  · exact absurd (hpeek.symm.trans after) before
  · rw [hpages] at after
    have hpeek : ((s.pages.peek (e.fingerprint r)).1.peek (e.fingerprint r)).2 ≠ some q := by
      rw [PageStore.peek_peek]
      exact before
    exact ⟨htext, PageStore.tags_of_peek_load (s := (s.pages.peek (e.fingerprint r)).1) hready
      hpeek after⟩

theorem isReady_answer (h : s.IsReady e) (d : Delivery) : (answer e o r x s d).1.IsReady e := by
  cases d with
  | failed why => exact h
  | response status headers declared body =>
    unfold Engine.State.IsReady
    rcases pages_answer e o r x s status headers declared body with ⟨hpool, -⟩ | ⟨-, hpages⟩
    · rw [hpool]
      exact h
    · rw [hpages]
      exact PageStore.isFresh_load (s := (s.pages.peek (e.fingerprint r)).1) h _ _

/-- When a page is asked for is of no matter for where it is kept. -/
theorem fingerprint_pageRequest (e : Engine) (c : ClientRequest) (now now' : Nat) :
    e.fingerprint (pageRequest e c now) = e.fingerprint (pageRequest e c now') := by
  -- `rfl` would compute the hashes
  unfold Engine.fingerprint
  rw [show (pageRequest e c now).method = (pageRequest e c now').method from rfl,
    show (pageRequest e c now).target = (pageRequest e c now').target from rfl,
    show (pageRequest e c now).headers = (pageRequest e c now').headers from rfl]

/-- A page that was not kept before a request through the proxy for which the origin has delivered
this body, and was kept after it. What lay around the engine then need not be what lies around it
now. -/
inductive KeptThrough (e : Engine) (fp : Fingerprint) (page : Bytes) (q : ParsedPage) : Prop where
  | answered {τ : Type} (proxy : Proxy) (o : Surroundings τ) (c : ClientRequest)
      (s : Engine.State τ) {status : Nat} {headers : Headers} {declared : Option Nat}
      {body : Arrival} (engine : proxy.engine = e) (ready : s.IsReady e)
      (accepted : Eligibility.ofRequest e.config.patterns c.method c.target.path c.headers = true)
      (own : e.fingerprint (pageRequest e c s.world.now) = fp)
      (delivered : delivery e o c s = .response status headers declared body)
      (same : body.chunks.flatten = page) (before : (s.pages.peek fp).2 ≠ some q)
      (after : ((proxy.filter o c s).1.pages.peek fp).2 = some q) : KeptThrough e fp page q

theorem KeptThrough.tags {fp : Fingerprint} {q : ParsedPage} (h : KeptThrough e fp page q) :
    Payload.looksLikeText page = true ∧
      ∃ tags, scan e.config.maxTag page = .ok tags ∧ q.tags = Page.ofTags tags := by
  obtain ⟨proxy, o, c, s, rfl, ready, accepted, rfl, hdelivered, rfl, before, after⟩ := h
  rw [filter_of_accepted accepted, hdelivered] at after
  exact tags_of_peek_answer (s := fetched _ _ _ _) ready before after

/-- **All that a proxy does leaves the scanners of its engine like new.** -/
theorem isReady_filter (h : s.IsReady proxy.engine) (o : Surroundings σ) (c : ClientRequest) :
    (proxy.filter o c s).1.IsReady proxy.engine := by
  unfold filter
  dsimp only
  split
  · split <;> exact h
  · split
    · exact h
    · exact isReady_answer (s := fetched proxy.engine o c s) h _

/-! ## 6. What is answered -/

variable (body declared) in
/-- A page that is kept, and has been kept for this body, goes out by a plan that is known before
the body. -/
theorem answers_of_kept (hg : e.registry.NeverCancels o)
    (hel : Eligibility.ofResponse status (Hop.strip headers) = true)
    (hh : Honest headers body.chunks.flatten) (hend : body.breakdown = none)
    (hm : r.method ≠ Request.head) (hx : x.context.bytes = 0) {q : ParsedPage}
    (hkept : (s.pages.peek (e.fingerprint r)).2 = some q)
    (hq : KeptThrough e (e.fingerprint r) body.chunks.flatten q)
    (hsize : ¬ e.Outgrows o r body.chunks.flatten s) :
    ∃ out, (e.process o r (Hop.strip headers) body.chunks.flatten .never s).2 = .ok out ∧
      Answers () r.method status out.body
        (answer e o r x s (.response status headers declared body)).2 := by
  obtain ⟨ht, tags, hscan, htags⟩ := hq.tags
  have hload : (s.pages.load (e.fingerprint r) body.chunks.flatten).2 = .ok q := by
    rw [PageStore.load_of_fits hkept (htags ▸ Page.fits_ofTags hscan)]
  obtain ⟨res, out, hres, hout, hsuits⟩ :=
    Engine.process_of_page _ hg hh.strip ht hload hscan htags hsize
  obtain ⟨t, -, -, hans⟩ := exists_answer_of_kept o body x declared hel hm hkept
  refine ⟨out, hout, ?_⟩
  rw [hans, hres]
  exact answers_sendPlanned hsuits ht hh.strip hend hm hx

variable (body declared) in
/-- A page that is not kept and too large goes out as it came, and is not kept then. -/
theorem answers_of_lt (hel : Eligibility.ofResponse status (Hop.strip headers) = true)
    (hh : Honest headers body.chunks.flatten) (hend : body.breakdown = none)
    (hm : r.method ≠ Request.head) (hx : x.context.bytes = 0)
    (hnone : (s.pages.peek (e.fingerprint r)).2 = none)
    (hlong : e.config.maxBody < body.chunks.flatten.length) :
    Answers () r.method status body.chunks.flatten
        (answer e o r x s (.response status headers declared body)).2 ∧
      (answer e o r x s (.response status headers declared body)).1.pages =
        (s.pages.peek (e.fingerprint r)).1 := by
  rw [answer_of_new o body x declared hel hm hnone]
  exact answers_sendGathered_of_lt body x.processing status hh.strip hlong hend hm hx

variable (body declared) in
/-- A page that is not kept and not too large goes out by the plan that is made of it. -/
theorem answers_of_le (hready : s.IsReady e) (hg : e.registry.NeverCancels o)
    (hel : Eligibility.ofResponse status (Hop.strip headers) = true)
    (hh : Honest headers body.chunks.flatten) (hend : body.breakdown = none)
    (hm : r.method ≠ Request.head) (hx : x.context.bytes = 0)
    (hnone : (s.pages.peek (e.fingerprint r)).2 = none)
    (hshort : body.chunks.flatten.length ≤ e.config.maxBody)
    (hsize : ¬ e.Outgrows o r body.chunks.flatten s) :
    ∃ out, (e.process o r (Hop.strip headers) body.chunks.flatten .never s).2 = .ok out ∧
      Answers () r.method status out.body
        (answer e o r x s (.response status headers declared body)).2 := by
  rw [answer_of_new o body x declared hel hm hnone]
  exact answers_sendGathered_of_le body x.processing status hready hg hh.strip hshort hend hm hx
    hnone hsize rfl rfl

theorem Answers.mapped {out : Engine.State σ × Exchange × Except Fault Unit}
    (h : Answers () method status page out.2) :
    Answers true method status page (out.2.1, out.2.2.map fun _ => true) := by
  refine ⟨?_, h.receives⟩
  show out.2.2.map _ = _
  rw [h.succeeds]
  rfl

/-- **What the client of a page is answered**, however the origin cuts the body. The origin delivers
all of it and declares its length or none; the request is not given up, and no backend that is
brought along says that it is.

A page that may not be processed goes out as it came. So does one that is not kept and too large,
and it is not kept then. Any other page that is not kept, or that an earlier request has left behind
for this body, goes out as the body that processing it as a whole gives from the same state: that
gives one, unless it would have 2^63 bytes. The status is that of the origin, and the bytes of the
body are counted. -/
theorem filter_answers (proxy : Proxy) (o : Surroundings σ) (c : ClientRequest)
    (s : Engine.State σ) (status : Nat) (headers : Headers) (declared : Option Nat)
    (chunks : List Bytes) (hready : s.IsReady proxy.engine) (hget : c.method = Request.get)
    (haccepted : Eligibility.ofRequest proxy.engine.config.patterns c.method c.target.path
      c.headers = true)
    (hdelivered : delivery proxy.engine o c s = .response status headers declared ⟨chunks, none⟩)
    (hhonest : Honest headers chunks.flatten) (hcancel : proxy.engine.registry.NeverCancels o) :
    let e := proxy.engine
    let r := pageRequest e c s.world.now
    let kept := (s.pages.peek (e.fingerprint r)).2
    let out := proxy.filter o c s
    (Eligibility.ofResponse status (Hop.strip headers) = false →
      Answers true c.method status chunks.flatten out.2) ∧
    (Eligibility.ofResponse status (Hop.strip headers) = true →
      (kept = none → e.config.maxBody < chunks.flatten.length →
        Answers true c.method status chunks.flatten out.2 ∧
          out.1.pages = (s.pages.peek (e.fingerprint r)).1 ∧
          (out.1.pages.peek (e.fingerprint r)).2 = none) ∧
      ((kept = none ∧ chunks.flatten.length ≤ e.config.maxBody ∨
          ∃ q, kept = some q ∧ KeptThrough e (e.fingerprint r) chunks.flatten q) →
        ¬ e.Outgrows o r chunks.flatten (fetched e o c s) →
        ∃ served, (e.process o r (Hop.strip headers) chunks.flatten .never
            (fetched e o c s)).2 = .ok served ∧
          Answers true c.method status served.body out.2)) := by
  intro e r kept out
  have hm : c.method ≠ Request.head := by
    rw [hget]
    decide
  have hout : out = _ := filter_of_accepted haccepted o s
  rw [hdelivered] at hout
  refine ⟨fun hel => ?_, fun hel => ⟨fun hnone hlong => ?_, ?_⟩⟩
  · rw [hout]
    exact (answers_of_ineligible ⟨chunks, none⟩ (.new c.target.path) hel hhonest rfl hm rfl).mapped
  · obtain ⟨hans, hkeeps⟩ := answers_of_lt ⟨chunks, none⟩ declared (x := .new c.target.path)
      (o := o) (s := fetched e o c s) hel hhonest rfl hm rfl hnone hlong
    rw [hout]
    refine ⟨hans.mapped, hkeeps, ?_⟩
    show (((answer _ _ _ _ _ _).1.pages).peek _).2 = none
    rw [hkeeps, PageStore.peek_peek]
    exact hnone
  · rintro (⟨hnone, hshort⟩ | ⟨q, hq, hthrough⟩) hsize
    · obtain ⟨served, hserved, hans⟩ := answers_of_le ⟨chunks, none⟩ declared
        (x := .new c.target.path) (s := fetched e o c s) hready hcancel hel hhonest rfl hm rfl
        hnone hshort hsize
      exact ⟨served, hserved, hout ▸ hans.mapped⟩
    · obtain ⟨served, hserved, hans⟩ := answers_of_kept ⟨chunks, none⟩ declared
        (x := .new c.target.path) (s := fetched e o c s) hcancel hel hhonest rfl hm rfl hq
        hthrough hsize
      exact ⟨served, hserved, hout ▸ hans.mapped⟩

end Proxy

/-! ## 7. A page that is asked for twice -/

namespace Proxy

namespace Sample

/-- An origin with one page, which it cuts inside of two of its tags. -/
def site : Surroundings Unit :=
  { Engine.Sample.outside with
    network := fun _ s =>
      (s, some 0, .response 200 Engine.Sample.declared none ⟨Engine.Sample.cut, none⟩) }

def gateway : Proxy := .ofEngine Engine.Sample.engine

/-- A request for the page. -/
def ask : ClientRequest := ⟨Request.get, .root, .empty, [], ⟨0, 0⟩⟩

/-- The engine after the page has been asked for. -/
def answered : Engine.State Unit := (gateway.filter site ask Engine.Sample.state).1

/-- The second request for the page. -/
def again : Request := pageRequest gateway.engine ask answered.world.now

open Engine.Sample

theorem eligible : Eligibility.ofResponse 200 (Hop.strip declared) = true := by
  decide +kernel

theorem kept : (answered.pages.peek (gateway.engine.fingerprint again)).2.isSome := by
  decide +kernel

theorem honest : Honest declared cut.flatten := fun n hn => by
  have hd : declaredLength? declared = some 95 := by decide +kernel
  rw [hd] at hn
  cases hn
  rfl

theorem neverCancels : gateway.engine.registry.NeverCancels site := by
  intro id name hm
  have hb : gateway.engine.registry.backends = [.store 0] := rfl
  rw [hb, List.mem_singleton] at hm
  cases hm

theorem keptThrough {q : ParsedPage}
    (hq : (answered.pages.peek (gateway.engine.fingerprint again)).2 = some q) :
    KeptThrough gateway.engine (gateway.engine.fingerprint again) cut.flatten q :=
  .answered gateway site ask state rfl (Engine.isReady_start ..) rfl (fingerprint_pageRequest ..)
    rfl rfl (fun hb => by cases hb) hq

theorem not_outgrows : ¬ gateway.engine.Outgrows site again cut.flatten
    (fetched gateway.engine site ask answered) := by
  rintro ⟨page, res, hpage, hres, hlen⟩
  have hrun : (((fetched gateway.engine site ask answered).pages.load
      (gateway.engine.fingerprint again) cut.flatten).2.toOption.bind fun page =>
        (gateway.engine.resolveAll site page again .never
          (fetched gateway.engine site ask answered)).2.toOption.map fun res =>
            (patched res.tags.patches 0 cut.flatten).length) = some 6 := by decide +kernel
  rw [hpage] at hrun
  dsimp only [Except.toOption, Option.bind] at hrun
  rw [hres] at hrun
  have hsix : (patched res.tags.patches 0 cut.flatten).length = 6 := Option.some.inj hrun
  omega

theorem body_of_process {served : Served}
    (h : (gateway.engine.process site again (Hop.strip declared) cut.flatten .never
      (fetched gateway.engine site ask answered)).2 = .ok served) :
    served.body = Text.utf8 "ab+c!d".toList := by
  have hrun : (gateway.engine.process site again (Hop.strip declared) cut.flatten .never
      (fetched gateway.engine site ask answered)).2.toOption.map (·.body) =
        some (Text.utf8 "ab+c!d".toList) := by decide +kernel
  rw [h] at hrun
  exact Option.some.inj hrun

end Sample

open Sample Engine.Sample in
/-- A page that an earlier request has left behind goes out as it does as a whole. -/
theorem filter_answers_sample :
    ((answered.pages.peek (gateway.engine.fingerprint again)).2).isSome ∧
    ∃ served, (gateway.engine.process site again (Hop.strip declared) cut.flatten .never
        (fetched gateway.engine site ask answered)).2 = .ok served ∧
      served.body = Text.utf8 "ab+c!d".toList ∧
      Answers true Request.get 200 served.body (gateway.filter site ask answered).2 := by
  refine ⟨kept, ?_⟩
  obtain ⟨q, hq⟩ := Option.isSome_iff_exists.1 kept
  have hready : answered.IsReady gateway.engine :=
    isReady_filter (Engine.isReady_start gateway.engine () _ 1) _ _
  obtain ⟨served, hserved, hanswers⟩ := ((filter_answers gateway site ask answered 200 declared none
    cut hready rfl rfl rfl honest neverCancels).2 eligible).2 (.inr ⟨q, hq, keptThrough hq⟩)
    not_outgrows
  exact ⟨served, hserved, body_of_process hserved, hanswers⟩

end Proxy

end EdgeInclude

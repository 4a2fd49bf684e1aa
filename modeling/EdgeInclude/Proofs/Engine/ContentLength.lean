import EdgeInclude.Proofs.Engine.Streaming

/-!
# The declared length is the length

The length of a page is adjusted before its body has been seen, for tags that may have been those of
another body; the body can still turn out to be binary, and then it keeps its length. The header
fields and the body that go out agree all the same.

* `Headers.Declares` — one length, and which.
* `Replacements.toNat_of_adjust` — an adjusted length is the length of the patched page.
* `GoesOut` — all that can go out for a page, by whichever way.
* `Engine.goesOut_of_process`, `Engine.goesOut_of_stream` — nothing else goes out.
* `Engine.declares_length` — the length that goes out.
-/

namespace EdgeInclude

/-- One length is declared, and it is `n`. -/
def Headers.Declares (h : Headers) (n : Nat) : Prop :=
  ∃ v m, h.getAll lengthField = [v] ∧ declaredLength? h = some m ∧ m.toNat = n

/-! ## 1. Adjusting -/

/-- **An adjusted length is the length of the patched page**, if the length was that of the page. -/
theorem Replacements.toNat_of_adjust {tags : Replacements} {page : Bytes} {n m : UInt64}
    (h : tags.adjust n = .ok m) (hn : n.toNat = page.length)
    (ho : (patched tags.patches 0 page).length < 2 ^ 64) :
    m.toNat = (patched tags.patches 0 page).length := by
  have hfit := stop_le_of_adjust h
  have hlen : tags.lengthAfter n.toNat = (patched tags.patches 0 page).length := by
    rw [hn] at hfit ⊢
    exact lengthAfter_eq_length hfit
  rw [adjust_of_le hfit, settle_eq hlen] at h
  split at h
  · cases h
    rw [UInt64.toNat_ofNat']
    exact Nat.mod_eq_of_lt ho
  · cases h

/-! ## 2. What goes out -/

/-- Header fields and body that go out for a page: those that have come, or those with
replacements. -/
inductive GoesOut (origin : Headers) (page : Bytes) : Headers → Bytes → Prop where
  | unchanged : GoesOut origin page origin page
  | replaced {tags : Replacements} {returned fields : Headers}
      (ok : headersWith origin tags returned = .ok fields) :
      GoesOut origin page fields (patched tags.patches 0 page)

namespace GoesOut

variable {origin fields : Headers} {page out : Bytes}

/-- **If the length that has come is that of the page, then so it is with what goes out.** -/
theorem declares (h : GoesOut origin page fields out) (hd : origin.Declares page.length)
    (ho : out.length < 2 ^ 64) : fields.Declares out.length := by
  cases h with
  | unchanged => exact hd
  | replaced ok =>
    obtain ⟨-, n, -, hn, hlen⟩ := hd
    obtain ⟨m, ha, hm⟩ := getAll_length_of_headersWith hn ok
    exact ⟨_, m, hm, declaredLength?_of_getAll hm, Replacements.toNat_of_adjust ha hlen ho⟩

/-- If no length has come, none goes out. -/
theorem declares_nothing (h : GoesOut origin page fields out)
    (hn : origin.getAll lengthField = []) : fields.getAll lengthField = [] := by
  cases h with
  | unchanged => exact hn
  | replaced ok => exact getAll_length_of_none hn ok

end GoesOut

theorem eq_patched_of_inject {tags : Replacements} {page out : Bytes}
    (h : inject page tags = .ok out) : out = patched tags.patches 0 page := by
  by_cases hfit : ∀ r ∈ tags.items, r.stop ≤ page.length
  · rw [inject_of_fits hfit] at h
    exact (Except.ok.inj h).symm
  · simp only [not_forall, Nat.not_le] at hfit
    obtain ⟨r, hr, hlt⟩ := hfit
    obtain ⟨e, he⟩ := exists_inject_error ⟨r, hr, hlt⟩
    rw [he] at h
    cases h

/-- By a plan, nothing else goes out. -/
theorem Plan.goesOut_of_send {p : Plan} {chunks : List Bytes} {out : Streamed}
    (h : p.send chunks = .ok out) : GoesOut p.origin chunks.flatten out.headers out.body := by
  cases hs : p.state with
  | pending =>
    obtain ⟨origin, state, degraded⟩ := p
    cases hs
    cases h
  | bypass =>
    rw [send_of_bypass hs] at h
    cases h
    exact .unchanged
  | ready tags returned =>
    cases ht : Injector.beginsAsText chunks with
    | false =>
      rw [send_of_binary (by rw [hs]; exact nofun) ht] at h
      cases h
      exact .unchanged
    | true =>
      rw [send_of_ready hs ht] at h
      cases hf : headersWith p.origin tags returned with
      | error err =>
        rw [hf] at h
        cases h
      | ok fields =>
        rw [hf] at h
        cases h
        exact .replaced hf

namespace Engine

variable {σ : Type} {e : Engine} {o : Surroundings σ} {r : Request} {origin : Headers}
  {body : Bytes} {chunks : List Bytes} {d : Departure} {s : State σ}

theorem goesOut_of_build {res : Resolution} {page : Served}
    (h : build origin body res = .ok page) : GoesOut origin body page.headers page.body := by
  unfold build at h
  cases hf : headersWith origin res.tags res.headers with
  | error err =>
    rw [hf] at h
    cases h
  | ok fields =>
    cases hi : inject body res.tags with
    | error err =>
      rw [hf, hi] at h
      cases h
    | ok out =>
      rw [hf, hi] at h
      cases h
      rw [eq_patched_of_inject hi]
      exact .replaced hf

/-- For a whole body, nothing else goes out. -/
theorem goesOut_of_process {page : Served}
    (h : (e.process o r origin body d s).2 = .ok page) :
    GoesOut origin body page.headers page.body := by
  cases ht : Payload.looksLikeText body with
  | false =>
    rw [process_of_binary ht] at h
    cases h
    exact .unchanged
  | true =>
    cases hl : (s.pages.load (e.fingerprint r) body).2 with
    | error err =>
      rw [process_of_failure ht hl] at h
      split at h
      · cases h
        exact .unchanged
      · cases h
    | ok parsed =>
      rw [process_of_load ht hl] at h
      split at h
      · cases h
        exact .unchanged
      · rw [finish_snd] at h
        cases hr : (e.resolveAll o parsed r d (e.opened r body s)).2 with
        | error err =>
          rw [hr] at h
          cases h
        | ok res =>
          rw [hr] at h
          exact goesOut_of_build h

theorem origin_of_completePlan {p : Plan}
    (h : (e.completePlan o (.pending origin) r body d s).2 = .ok p) : p.origin = origin := by
  cases ht : Payload.looksLikeText body with
  | false =>
    rw [completePlan_of_binary ht] at h
    cases h
    rfl
  | true =>
    rw [completePlan_of_pending ht] at h
    split at h
    · split at h
      · cases h
        rfl
      · cases h
    · rename_i parsed _
      cases hr : (e.resolver.resolveAll o parsed.id parsed.tags r d s.world).2 with
      | error err =>
        rw [hr] at h
        cases h
      | ok res =>
        rw [hr] at h
        cases h
        rfl

/-- For a body in chunks, nothing else goes out. -/
theorem goesOut_of_stream {out : Streamed} (hm : r.method ≠ Request.head)
    (h : (e.stream o r origin chunks d s).2 = .ok out) :
    GoesOut origin chunks.flatten out.headers out.body := by
  cases hp : (s.pages.peek (e.fingerprint r)).2 with
  | some parsed =>
    rw [stream_of_kept hm hp] at h
    cases hr : (e.resolver.resolveAll o parsed.id parsed.tags r d s.world).2 with
    | error err =>
      rw [hr] at h
      cases h
    | ok res =>
      rw [hr] at h
      exact Plan.goesOut_of_send h
  | none =>
    rw [stream_of_new hm hp] at h
    cases hc : (e.completePlan o (.pending origin) r chunks.flatten d
        { s with pages := (s.pages.peek (e.fingerprint r)).1 }).2 with
    | error err =>
      rw [hc] at h
      cases h
    | ok p =>
      rw [hc] at h
      rw [← origin_of_completePlan hc]
      exact Plan.goesOut_of_send h

/-- **The length that is declared is the length of the body that goes out**, as a whole and in
chunks, in every state of the engine: also with replacements of an older body, for a page that is
binary and for one that goes out unchanged, and whatever header fields the fragments return. A page
that comes without a length goes out without one. -/
theorem declares_length (e : Engine) (o : Surroundings σ) (r : Request) (origin : Headers)
    (chunks : List Bytes) (d : Departure) (s : State σ) (hmethod : r.method ≠ Request.head) :
    (origin.Declares chunks.flatten.length →
      (∀ page, (e.process o r origin chunks.flatten d s).2 = .ok page →
        page.body.length < 2 ^ 64 → page.headers.Declares page.body.length) ∧
      ∀ out, (e.stream o r origin chunks d s).2 = .ok out →
        out.body.length < 2 ^ 64 → out.headers.Declares out.body.length) ∧
    (origin.getAll lengthField = [] →
      (∀ page, (e.process o r origin chunks.flatten d s).2 = .ok page →
        page.headers.getAll lengthField = []) ∧
      ∀ out, (e.stream o r origin chunks d s).2 = .ok out →
        out.headers.getAll lengthField = []) := by
  refine ⟨fun hd => ⟨fun page h => ?_, fun out h => ?_⟩,
    fun hn => ⟨fun page h => ?_, fun out h => ?_⟩⟩
  · exact (goesOut_of_process h).declares hd
  · exact (goesOut_of_stream hmethod h).declares hd
  · exact (goesOut_of_process h).declares_nothing hn
  · exact (goesOut_of_stream hmethod h).declares_nothing hn

/-- A body of another kind than the one whose tags are kept. -/
def Sample.other : Bytes := List.replicate 95 0x78

open Sample in
theorem declares_length_sample :
    ∃ out, (engine.stream outside request declared [other] .never later).2 = .ok out ∧
      out.body = Text.utf8 "xx+x!x".toList ∧ out.headers.Declares 6 := by
  have hrun : (engine.stream outside request declared [other] .never later).2.toOption.map
      (·.body) = some (Text.utf8 "xx+x!x".toList) := by decide +kernel
  have hd : declared.Declares [other].flatten.length :=
    ⟨lengthValue 95, 95, by decide +kernel, by decide +kernel, rfl⟩
  cases h : (engine.stream outside request declared [other] .never later).2 with
  | error err =>
    rw [h] at hrun
    cases hrun
  | ok out =>
    rw [h] at hrun
    have hbody : out.body = Text.utf8 "xx+x!x".toList := Option.some.inj hrun
    refine ⟨out, rfl, hbody, ?_⟩
    have hall := declares_length engine outside request declared [other] .never later (by decide)
    have hlen := (hall.1 hd).2 out h (by rw [hbody]; decide)
    rw [hbody] at hlen
    exact hlen

end Engine

end EdgeInclude

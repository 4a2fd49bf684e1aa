import EdgeInclude.Plan
import EdgeInclude.Resolver.Basic

/-!
# Resolving many tags at once

The tags of a page, and those of pages that are asked for at the same time, are resolved together:
each tag goes on as far as it can without waiting, and then the fetch that ends first decides which
tag goes on. Of fetches that end together, that of the earlier tag comes first.

* `Visit.start`, `Visit.resume` — how far a tag goes without waiting.
* `Agenda.run` — goes on until no fetch is under way.
* `Resolver.resolveAll` — what is put into a page.
-/

namespace EdgeInclude

/-! ## 1. One tag among others -/

/-- How far a tag has come. -/
inductive Progress where
  /-- Its condition does not hold: it is removed. -/
  | omitted
  | done (o : Resolver.Outcome)
  | fetching (f : Fetch) (attempts : Nat) (rest : List Source)

/-- A tag that is resolved among others; `party` tells the requests apart. -/
structure Visit where
  party : Nat
  errand : Errand
  progress : Progress

namespace Visit

variable {σ : Type}

/-- Goes on with the sources that are left, at a time of the resolution, up to the first fetch that
does not end at once. -/
def advance (v : Resolver) (o : Surroundings σ) (e : Errand) :
    List Source → (time attempts : Nat) → World σ → World σ × Progress
  | [], _, attempts, w => (w, .done (Resolver.giveUp e.seat.tag attempts))
  | s :: rest, time, attempts, w =>
    match v.ask o e s time w with
    | (w, .served content) => (w, .done ⟨attempts, .ok ⟨.empty, content⟩⟩)
    | (w, .late) => (w, .done (Resolver.giveUp e.seat.tag attempts))
    | (w, .passedOver) => advance v o e rest time attempts w
    | (w, .fetching f) =>
      if time < f.ends then (w, .fetching f (attempts + 1) rest)
      else match v.settle e f w with
        | (w, .won r) => (w, .done ⟨attempts + 1, .ok r⟩)
        | (w, .gone err) => (w, .done ⟨attempts + 1, .error err⟩)
        | (w, .late) => (w, .done (Resolver.giveUp e.seat.tag (attempts + 1)))
        | (w, .next) => advance v o e rest time (attempts + 1) w

/-- Whether the condition of a tag holds, if it has one. -/
def isWanted (e : Errand) : Bool :=
  match e.seat.tag.condition with
  | some c => c.holds e.request
  | none => true

/-- Begins with a tag. -/
def start (v : Resolver) (o : Surroundings σ) (e : Errand) (w : World σ) : World σ × Progress :=
  if !isWanted e then (w, .omitted)
  else match Resolver.refusal? e with
    | some f => (w, .done ⟨0, .error f⟩)
    | none => advance v o e e.seat.tag.sources 0 0 w

/-- Goes on behind the end of a fetch. -/
def resume (v : Resolver) (o : Surroundings σ) (e : Errand) (w : World σ) :
    Progress → World σ × Progress
  | .fetching f attempts rest =>
    match v.settle e f w with
    | (w, .won r) => (w, .done ⟨attempts, .ok r⟩)
    | (w, .gone err) => (w, .done ⟨attempts, .error err⟩)
    | (w, .late) => (w, .done (Resolver.giveUp e.seat.tag attempts))
    | (w, .next) => advance v o e rest f.ends attempts w
  | p => (w, p)

/-- When the fetch that is under way ends. -/
def ends? (v : Visit) : Option Nat :=
  match v.progress with
  | .fetching f _ _ => some f.ends
  | _ => none

/-- How many sources may still be asked, the one that is being fetched included. -/
def weight (v : Visit) : Nat :=
  match v.progress with
  | .fetching _ _ rest => rest.length + 1
  | _ => 0

/-- How often backends have been asked. -/
def attempts (v : Visit) : Nat :=
  match v.progress with
  | .omitted => 0
  | .done o => o.attempts
  | .fetching _ n _ => n

end Visit

/-! ## 2. Many tags -/

/-- Tags that are resolved together. -/
abbrev Agenda := List Visit

namespace Agenda

variable {σ : Type}

/-- Begins with the tags of a request, in order. -/
def startAll (v : Resolver) (o : Surroundings σ) (party : Nat) :
    List Errand → World σ → World σ × Agenda
  | [], w => (w, [])
  | e :: rest, w =>
    let (w, p) := Visit.start v o e w
    let (w, more) := startAll v o party rest w
    (w, ⟨party, e, p⟩ :: more)

/-- The number and the end of the fetch that ends first, counted from `index`. -/
def first? (index : Nat) : Agenda → Option (Nat × Nat)
  | [] => none
  | v :: rest =>
    match v.ends?, first? (index + 1) rest with
    | none, r => r
    | some t, none => some (index, t)
    | some t, some (i, u) => if t ≤ u then some (index, t) else some (i, u)

/-- Goes on with one tag. -/
def resumeAt (v : Resolver) (o : Surroundings σ) (i : Nat) (a : Agenda) (w : World σ) :
    World σ × Agenda :=
  match a[i]? with
  | none => (w, a)
  | some visit =>
    let (w, p) := Visit.resume v o visit.errand w visit.progress
    (w, a.set i { visit with progress := p })

/-- At most `n` fetches end. -/
def steps (v : Resolver) (o : Surroundings σ) : Nat → Agenda → World σ → World σ × Agenda
  | 0, a, w => (w, a)
  | n + 1, a, w =>
    match first? 0 a with
    | none => (w, a)
    | some (i, _) =>
      let (w, a) := resumeAt v o i a w
      steps v o n a w

/-- How many fetches may still end. -/
def weight (a : Agenda) : Nat := a.foldr (·.weight + ·) 0

/-- Goes on until no fetch is under way. -/
def run (v : Resolver) (o : Surroundings σ) (a : Agenda) (w : World σ) : World σ × Agenda :=
  steps v o a.weight a w

end Agenda

/-! ## 3. A page -/

namespace Resolver

variable {σ : Type}

/-- The tags of a page, for a request. -/
def errands (page : Nat) (tags : Page) (r : Request) (d : Departure) : List Errand :=
  (Seat.ofPage page 0 tags).map fun s => ⟨s, r, d⟩

/-- What has come of a tag, once no fetch is under way. -/
def outcome (v : Visit) : Except Failure Response :=
  match v.progress with
  | .omitted => .ok ⟨.empty, []⟩
  | .done o => o.result
  | .fetching .. => .error (.internal "fetch did not end")

/-- Whether a tag is replaced by its fallback text. -/
def fellBack (v : Visit) : Bool :=
  match outcome v with
  | .ok _ => false
  | .error e => !e.isCancelled

/-- What stands in for a tag: nothing in the place of a tag that fails without fallback text. Only
that the request is given up fails the page. -/
def standIn (v : Visit) : Except Failure Response :=
  match outcome v with
  | .ok r => .ok r
  | .error e => if e.isCancelled then .error e else .ok ⟨.empty, Text.utf8 (e.fallback?.getD [])⟩

/-- The replacement of a tag, and the fields that come with it. -/
def replacement (v : Visit) : Except Failure (Replacement × Headers) := do
  let r ← standIn v
  let rep ← Replacement.make v.errand.seat.tag.raw.start v.errand.seat.tag.raw.stop r.content
  return (rep, r.headers)

/-- What is put into a page, once all of its tags are resolved. -/
def assemble (vs : List Visit) : Except Failure Resolution := do
  let parts ← vs.mapM replacement
  let tags ← Replacements.ofList (parts.map (·.1))
  return ⟨tags, parts.foldl (fun h p => h.appendAll p.2) .empty, vs.countP fellBack⟩

/-- Counts the tags that are replaced by their fallback text. -/
def countFallbacks (vs : List Visit) (w : World σ) : World σ :=
  w.count fun c => (vs.filter fellBack).foldl (fun c _ => c.fallback) c

/-- Resolves the tags of a page, and tells what has come of each. -/
def visitAll (v : Resolver) (o : Surroundings σ) (es : List Errand) (w : World σ) :
    World σ × List Visit :=
  let (w, a) := Agenda.startAll v o 0 es w
  let (w, a) := Agenda.run v o a w
  (countFallbacks a w, a)

/-- What is put into a page. -/
def resolveAll (v : Resolver) (o : Surroundings σ) (page : Nat) (tags : Page) (r : Request)
    (d : Departure) (w : World σ) : World σ × Except Failure Resolution :=
  let (w, vs) := v.visitAll o (errands page tags r d) w
  (w, assemble vs)

end Resolver

end EdgeInclude

import EdgeInclude.Engine.Basic

/-!
# Pages that are processed at the same time

Requests that come together share the scan of a page, and the fetches of all their tags are under
way together.

* `Engine.processAll` — the pages that go out for many bodies.
-/

namespace EdgeInclude.Engine

variable {σ : Type}

/-- A request for a page with its body. -/
structure Order where
  request : Request
  origin : Headers
  body : Bytes
  departure : Departure
  deriving DecidableEq, Repr

/-- An engine at work on several pages. -/
structure Workshop (σ : Type) where
  state : State σ
  agenda : Agenda

namespace Workshop

/-- Puts the tags of a party in front of those of later parties. -/
def place (vs a : Agenda) (party : Nat) : Agenda :=
  a.takeWhile (·.party < party) ++ vs ++ a.dropWhile (·.party < party)

/-- Begins with the tags of a page that has been parsed. -/
def takeUp (e : Engine) (o : Surroundings σ) (party : Nat) (order : Order)
    (r : Except Failure ParsedPage) (s : Workshop σ) : Workshop σ :=
  match r with
  | .error _ => s
  | .ok page =>
    let es := Resolver.errands page.id page.tags order.request order.departure
    let (w, vs) := Agenda.startAll e.resolver o party es s.state.world
    ⟨{ s.state with world := w }, place vs s.agenda party⟩

/-- The task of parsing a page and beginning with its tags. -/
def job (e : Engine) (o : Surroundings σ) (party : Nat) (order : Order) :
    Job (Workshop σ) Fingerprint (Except Failure ParsedPage) :=
  PageStore.job (fun s => s.state.pages)
    (fun s pages => { s with state := { s.state with pages := pages } })
    (e.fingerprint order.request) order.body (takeUp e o party order)

end Workshop

/-- The bodies that are looked at for tags, with the numbers of their orders. -/
def textOrders (party : Nat) : List Order → List (Nat × Order)
  | [] => []
  | order :: rest =>
    if Payload.looksLikeText order.body then (party, order) :: textOrders (party + 1) rest
    else textOrders (party + 1) rest

/-- The page that goes out for one of several orders, given what its parse has brought. -/
def conclude (order : Order) (vs : List Visit) (parsed : Option (Except Failure ParsedPage))
    (s : State σ) : State σ × Except Failure Served :=
  match parsed with
  | none => (s, .ok (unchanged order.origin order.body false))
  | some (.error err) =>
    if isMalformed err then (countDegraded s, .ok (unchanged order.origin order.body true))
    else (s, .error err)
  | some (.ok page) =>
    if page.tags.isEmpty then (s, .ok (unchanged order.origin order.body false))
    else
      let s := { s with world := Resolver.countFallbacks vs s.world }
      finish order.origin order.body (Resolver.assemble vs) s

/-- The pages that go out for the orders from number `party` on. -/
def concludeAll (parsed : List (Nat × Except Failure ParsedPage)) (a : Agenda) (party : Nat) :
    List Order → State σ → State σ × List (Except Failure Served)
  | [], s => (s, [])
  | order :: rest, s =>
    let (s, r) := conclude order (a.filter (·.party == party))
      ((parsed.find? (·.1 == party)).map (·.2)) s
    let (s, rs) := concludeAll parsed a (party + 1) rest s
    (s, r :: rs)

/-- The pages that go out for many bodies. -/
def processAll (e : Engine) (o : Surroundings σ) (orders : List Order) (s : State σ) :
    State σ × List (Except Failure Served) :=
  let s := { s with bytes := orders.foldl (fun b order => b.origin order.body.length) s.bytes }
  let texts := textOrders 0 orders
  let batch := Batch.run .empty ⟨s, []⟩
    (texts.map fun (party, order) => (Workshop.job e o party order, none))
  let parsed := texts.zipWith (fun t task => (t.1, match task.result? with
    | some (_, r) => r
    | none => .error PageStore.unanswered)) batch.tasks
  let (w, a) := batch.shared.agenda.run e.resolver o batch.shared.state.world
  concludeAll parsed a 0 orders { batch.shared.state with world := w }

end EdgeInclude.Engine

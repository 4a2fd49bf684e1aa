import EdgeInclude.Text.Basic

/-!
# One computation for many

Tasks that need the same value share one computation of it. The first task to come does the work;
the others wait. A task that is given up while it does the work passes it on to the one that has
waited longest.

* `Flight` — one computation: its value, the task that may do the work, and those that wait.
* `Coalescer` — the flights that are under way, by key.
* `Batch` — tasks that run together, each polled once a round while it has something to do.
* `Batch.run` — rounds until no task has anything to do.
-/

namespace EdgeInclude

/-! ## 1. One computation -/

/-- One computation. `permit` is the task that may do the work. -/
structure Flight (ν : Type) where
  value : Option ν
  permit : Option Nat
  queue : List Nat
  deriving DecidableEq, Repr

/-- What a task does next. -/
inductive Turn (ν : Type) where
  | ready (v : ν)
  | work
  | wait
  deriving DecidableEq, Repr

namespace Flight

variable {ν : Type}

/-- A computation that nobody has begun. -/
def new : Flight ν := ⟨none, none, []⟩

/-- A task asks for the value. -/
def ask (f : Flight ν) (task : Nat) : Flight ν × Turn ν :=
  match f.value with
  | some v => (f, .ready v)
  | none =>
    match f.permit with
    | none => ({ f with permit := some task }, .work)
    | some t =>
      if t == task then (f, .work)
      else if f.queue.contains task then (f, .wait)
      else ({ f with queue := f.queue ++ [task] }, .wait)

/-- The work is done. All that wait are woken. -/
def settle (f : Flight ν) (v : ν) : Flight ν × List Nat := (⟨some v, none, []⟩, f.queue)

/-- A task is given up. If it was to do the work, the first that waits is to do it. -/
def leave (f : Flight ν) (task : Nat) : Flight ν × List Nat :=
  if f.permit == some task then
    match f.queue with
    | t :: rest => ({ f with permit := some t, queue := rest }, [t])
    | [] => ({ f with permit := none }, [])
  else ({ f with queue := f.queue.erase task }, [])

end Flight

/-! ## 2. Flights by key -/

/-- All flights, by number, and for each key the number of the one under way. -/
structure Coalescer (κ ν : Type) where
  slots : List (κ × Nat)
  flights : List (Flight ν)
  deriving DecidableEq, Repr

namespace Coalescer

variable {κ ν : Type} [BEq κ]

/-- No flight is under way. -/
def empty : Coalescer κ ν := ⟨[], []⟩

/-- The flight under way for a key; a new one if there is none. -/
def join (c : Coalescer κ ν) (key : κ) : Coalescer κ ν × Nat :=
  match c.slots.find? (·.1 == key) with
  | some (_, n) => (c, n)
  | none => (⟨(key, c.flights.length) :: c.slots, c.flights ++ [.new]⟩, c.flights.length)

/-- The flight of a number. -/
def flight (c : Coalescer κ ν) (n : Nat) : Flight ν := (c.flights[n]?).getD .new

def set (c : Coalescer κ ν) (n : Nat) (f : Flight ν) : Coalescer κ ν :=
  { c with flights := c.flights.set n f }

/-- Ends a flight: the next task that comes for the key begins a new one. -/
def close (c : Coalescer κ ν) (key : κ) (n : Nat) : Coalescer κ ν :=
  { c with slots := c.slots.filter fun (k, m) => !(k == key && m == n) }

/-- The number of keys with a flight under way. -/
def inflight (c : Coalescer κ ν) : Nat := c.slots.length

end Coalescer

/-! ## 3. Tasks -/

/-- How a task came by its value. -/
inductive Role where
  /-- It needed no computation. -/
  | ready
  /-- It did the work. -/
  | leader
  /-- It waited for the work of another task. -/
  | follower
  deriving DecidableEq, Repr

/-- What a task is to do, on a state that all tasks share. -/
structure Job (σ κ ν : Type) where
  key : κ
  /-- Looks for a value that needs no computation. -/
  lookup : σ → σ × Option ν
  /-- The first step of the work. -/
  start : σ → σ
  /-- How often the work gives way before its last step. -/
  pauses : Nat
  /-- The last step of the work. -/
  finish : σ → σ × ν
  /-- What follows once the value is there. -/
  settle : Role → ν → σ → σ

/-- How far a task has come. -/
inductive Phase (ν : Type) where
  | fresh
  | waiting (flight : Nat)
  /-- It does the work and has still to give way `pauses` times. -/
  | working (flight pauses : Nat)
  | returned (role : Role) (v : ν)
  | dropped
  deriving DecidableEq, Repr

/-- A task. A task with a limit is dropped if it has not returned after so many polls. -/
structure Task (σ κ ν : Type) where
  job : Job σ κ ν
  limit : Option Nat
  phase : Phase ν
  awake : Bool

namespace Task

variable {σ κ ν : Type}

/-- A task that has not begun. -/
def new (job : Job σ κ ν) (limit : Option Nat) : Task σ κ ν :=
  ⟨job, limit, if limit == some 0 then .dropped else .fresh, true⟩

/-- Whether a task has neither returned nor been dropped. -/
def isLive (t : Task σ κ ν) : Bool :=
  match t.phase with
  | .returned .. | .dropped => false
  | _ => true

/-- The value of a task that has returned, and whether it did the work. -/
def result? (t : Task σ κ ν) : Option (Role × ν) :=
  match t.phase with
  | .returned role v => some (role, v)
  | _ => none

end Task

/-! ## 4. Running together -/

/-- Tasks that run together. -/
structure Batch (σ κ ν : Type) where
  coalescer : Coalescer κ ν
  shared : σ
  tasks : List (Task σ κ ν)

namespace Batch

variable {σ κ ν : Type} [BEq κ]

def setPhase (b : Batch σ κ ν) (i : Nat) (p : Phase ν) : Batch σ κ ν :=
  { b with tasks := b.tasks.modify i fun t => { t with phase := p } }

def wake (b : Batch σ κ ν) (is : List Nat) : Batch σ κ ν :=
  { b with tasks := is.foldl (fun ts i => ts.modify i fun t => { t with awake := true }) b.tasks }

/-- A task returns. -/
def finish (b : Batch σ κ ν) (i : Nat) (job : Job σ κ ν) (role : Role) (v : ν) : Batch σ κ ν :=
  { b.setPhase i (.returned role v) with shared := job.settle role v b.shared }

/-- The last step of the work. -/
def complete (b : Batch σ κ ν) (i : Nat) (job : Job σ κ ν) (n : Nat) : Batch σ κ ν :=
  let (shared, v) := job.finish b.shared
  let (f, woken) := (b.coalescer.flight n).settle v
  let b := { b with shared := shared, coalescer := (b.coalescer.set n f).close job.key n }
  (b.wake woken).finish i job .leader v

/-- A task asks its flight for the value. -/
def ask (b : Batch σ κ ν) (i : Nat) (job : Job σ κ ν) (n : Nat) : Batch σ κ ν :=
  let (f, turn) := (b.coalescer.flight n).ask i
  let b := { b with coalescer := b.coalescer.set n f }
  match turn with
  | .ready v => b.finish i job .follower v
  | .wait => b.setPhase i (.waiting n)
  | .work =>
    let b := { b with shared := job.start b.shared }
    if job.pauses == 0 then b.complete i job n
    else (b.setPhase i (.working n job.pauses)).wake [i]

/-- One step of a task, in its phase. -/
def advance (b : Batch σ κ ν) (i : Nat) (job : Job σ κ ν) : Phase ν → Batch σ κ ν
  | .fresh =>
    let (shared, found) := job.lookup b.shared
    let b := { b with shared := shared }
    match found with
    | some v => b.finish i job .ready v
    | none =>
      let (c, n) := b.coalescer.join job.key
      { b with coalescer := c }.ask i job n
  | .waiting n => b.ask i job n
  | .working n pauses =>
    if pauses ≤ 1 then b.complete i job n
    else (b.setPhase i (.working n (pauses - 1))).wake [i]
  | .returned .. | .dropped => b

/-- The flight that a task takes part in. -/
def flightOf? : Phase ν → Option Nat
  | .waiting n | .working n _ => some n
  | _ => none

/-- Gives a task up. -/
def drop (b : Batch σ κ ν) (i : Nat) (t : Task σ κ ν) : Batch σ κ ν :=
  match flightOf? t.phase with
  | some n =>
    let (f, woken) := (b.coalescer.flight n).leave i
    ({ b with coalescer := b.coalescer.set n f }.setPhase i .dropped).wake woken
  | none => b.setPhase i .dropped

/-- Counts one poll against the limit of a task, and drops the task if that was its last. A task
with a limit is polled in every round. -/
def charge (b : Batch σ κ ν) (i : Nat) : Batch σ κ ν :=
  match b.tasks[i]? with
  | none => b
  | some t =>
    match t.limit with
    | none => b
    | some n =>
      let b := { b with
        tasks := b.tasks.modify i fun t => { t with limit := some (n - 1), awake := true } }
      if n ≤ 1 && t.isLive then b.drop i t else b

/-- Polls one task, if it has something to do. -/
def poll (b : Batch σ κ ν) (i : Nat) : Batch σ κ ν :=
  match b.tasks[i]? with
  | none => b
  | some t =>
    if t.awake && t.isLive then
      let b := { b with tasks := b.tasks.modify i fun t => { t with awake := false } }
      (b.advance i t.job t.phase).charge i
    else b

/-- Polls every task once, in order. -/
def round (b : Batch σ κ ν) : Batch σ κ ν := (List.range b.tasks.length).foldl poll b

/-- Whether no task has anything to do. -/
def isQuiet (b : Batch σ κ ν) : Bool := b.tasks.all fun t => !(t.awake && t.isLive)

/-- At most `n` rounds. -/
def rounds : Nat → Batch σ κ ν → Batch σ κ ν
  | 0, b => b
  | n + 1, b => if b.isQuiet then b else rounds n b.round

/-- No batch takes more rounds than this: every round but the last takes one of its tasks a step
further. -/
def bound (jobs : List (Job σ κ ν)) : Nat := jobs.foldr (fun j n => j.pauses + 3 + n) 1

/-- Runs tasks together until none has anything to do. -/
def run (c : Coalescer κ ν) (s : σ) (jobs : List (Job σ κ ν × Option Nat)) : Batch σ κ ν :=
  rounds (bound (jobs.map (·.1)))
    ⟨c, s, jobs.map fun (job, limit) => Task.new job limit⟩

end Batch

end EdgeInclude

import EdgeInclude.Backend.Fetch

/-!
# Simulated surroundings

Pages can be tried out without a network: backends follow scripts, and of the programs of a machine
a few simple ones are known.

* `Simulation.surroundings` — scripted backends, known programs, and a network that cannot be
  reached.
* `Simulation.program` — what a known program does.
* `Logbook` — what has happened so far, for inspection.
* `Cast` — backends to try pages with: scripted ones and stores.
-/

namespace EdgeInclude

/-! ## 1. Scripts -/

/-- What a scripted backend does when it is called. -/
inductive Cue where
  | answer (a : Answer)
  /-- It answers with the call itself, after some milliseconds. -/
  | echo (after : Nat)

/-- A scripted backend: the n-th call gets the n-th cue, and the last one again from then on. -/
structure Script where
  name : Text
  cues : List Cue

/-- Something that has happened to a scripted backend. -/
inductive Happening where
  | called (name url : Text) (key : Option Text)
  | closed (name : Text)
  deriving DecidableEq, Repr

/-- What has happened so far. -/
structure Logbook where
  log : List Happening
  /-- The scripts that have been called, by number, the last call first. -/
  calls : List Nat
  deriving DecidableEq, Repr

namespace Logbook

/-- Nothing has happened. -/
def empty : Logbook := ⟨[], []⟩

/-- One more thing has happened. -/
def note (s : Logbook) (h : Happening) : Logbook := { s with log := s.log ++ [h] }

end Logbook

namespace Simulation

/-- The answer that a cue makes to a call. -/
def perform (c : Call) : Cue → Answer
  | .answer a => a
  | .echo after => ⟨some after, .ok ⟨.empty, Text.utf8 c.datum.compact⟩⟩

/-- The cue for call number `n`. -/
def cue? (s : Script) (n : Nat) : Option Cue :=
  match s.cues[n]? with
  | some c => some c
  | none => s.cues.getLast?

/-- The answer when there is no cue. -/
def silence : Answer := ⟨none, .error (.internal "no cue")⟩

/-- The answer of a script. -/
def call (scripts : List Script) (id : Nat) (c : Call) (s : Logbook) : Logbook × Answer :=
  match scripts[id]? with
  | none => (s, silence)
  | some script =>
    let s' := s.note (.called script.name c.url c.key)
    ({ s' with calls := id :: s.calls },
      ((cue? script (s.calls.count id)).map (perform c)).getD silence)

/-- Notes that a script is told to close. -/
def close (scripts : List Script) (id : Nat) (s : Logbook) : Logbook :=
  match scripts[id]? with
  | none => s
  | some script => s.note (.closed script.name)

/-! ## 2. Programs -/

/-- The directories that programs are looked for in. -/
def programDirs : List Text := ["/bin/".toList, "/usr/bin/".toList]

/-- The name of a program in one of these directories. -/
def programName? (path : Text) : Option String :=
  (programDirs.findSome? fun d => List.isPrefixOf? d path).map String.ofList

/-- The bytes that a pipe holds until somebody reads. -/
def pipe : Nat := 65536

/-- When input has been taken of which nobody reads what does not fit into some pipes. -/
def taken (pipes : Nat) (input : Bytes) : Option Nat :=
  if input.length ≤ pipes * pipe then some 0 else none

/-- A program that succeeds with some output. -/
def succeeding (taken : Option Nat) (out : Bytes) : ProgramRun :=
  .ran taken (.ended out) [] true "exit status: 0" (some 0)

/-- The bytes that a program without an end writes each millisecond. -/
def rate : Nat := 1000000

/-- Directories that cannot be run. -/
def directories : List Text := ["/", "/bin", "/bin/", "/etc", "/tmp", "/usr"].map String.toList

/-- What a program does with its input: a copy of it waits for its reader, output without an end
does not read at all. -/
def program (path : Text) (input : Bytes) : ProgramRun :=
  match programName? path with
  | some "cat" => succeeding (taken 2 input) input
  | some "true" => succeeding (some 0) []
  | some "echo" => succeeding (some 0) [0x0A]
  | some "false" => .ran (some 0) (.ended []) [] false "exit status: 1" (some 0)
  | some "yes" => .ran (taken 1 input) (.endless rate) [] true "exit status: 0" none
  | _ =>
    if directories.contains path then .missing "Permission denied (os error 13)"
    else .missing "No such file or directory (os error 2)"

/-! ## 3. All together -/

/-- The network cannot be reached. -/
def unreachable : Delivery := .failed ⟨false, "unreachable"⟩

/-- Scripted backends, known programs, and a network that cannot be reached. The clock is held while
they answer. -/
def surroundings (scripts : List Script) : Surroundings Logbook where
  network _ s := (s, some 0, unreachable)
  program path input s := (s, program path input)
  custom := call scripts
  close := close scripts
  pace := 0

end Simulation

/-! ## 4. Casts -/

/-- What a backend of a cast is. -/
inductive Part where
  | scripted (cues : List Cue)
  | stored (s : Store)

/-- Backends to try pages with: their scripts and stores by number, and what they are registered
for. A store has a script too, which is never called. -/
structure Cast where
  scripts : List Script
  registry : Registry
  stores : List (Nat × Store)

namespace Cast

/-- No backends. -/
def empty : Cast := ⟨[], .empty, []⟩

/-- The number of the next backend. -/
def next (c : Cast) : Nat := c.scripts.length

/-- The next backend, as the registry knows it. -/
def backend (c : Cast) (name : Text) : Part → Backend
  | .scripted _ => .custom c.next name
  | .stored _ => .store c.next

/-- The cast with a registry in place of its own, and one more part. -/
def enlist (c : Cast) (name : Text) (r : Registry) : Part → Cast
  | .scripted cues => ⟨c.scripts ++ [⟨name, cues⟩], r, c.stores⟩
  | .stored s => ⟨c.scripts ++ [⟨name, []⟩], r, (c.next, s) :: c.stores⟩

/-- The cast with a backend for a scheme. -/
def withScheme (c : Cast) (name : Text) (p : Part) : Cast :=
  c.enlist name (c.registry.withScheme name (c.backend name p)) p

/-- The cast with a backend for an alias. -/
def withAlias (c : Cast) (name : Text) (p : Part) : Cast :=
  c.enlist name (c.registry.withAlias name (c.backend name p)) p

/-- The number of the backend of a name. -/
def number (c : Cast) (name : Text) : Nat := c.scripts.findIdx (·.name == name)

/-- What lies outside for a cast. -/
def surroundings (c : Cast) : Surroundings Logbook := Simulation.surroundings c.scripts

end Cast

end EdgeInclude

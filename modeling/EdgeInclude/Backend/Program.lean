import EdgeInclude.Backend.Call

/-!
# Fragments from programs

A program of the machine reads a call on its standard input; what it writes on its standard output
is the fragment. Too much output and a status other than success are failures. The output is not
read while the input is written, so that a program may wait for its reader while its writer waits
for it; no time is too long for that.

* `ProgramRun` — what a program does.
* `Program.path` — the program that a call runs.
* `Program.judge` — the answer that a run makes.
-/

namespace EdgeInclude

/-! ## 1. Programs -/

/-- The output of a program. -/
inductive Output where
  | ended (bytes : Bytes)
  /-- Output without an end, at a rate of so many bytes each millisecond. -/
  | endless (rate : Nat)
  deriving DecidableEq, Repr

/-- What a program does. -/
inductive ProgramRun where
  /-- It cannot be started. -/
  | missing (reason : String)
  /-- It has taken its input after some milliseconds, or never, if it waits for its output to be
  read first. It writes output and errors, and ends with a status, maybe after some more
  milliseconds. -/
  | ran (taken : Option Nat) (output : Output) (errors : Bytes) (success : Bool) (status : String)
    (lasts : Option Nat)
  deriving DecidableEq, Repr

namespace Program

/-! ## 2. Running -/

/-- The program that a call runs: the configured one, else what the address of the call names, in
front of the first question mark. -/
def path (configured : Option Text) (c : Call) : Except Failure Text :=
  match configured with
  | some p => .ok p
  | none => do
    let (_, rest) ← splitScheme c.url
    let p := rest.takeWhile (· != '?')
    if p.isEmpty then .error (.notValid s!"no program in {Text.quoted c.url}") else .ok p

/-- What a program reads on its standard input. -/
def input (c : Call) : Bytes := Text.utf8 c.datum.compact

/-- How many bytes of output are read: one more than may come. There is no such word for the largest
one. -/
def readLimit (maxBody : Nat) : Except Failure Nat :=
  if maxBody + 1 < 1 <<< 64 then .ok (maxBody + 1)
  else .error (.crash "attempt to add with overflow")

/-- How many bytes of error output are kept. -/
def errorLimit : Nat := 4096

/-- The failure of a program that takes too long. -/
def tooSlow (program : Text) (c : Call) : Failure :=
  .timeout s!"{String.ofList program} exceeded {c.timeout.text}"

/-- What comes of a program whose output has been read. -/
def conclude (p : String) (content errors : Bytes) (success : Bool) (status : String) :
    Except Failure Response :=
  if success then .ok ⟨.empty, content⟩
  else .error (.backendFatal
    s!"{p} exited with {status}: {String.ofList (Text.trim (Utf8.lossy errors))}")

/-- An answer after some milliseconds, or never, within the time that the call allows. -/
def within (program : Text) (c : Call) (lasts : Option Nat) (result : Except Failure Response) :
    Answer :=
  match lasts.filter fun n => c.timeout == 0 || n < c.timeout.ceilMillis with
  | some n => ⟨some n, result⟩
  | none =>
    if c.timeout == 0 then ⟨none, result⟩
    else ⟨some c.timeout.ceilMillis, .error (tooSlow program c)⟩

/-- The failure of a program with too much output. -/
def tooMuch (p : String) (c : Call) : Failure := .io s!"{p} produced more than {c.maxBody} bytes"

/-- The answer to output that is read up to one byte past the limit; that byte fails the call at
once. -/
def judgeOutput (program : Text) (c : Call) (limit : Nat) (output : Output)
    (conclusion : Bytes → Except Failure Response) (lasts : Option Nat) : Answer :=
  let fault := Except.error (tooMuch (String.ofList program) c)
  match output with
  | .ended bytes =>
    let content := bytes.take limit
    if c.maxBody < content.length then ⟨some 0, fault⟩
    else within program c lasts (conclusion content)
  | .endless rate => within program c (some (c.maxBody / rate)) fault

/-- The answer that a run makes. Nothing is read before all input has been taken, and the time that
the call allows begins then. -/
def judge (program : Text) (c : Call) : ProgramRun → Answer
  | .missing reason =>
    ⟨some 0, .error (.backendFatal s!"spawn {String.ofList program}: {reason}")⟩
  | .ran none .. => ⟨none, .error (tooSlow program c)⟩
  | .ran (some taken) output errors success status lasts =>
    match readLimit c.maxBody with
    | .error e => ⟨some taken, .error e⟩
    | .ok limit =>
      let errors := errors.take errorLimit
      (judgeOutput program c limit output
        (fun content => conclude (String.ofList program) content errors success status)
        lasts).later taken

end Program

end EdgeInclude

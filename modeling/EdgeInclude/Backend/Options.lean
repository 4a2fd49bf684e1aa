import EdgeInclude.Backend.Call
import EdgeInclude.Url.Read

/-!
# Options of backends

The address of a backend carries its options: where it is, and parameters in the query.

* `Options.read` — the options that an address writes. Parameters that are not known are kept.
* `Options.address`, `Options.allServers` — where the backend is.
* `Options.datum` — the options as a structured value.
-/

namespace EdgeInclude

/-- The options of a backend. -/
structure Options where
  raw : Text
  url : Url
  scheme : Text
  username : Option Text
  password : Option Text
  host : Text
  port : Option Nat
  path : Text
  db : Nat
  maxActive : Nat
  maxIdle : Nat
  idleTimeout : Duration
  cancellable : Bool
  eager : Bool
  servers : List Text
  /-- Parameters of other names, the last value of each. -/
  params : List (Text × Text)
  deriving DecidableEq, Repr

namespace Options

/-! ## 1. Parameters -/

/-- A number that a parameter gives. -/
def number (name : Text) (bound : Nat) (v : Text) : Except Failure Nat :=
  match Decimal.readNat? bound (Text.trim v) with
  | some n => .ok n
  | none => .error (.notValid s!"{String.ofList name} must be a number, got {Text.quoted v}")

/-- A truth value that a parameter gives. -/
def flag (name v : Text) : Except Failure Bool :=
  let s := Text.lower (Text.trim v)
  if ["1", "true", "yes", "on"].any (·.toList == s) then .ok true
  else if ["0", "false", "no", "off", ""].any (·.toList == s) then .ok false
  else .error (.notValid s!"{String.ofList name} must be a boolean, got {Text.quoted v}")

/-- A duration that a parameter gives. -/
def duration (name v : Text) : Except Failure Duration :=
  match Duration.read? v with
  | some d => .ok d
  | none =>
    .error (.notValid s!"{String.ofList name}: {(ParseFault.failure (.duration v)).message}")

/-- The options with one more parameter. -/
def set (o : Options) (name v : Text) : Except Failure Options :=
  if name == "db".toList then
    (number name ((1 <<< 32) - 1) v).map fun n => { o with db := n }
  else if name == "max_active".toList then
    (number name Decimal.maxWord v).map fun n => { o with maxActive := n }
  else if name == "max_idle".toList then
    (number name Decimal.maxWord v).map fun n => { o with maxIdle := n }
  else if name == "idle_timeout".toList then
    (duration name v).map fun d => { o with idleTimeout := d }
  else if name == "cancellable".toList then
    (flag name v).map fun b => { o with cancellable := b }
  else if name == "lazy".toList then
    (flag name v).map fun b => { o with eager := !b }
  else if name == "server".toList then .ok { o with servers := o.servers ++ [v] }
  else .ok { o with params := o.params.filter (·.1 != name) ++ [(name, v)] }

/-! ## 2. Reading -/

/-- The options of an address without parameters. -/
def ofUrl (raw : Text) (u : Url) : Options where
  raw := raw
  url := u
  scheme := u.scheme
  username := (u.authority.map (·.username)).filter (!·.isEmpty)
  password := u.authority.bind (·.password)
  host := u.hostText
  port := u.port?
  path := UrlPath.text u.path
  db := 0
  maxActive := 10
  maxIdle := 3
  idleTimeout := .ofSeconds 240
  cancellable := false
  eager := true
  servers := []
  params := []

/-- The options that an address writes. -/
def read (raw : Text) : Except Failure Options := do
  let _ ← splitScheme raw
  match Url.read raw with
  | .error e => .error (.notValid s!"invalid options URL {Text.quoted raw}: {e.message}")
  | .ok u => u.queryFields.foldlM (fun o (name, v) => o.set name v) (ofUrl raw u)

/-! ## 3. Where a backend is -/

/-- The host, with the port if there is one. -/
def address (o : Options) : Text :=
  match o.port with
  | some p => o.host ++ ':' :: Nat.toDigits 10 p
  | none => o.host

/-- The address of the backend and those of its further servers. -/
def allServers (o : Options) : List Text :=
  (if o.host.isEmpty then [] else [o.address]) ++ o.servers

/-! ## 4. As a structured value -/

/-- Texts as a structured value. -/
def listDatum (ss : List Text) : Datum := .list (ss.map .text)

/-- A text that may be missing, as a structured value. -/
def textDatum (s : Option Text) : Datum := (s.map Datum.text).getD .null

/-- The options as a structured value. -/
def datum (o : Options) : Datum :=
  .map <| [
    ("raw", .text o.raw), ("scheme", .text o.scheme), ("username", textDatum o.username),
    ("password", textDatum o.password), ("host", .text o.host),
    ("port", (o.port.map fun p => Datum.int p).getD .null), ("path", .text o.path),
    ("db", .int o.db), ("max_active", .int o.maxActive), ("max_idle", .int o.maxIdle),
    ("idle_timeout", .text (Nat.toDigits 10 o.idleTimeout)), ("cancellable", .bool o.cancellable),
    ("lazy", .bool (!o.eager)), ("servers", listDatum o.servers),
    ("params", .map (o.params.map fun (n, v) => (n, .text v))), ("address", .text o.address),
    ("all_servers", listDatum o.allServers)].map fun (n, d) => (n.toList, d)

end Options

end EdgeInclude

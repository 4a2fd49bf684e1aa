import EdgeInclude.Config.Basic
import EdgeInclude.Yaml.Read

/-!
# Reading configurations

* `Config.ofDatum?` — the configuration that a structured value describes. What is not said is as in
  the standard configuration; names that are not known are passed over.
* `Config.ofYaml`, `Config.ofFile` — the configuration that a document or a file describes, checked.
-/

namespace EdgeInclude.Config

/-! ## 1. Records -/

/-- The fields of a record, by name. -/
abbrev Record := List (Text × Datum)

/-- Whether a name occurs twice. -/
def repeats (names : List Text) (r : Record) : Bool :=
  names.any fun n => 1 < r.countP (·.1 == n)

/-- The fields of a record. Where `inOrder` holds, the values may stand without their names in the
order of the names, the first `needed` of them at least. -/
def record? (inOrder : Bool) (names : List String) (needed : Nat) : Datum → Option Record
  | .map fields => if repeats (names.map String.toList) fields then none else some fields
  | .list items =>
    if inOrder && needed ≤ items.length && items.length ≤ names.length then
      some ((names.map String.toList).zip items)
    else none
  | d => if d.isBlank then some [] else none

/-- The value of a field, or what stands for one that is missing. -/
def get {α : Type} (r : Record) (name : String) (missing : α) (read : Datum → Option α) :
    Option α :=
  match Datum.field? r name.toList with
  | some d => read d
  | none => some missing

/-- A value that may be nothing. -/
def optional? {α : Type} (read : Datum → Option α) (d : Datum) : Option (Option α) :=
  if d.isNull then some none else (read d).map some

/-- A list of texts. -/
def texts? : Datum → Option (List Text)
  | .list items => items.mapM Datum.text?
  | d => if d.isBlank then some [] else none

/-- A field put in its place among fields in order; it replaces one of its name. -/
def place (f : Text × Text) (fs : List (Text × Text)) : List (Text × Text) :=
  fs.filter (·.1 < f.1) ++ f :: fs.filter (f.1 < ·.1)

/-- Texts by name, in order. -/
def textMap? : Datum → Option (List (Text × Text))
  | .map fields => do
    let fs ← fields.mapM fun (n, d) => d.text?.map fun t => (n, t)
    return fs.foldl (fun m f => place f m) []
  | d => if d.isBlank then some [] else none

/-! ## 2. Parts -/

/-- A number of 32 bits. -/
def word32? : Datum → Option Nat := Datum.nat? ((1 <<< 32) - 1)

/-- A number of 64 bits. -/
def word? : Datum → Option Nat := Datum.nat? Decimal.maxWord

/-- The name of a choice. Where `inOrder` holds, nothing may stand behind the name. -/
def choice? (inOrder : Bool) : Datum → Option Text
  | .map [(n, .null)] => if inOrder then some n else none
  | d => d.text?

/-- A kind of cache. -/
def kind? (inOrder : Bool) (d : Datum) : Option CacheKind := do
  let name ← choice? inOrder d
  [CacheKind.locked, .readMostly].find? fun k => kindName k == name

def pageCache? (inOrder : Bool) (d : Datum) : Option CacheKind := do
  get (← record? inOrder ["kind"] 0 d) "kind" .locked (kind? inOrder)

def fragments? (inOrder : Bool) (d : Datum) : Option FragmentSettings := do
  let r ← record? inOrder ["enabled", "max_size_bytes"] 0 d
  return ⟨← get r "enabled" FragmentSettings.standard.enabled Datum.bool?,
    ← get r "max_size_bytes" FragmentSettings.standard.maxSize word?⟩

def metrics? (inOrder : Bool) (d : Datum) : Option MetricsSettings := do
  let r ← record? inOrder ["enabled", "address"] 0 d
  return ⟨← get r "enabled" false Datum.bool?,
    ← get r "address" MetricsSettings.standardAddress Datum.text?⟩

def purge? (inOrder : Bool) (d : Datum) : Option PurgeSettings := do
  let r ← record? inOrder ["enabled", "auth_token", "enable_metrics"] 2 d
  return ⟨← get r "enabled" false Datum.bool?,
    ← get r "auth_token" none (optional? Datum.text?),
    ← get r "enable_metrics" true Datum.bool?⟩

/-! ## 3. Configurations -/

/-- The names of the fields, in order. -/
def names : List String :=
  ["upstream_address", "listen_address", "esi_patterns", "max_failures", "max_backoffs",
    "backoff_base_ms", "default_timeout_ms", "default_ttl_secs", "max_body_size", "max_tag_size",
    "page_cache", "fragment_cache", "resources", "allow_shell_urls", "page_variation_headers",
    "log_level", "metrics_endpoint", "purge"]

/-- The configuration that a structured value describes. -/
def ofDatum? (inOrder : Bool) (d : Datum) : Option Config := do
  let r ← record? inOrder names 0 d
  let s := standard
  return {
    origin := ← get r "upstream_address" s.origin Datum.text?
    listen := ← get r "listen_address" s.listen Datum.text?
    patterns := ← get r "esi_patterns" s.patterns texts?
    maxFailures := ← get r "max_failures" s.maxFailures word32?
    maxBackoffs := ← get r "max_backoffs" s.maxBackoffs word32?
    backoffMillis := ← get r "backoff_base_ms" s.backoffMillis word?
    timeoutMillis := ← get r "default_timeout_ms" s.timeoutMillis word?
    lifetimeSeconds := ← get r "default_ttl_secs" s.lifetimeSeconds word?
    maxBody := ← get r "max_body_size" s.maxBody word?
    maxTag := ← get r "max_tag_size" s.maxTag word?
    pages := ← get r "page_cache" s.pages (pageCache? inOrder)
    fragments := ← get r "fragment_cache" s.fragments (fragments? inOrder)
    resources := ← get r "resources" s.resources textMap?
    programs := ← get r "allow_shell_urls" s.programs Datum.bool?
    varyBy := ← get r "page_variation_headers" s.varyBy texts?
    logLevel := ← get r "log_level" s.logLevel Datum.text?
    metrics := ← get r "metrics_endpoint" s.metrics (optional? (metrics? inOrder))
    purge := ← get r "purge" s.purge (optional? (purge? inOrder)) }

/-- A configuration that has passed its checks. -/
def checked (c : Config) : Except Failure Config := do
  c.validate
  return c

/-- The configuration that a document describes. -/
def ofYaml (s : Text) : Except Failure Config :=
  match (Yaml.read? s).bind (ofDatum? false) with
  | some c => c.checked
  | none => .error (.config "Failed to parse config file")

/-- The configuration in a file, given its bytes or why it cannot be read. -/
def ofFile : Except String Bytes → Except Failure Config
  | .error reason => .error (.config s!"Failed to read config file: {reason}")
  | .ok bytes =>
    match Text.ofUtf8? bytes with
    | some s => ofYaml s
    | none => .error (.config "Failed to read config file: stream did not contain valid UTF-8")

end EdgeInclude.Config

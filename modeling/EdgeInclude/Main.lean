import EdgeInclude.Config.Read
import EdgeInclude.Engine.Basic

/-!
# Command line

Reads the configuration in a file, makes an engine of it, and tells what it decides.
-/

namespace EdgeInclude

/-- The file that is read if none is named. -/
def standardFile : String := "edge-include.yaml"

/-- The lines that tell what a configuration decides, or why there is no engine for it. -/
def startup (file : Except String Bytes) : Except String (List String) :=
  match Config.ofFile file with
  | .error e => .error s!"Failed to load configuration: {e.message}"
  | .ok c =>
    match Engine.ofConfig c with
    | .error e => .error s!"Failed to create engine: {e.message}"
    | .ok _ => .ok c.summary

end EdgeInclude

/-- Reads the configuration in the file that is named, or in the standard one. -/
def main (args : List String) : IO UInt32 := do
  let file ← try
      pure (Except.ok (← IO.FS.readBinFile (args.headD EdgeInclude.standardFile)).toList)
    catch e => pure (Except.error (toString e))
  match EdgeInclude.startup file with
  | .ok lines => lines.forM IO.println; return 0
  | .error message => IO.eprintln message; return 1

import NesRoutine.Config
import NesRoutine.Toml.Document

/-! Settings read from TOML. Fields that are missing keep their defaults, and
keys that name no field are passed over. -/
namespace NesRoutine.Config

open Toml (Misfit)

inductive Error where
  | file (cause : FileError)
  /-- The text that could not be read, and why. -/
  | parse (source : String) (cause : Toml.Error)
  | invalid (cause : Invalid)
  deriving DecidableEq, Repr, Inhabited

def Error.message : Error → String
  | file cause => "failed to read config: " ++ cause.message
  | parse source cause => "failed to parse config: " ++ cause.text source
  | invalid cause => cause.message

def Error.cause? : Error → Option String
  | file cause => some cause.message
  | parse source cause => some (cause.text source)
  | invalid _ => none

def unsigned (bound : Nat) (expected : String) : Toml.Value → Except Misfit Nat
  | .integer n =>
    if 0 ≤ n ∧ n < bound then .ok n.toNat else .error (.wrongInteger n expected)
  | v => .error (.wrongType v.found expected)

def number : Toml.Value → Except Misfit Binary64
  | .float x => .ok x
  | .integer n => .ok (.ofInt n)
  | v => .error (.wrongType v.found "f64")

def text : Toml.Value → Except Misfit String
  | .string s => .ok s
  | v => .error (.wrongType v.found "path string")

def isEmptyContents : Toml.Value → Except Misfit Unit
  | .array [] | .table _ [] => .ok ()
  | .array _ | .table .. | .tables .. => .error .contents
  | v => .error (.notContents v.kind)

/-- One of several names: as a string, or as the key of a table that holds
nothing else, with empty contents. -/
def variant (known : List (String × α)) : Toml.Value → Except Misfit α
  | .string s => named s
  | .table _ [] => .error .noVariant
  | .table _ [(key, _, contents)] => do
    let a ← named key.name
    isEmptyContents contents
    return a
  | .table .. => .error .manyVariants
  | _ => .error .notVariant
where
  named (s : String) : Except Misfit α :=
    match known.lookup s with
    | some a => .ok a
    | none => .error (.unknownVariant s (known.map Prod.fst))

def modes : List (String × TimingMode) :=
  [TimingMode.eventDriven, .cycleAccurate].map fun m => (m.name, m)

def policies : List (String × FailurePolicy) :=
  [FailurePolicy.abort, .markAbsent].map fun p => (p.name, p)

/-- Sets the field that a key names. -/
def set (c : Config) (key : String) (v : Toml.Value) : Except Misfit Config := do
  match key with
  | "mode" => return { c with mode := ← variant modes v }
  | "cycles_per_frame" => return { c with cyclesPerFrame := ← unsigned (1 <<< 32) "u32" v }
  | "stats_interval_cycles" => return { c with statsInterval := ← unsigned (1 <<< 64) "u64" v }
  | "frame_interval_ms" => return { c with frameInterval := ← unsigned (1 <<< 64) "u64" v }
  | "cpu_clock_hz" => return { c with cpuClock := ← number v }
  | "failure_policy" => return { c with failurePolicy := ← variant policies v }
  | "cache_path" => return { c with cachePath := some (← text v) }
  | _ => return c

def ofDocument (d : Toml.Document) : Except Toml.Error Config :=
  d.root.foldlM (fun c (key, span, value) =>
    (c.set key.name value).mapError fun cause =>
      { complaint := .misfit cause, span := span.getD key.span }) {}

/-- Reads settings and checks them. -/
def ofToml (source : String) : Except Error Config := do
  let config ← (Toml.Document.parse source >>= ofDocument).mapError (Error.parse source)
  config.validate.mapError Error.invalid
  return config

end NesRoutine.Config

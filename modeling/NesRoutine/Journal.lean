import NesRoutine.Compiler.Error

/-! What the library reports while it works: log records, kept from a chosen
level on, and the notes made for a debugger. -/
namespace NesRoutine

inductive LogLevel where
  | trace | debug | info | warn
  deriving DecidableEq, Repr, Inhabited

def LogLevel.name : LogLevel → String
  | trace => "TRACE"
  | debug => "DEBUG"
  | info => "INFO"
  | warn => "WARN"

inductive LogRecord where
  | discovered (entry : UInt16) (instructions targets : Nat)
  | entered (address : UInt16) (registers : Registers)
  | left (address : UInt16) (registers : Registers)
  | compiled (entry : UInt16) (instructions ops : Nat)
  | skipped (address : UInt16) (error : Compiler.Error)
  | absent (address : UInt16) (error : Compiler.Error)
  | saved (count : Nat)
  | loaded (count : Nat)
  | cacheLoaded (count : Nat) (path : String)
  | cacheSaved (count : Nat) (path : String)
  | cacheIgnored (path : String) (error : Artifact.Mismatch)
  | reset (state : Snapshot)
  | started (state : Snapshot)
  | stopped (cycles frames : Nat)
  deriving DecidableEq, Repr, Inhabited

namespace LogRecord

def level : LogRecord → LogLevel
  | discovered .. | entered .. | left .. => .trace
  | compiled .. | skipped .. | reset _ => .debug
  | absent .. | cacheIgnored .. => .warn
  | _ => .info

def message : LogRecord → String
  | discovered entry instructions targets =>
    s!"decompiled {Hex.address entry}: {instructions} instructions, {targets} jump targets"
  | entered address registers => s!"enter {Hex.address address} {registers.text}"
  | left address registers => s!"exit  {Hex.address address} {registers.text}"
  | compiled entry instructions ops =>
    s!"compiled {Hex.address entry}: {instructions} instructions, {ops} ops"
  | skipped address error => s!"precompile skipped {Hex.address address}: {error.message}"
  | absent address error => s!"no compiled code for {Hex.address address}: {error.message}"
  | saved count => s!"saved {count} compiled functions"
  | loaded count => s!"loaded {count} compiled functions"
  | cacheLoaded count path => s!"loaded {count} compiled functions from {path}"
  | cacheSaved count path => s!"saved {count} compiled functions to {path}"
  | cacheIgnored path error => s!"ignoring cache {path}: {error.message}"
  | reset state => s!"reset: {state.text}"
  | started state => s!"emulator started at {state.text}"
  | stopped cycles frames => s!"emulator stopped after {cycles} cycles, {frames} frames"

def text (r : LogRecord) : String := s!"{r.level.name} {r.message}"

end LogRecord

structure Journal where
  /-- Nothing is logged below this level, and nothing at all without one. -/
  level : Option LogLevel := none
  records : Array LogRecord := #[]
  notes : Array Note := #[]
  deriving Inhabited

namespace Journal

def log (j : Journal) (r : LogRecord) : Journal :=
  match j.level with
  | some level => if level.ctorIdx ≤ r.level.ctorIdx then { j with records := j.records.push r } else j
  | none => j

def note (j : Journal) (n : Note) : Journal := { j with notes := j.notes.push n }

/-- The notes made since they were last taken. -/
def takeNotes (j : Journal) : Array Note × Journal := (j.notes, { j with notes := #[] })

end Journal
end NesRoutine

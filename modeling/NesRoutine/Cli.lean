import NesRoutine.Cli.Arguments
import NesRoutine.Compiler.Precompile
import NesRoutine.Config.Reader
import NesRoutine.Emulator.Session
import NesRoutine.Pacer

/-! What the commands do. -/
namespace NesRoutine.Cli

/-- The surroundings of a command: files, a clock and a place to write to. -/
structure Host (m : Type → Type) where
  files : Files m
  clock : Clock m
  /-- Writes a line. -/
  print : String → m Unit

/-- What went wrong, and the causes behind it, the nearest first. -/
structure Failure where
  context : String
  causes : List String := []
  deriving DecidableEq, Repr, Inhabited

/-- A cause with every line indented; several causes are numbered. -/
def causeText (number : Option Nat) (text : String) : String :=
  let lines := text.splitOn "\n"
  match number with
  | none => "    " ++ "\n    ".intercalate lines
  | some n =>
    let digits := toString n
    let margin := String.ofList (List.replicate (5 - digits.length) ' ')
    margin ++ digits ++ ": " ++ "\n       ".intercalate lines

def Failure.text (f : Failure) : String :=
  match f.causes with
  | [] => s!"Error: {f.context}\n"
  | [cause] =>
    let shown := causeText none cause
    s!"Error: {f.context}\n\nCaused by:\n{shown}\n"
  | causes =>
    let shown := "\n".intercalate (causes.mapIdx fun n cause => causeText (some n) cause)
    s!"Error: {f.context}\n\nCaused by:\n{shown}\n"

def Failure.ofFile (context : String) (cause : FileError) : Failure := ⟨context, [cause.message]⟩

def Failure.ofConfig (context : String) (cause : Config.Error) : Failure :=
  ⟨context, cause.message :: cause.cause?.toList⟩

def Failure.ofCompiler (context : String) (cause : Compiler.Error) : Failure :=
  ⟨context, cause.message :: cause.cause?.toList⟩

def Failure.ofEmulator (context : String) (cause : Emulator.Error) : Failure :=
  ⟨context, cause.message :: cause.cause?.toList⟩

variable {m : Type → Type} [Monad m]

def loadCartridge (host : Host m) (rom : String) : ExceptT Failure m Cartridge := do
  match ← host.files.read rom with
  | .error cause => throw (.ofFile s!"failed to read ROM file {rom}" cause)
  | .ok bytes =>
    match Cartridge.ofRom bytes.toArray with
    | .error cause => throw ⟨"failed to load cartridge", [cause.message]⟩
    | .ok cartridge =>
      host.print "Loaded cartridge:"
      host.print s!"  PRG ROM: {cartridge.prg.size} bytes"
      host.print s!"  CHR ROM: {cartridge.chr.size} bytes"
      host.print s!"  Mapper: {cartridge.mapper}"
      return cartridge

/-- Compiles all that can be reached from the vectors, and saves it if asked to. -/
def compile (host : Host m) (options : CompileOptions) : ExceptT Failure m Unit := do
  let cartridge ← loadCartridge host options.rom
  let vectors := (Hardware.ofPrg cartridge.prg).vectors
  let reset := Hex.address vectors.reset
  let nmi := Hex.address vectors.nmi
  let irq := Hex.address vectors.irq
  host.print s!"Vectors: reset {reset} nmi {nmi} irq {irq}"
  let compiler : Compiler := { regions := cartridge.codeRegions }
  let (report, compiler) := compiler.precompile vectors.entries
  host.print s!"Compiled {report.compiled.size} functions"
  for (address, cause) in report.failed do
    host.print s!"  {Hex.address address}: {cause.message}"
  match options.output with
  | none => return
  | some path =>
    match compiler.save with
    | (.error cause, _) => throw (.ofCompiler "failed to write cache" cause)
    | (.ok (count, bytes), _) =>
      match ← host.files.write path bytes with
      | .error cause => throw (.ofFile s!"failed to create {path}" cause)
      | .ok () => host.print s!"Wrote {count} functions to {path}"

/-- Reports on a run and saves the cache. -/
def finish (host : Host m) (e : Emulator) (dumpState : Bool) : ExceptT Failure m Unit := do
  let stats := e.stats
  let absent := e.dispatcher.absent.size
  host.print (s!"Completed {stats.frames} frames, {stats.totalCycles} cycles, "
    ++ s!"{stats.compiled} compiled functions, {absent} interpreted addresses")
  if dumpState then host.print e.hardware.summary
  match ← (e.saveCache host.files : m _) with
  | (.error cause, _) => throw (.ofEmulator "failed to save cache" cause)
  | (.ok none, _) => return
  | (.ok (some count), _) => host.print s!"Saved {count} functions"

/-- How long so many seconds are. -/
def duration (seconds : Binary64) : Nat :=
  let (num, den) := seconds.ratio
  num * second / den

/-- Runs in real time, until the time is up or the emulator stops. -/
def runPaced (host : Host m) (e : Emulator) (seconds : Binary64) : m Emulator := do
  let place := e.subscribe
  let started ← host.clock.now
  let pacer := (Pacer.start { mode := e.config.mode, emulator := e } started)
  let deadline := started + duration seconds
  let stopped (p : Pacer) : Bool := (p.emulator.eventsSince place).contains .stopped
  let (_, pacer) ← pacer.waitFor host.clock deadline stopped (1 <<< 60)
  return pacer.stop.emulator

def configOf (host : Host m) (options : RunOptions) : ExceptT Failure m Config := do
  let config ← match options.config with
    | none => pure {}
    | some path =>
      let context := s!"failed to load config {path}"
      match ← host.files.read path with
      | .error cause => throw (.ofConfig context (.file cause))
      | .ok bytes =>
        match String.fromUTF8? ⟨bytes.toArray⟩ with
        | none => throw (.ofConfig context (.file .invalidText))
        | some source =>
          match Config.ofToml source with
          | .error cause => throw (.ofConfig context cause)
          | .ok config => pure config
  return { config with
    mode := options.mode.getD config.mode
    cachePath := options.cache.or config.cachePath }

def run (host : Host m) (options : RunOptions) : ExceptT Failure m Unit := do
  let config ← configOf host options
  if !options.seconds.isPositive then
    throw ⟨"--seconds must be positive", []⟩
  let cartridge ← loadCartridge host options.rom
  match ← (Emulator.load host.files cartridge config : m _) with
  | (.error cause, _) => throw (.ofEmulator "failed to start emulator" cause)
  | (.ok emulator, _) =>
    match options.frames with
    | some frames =>
      host.print s!"\nRunning {frames} frames..."
      match emulator.start.frames frames with
      | (_, some cause, _) => throw (.ofCompiler "frame failed" cause)
      | (_, none, emulator) => finish host emulator.stop options.dumpState
    | none => finish host (← (runPaced host emulator options.seconds : m _)) options.dumpState

/-- What the arguments are for. -/
def usage : String :=
  "Usage: [-v]... compile <ROM> [-o <OUTPUT>]\n" ++
  "       [-v]... run <ROM> [-c <CONFIG>] [-m <MODE>] [--cache <CACHE>] [-f <FRAMES>] " ++
  "[-s <SECONDS>] [-d]"

/-- How a command ended. -/
inductive Outcome where
  | done
  | failed (f : Failure)
  | misused (cause : UsageError)
  deriving Inhabited

def Outcome.code : Outcome → UInt8
  | done => 0
  | failed _ => 1
  | misused _ => 2

def Outcome.errorText : Outcome → String
  | done => ""
  | failed f => f.text
  | misused cause => s!"error: {cause.message}\n\n{usage}\n"

/-- Carries out the command that the arguments give. -/
def perform (host : Host m) (arguments : List String) : m Outcome := do
  match Command.ofArguments arguments with
  | .error cause => return .misused cause
  | .ok .help =>
    host.print usage
    return .done
  | .ok (.compile options) => ended (← (compile host options).run)
  | .ok (.run options) => ended (← (run host options).run)
where
  ended : Except Failure Unit → m Outcome
    | .ok () => return .done
    | .error f => return .failed f

/-- A world kept in memory. -/
structure World where
  folder : Folder := {}
  time : Nat := 0
  lines : List String := []
  deriving Inhabited

/-- Works on a part of a state. -/
def onPart (get : σ → τ) (put : τ → σ → σ) (x : StateM τ α) : StateM σ α := fun s =>
  let (a, t) := x.run (get s)
  (a, put t s)

namespace World

def onFolder (x : StateM Folder α) : StateM World α :=
  onPart World.folder (fun folder w => { w with folder }) x

def onClock (x : StateM Nat α) : StateM World α :=
  onPart World.time (fun time w => { w with time }) x

def host : Host (StateM World) where
  files := {
    exists? := fun path => onFolder (Folder.store.exists? path)
    read := fun path => onFolder (Folder.store.read path)
    write := fun path bytes => onFolder (Folder.store.write path bytes) }
  clock := {
    now := onClock Clock.counting.now
    sleepUntil := fun time => onClock (Clock.counting.sleepUntil time) }
  print line := modify fun w => { w with lines := line :: w.lines }

/-- What has been written so far. -/
def output (w : World) : String := String.join (w.lines.reverse.map (· ++ "\n"))

end World
end NesRoutine.Cli

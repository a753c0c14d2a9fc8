import NesRoutine.Cartridge
import NesRoutine.Compiler.Cache
import NesRoutine.Config

/-! An emulator advances the hardware by whole steps: the processor once, the
picture unit three dots, and then the NMI if one of the dots started the vertical
blank. -/
namespace NesRoutine

namespace Emulator

inductive Error where
  | cartridge (cause : Cartridge.Error)
  | config (cause : Config.Invalid)
  | compiler (cause : Compiler.Error)
  | notRunning
  deriving DecidableEq, Repr, Inhabited

def Error.message : Error → String
  | cartridge cause => cause.message
  | config cause => cause.message
  | compiler cause => cause.message
  | notRunning => "emulator is not running"

def Error.cause? : Error → Option String
  | compiler cause => cause.cause?
  | _ => none

structure Stats where
  totalCycles : Nat
  scanline : Int
  running : Bool
  frames : Nat
  compiled : Nat
  /-- Whether any time has been spent running since the last reset. -/
  timed : Bool
  deriving DecidableEq, Repr, Inhabited

/-- Whether the average speed is more than zero. -/
def Stats.hasRate (s : Stats) : Bool := s.timed && s.totalCycles != 0

inductive Event where
  | stats (s : Stats)
  /-- The picture unit finished its `count`-th frame. -/
  | frame (count : Nat)
  | stopped
  deriving DecidableEq, Repr, Inhabited

end Emulator

open Emulator in
structure Emulator where
  config : Config
  hardware : Hardware
  dispatcher : Dispatcher
  running : Bool := false
  paused : Bool := false
  totalCycles : Nat := 0
  frameCount : Nat := 0
  /-- The cycle count at which statistics are due. -/
  nextStats : Int
  /-- Whether an earlier run took any time. -/
  ranBefore : Bool := false
  /-- All that has happened so far; a subscriber reads on from where it joined. -/
  events : Array Event := #[]
  deriving Inhabited

namespace Emulator

/-- The interval as a signed 64-bit number, which is how cycles are counted. -/
def signedInterval (c : Config) : Int := (c.statsInterval : Int).bmod (1 <<< 64)

/-- An emulator for a cartridge, reset and ready. `cache` is what the cache file
holds, if there is one; a cache made for another program is passed over. -/
def ofCartridge (cartridge : Cartridge) (config : Config) (cache : Option (List UInt8))
    (journal : Journal := {}) : Except Error Emulator × Journal :=
  match config.validate with
  | .error e => (.error (.config e), journal)
  | .ok () =>
    let compiler : Compiler := { regions := cartridge.codeRegions, journal }
    match loaded compiler with
    | (.error e, compiler) => (.error (.compiler e), compiler.journal)
    | (.ok (), compiler) =>
      let hardware := (Hardware.ofPrg cartridge.prg).reset
      let compiler := compiler.log (.reset hardware.snapshot)
      (.ok {
        config
        hardware
        dispatcher := { compiler, policy := config.failurePolicy }
        nextStats := signedInterval config }, compiler.journal)
where
  loaded (compiler : Compiler) : Except Compiler.Error Unit × Compiler :=
    match cache, config.cachePath with
    | some bytes, some path =>
      match compiler.load bytes with
      | (.ok count, compiler) => (.ok (), compiler.log (.cacheLoaded count path))
      | (.error (.cacheMismatch m), compiler) =>
        (.ok (), (compiler.log (.cacheIgnored path m)).log (.cacheLoaded 0 path))
      | (.error e, compiler) => (.error e, compiler)
    | _, _ => (.ok (), compiler)

def journal (e : Emulator) : Journal := e.dispatcher.compiler.journal

def log (e : Emulator) (r : LogRecord) : Emulator :=
  { e with dispatcher := { e.dispatcher with compiler := e.dispatcher.compiler.log r } }

def emit (e : Emulator) (event : Event) : Emulator := { e with events := e.events.push event }

def stats (e : Emulator) : Stats where
  totalCycles := e.totalCycles
  scanline := e.hardware.bus.ppu.state.scanline
  running := e.running
  frames := e.frameCount
  compiled := e.dispatcher.compiler.units.size
  timed := e.running || e.ranBefore

/-- One dot of the picture unit; the answer says whether the vertical blank
started. -/
def dot (e : Emulator) : Bool × Emulator :=
  let (event, hardware) := e.hardware.stepPpu
  let e := { e with hardware }
  match event with
  | .nothing => (false, e)
  | .vblankStarted => (true, e)
  | .frameComplete =>
    (false, { e with frameCount := e.frameCount + 1 }.emit (.frame (e.frameCount + 1)))

/-- The dots that follow a step of the processor. -/
def dots (e : Emulator) : Emulator :=
  let (first, e) := e.dot
  let (second, e) := e.dot
  let (third, e) := e.dot
  if first || second || third then { e with hardware := e.hardware.nmi } else e

/-- Counts a step, and reports statistics when they are due. -/
def count (e : Emulator) : Emulator :=
  let e := { e with totalCycles := e.totalCycles + 1 }
  if e.config.statsInterval ≠ 0 ∧ e.nextStats ≤ e.totalCycles then
    let e := { e with nextStats := e.nextStats + signedInterval e.config }
    e.emit (.stats e.stats)
  else
    e

def step (e : Emulator) : Except Compiler.Error Unit × Emulator :=
  match e.dispatcher.step e.hardware with
  | (.error cause, dispatcher, hardware) => (.error cause, { e with dispatcher, hardware })
  | (.ok (), dispatcher, hardware) => (.ok (), { e with dispatcher, hardware }.dots.count)

/-- Takes up to `n` steps; the answer is how many, and what stopped the others. -/
def steps (n : Nat) (e : Emulator) : Nat × Option Compiler.Error × Emulator :=
  go n 0 e
where
  go : Nat → Nat → Emulator → Nat × Option Compiler.Error × Emulator
    | 0, done, e => (done, none, e)
    | n + 1, done, e =>
      match e.step with
      | (.error cause, e) => (done, some cause, e)
      | (.ok (), e) => go n (done + 1) e

/-- The steps of one frame, up to the first that fails. -/
def frame (e : Emulator) : Except Compiler.Error Unit × Emulator :=
  match e.steps e.config.cyclesPerFrame with
  | (_, none, e) => (.ok (), e)
  | (_, some cause, e) => (.error cause, e)

/-- Runs up to `n` frames; the answer is how many, and what stopped the others. -/
def frames (n : Nat) (e : Emulator) : Nat × Option Compiler.Error × Emulator :=
  go n 0 e
where
  go : Nat → Nat → Emulator → Nat × Option Compiler.Error × Emulator
    | 0, done, e => (done, none, e)
    | n + 1, done, e =>
      match e.frame with
      | (.error cause, e) => (done, some cause, e)
      | (.ok (), e) => go n (done + 1) e

def start (e : Emulator) : Emulator :=
  if e.running then e
  else { e with running := true, paused := false }.log (.started e.hardware.snapshot)

def stop (e : Emulator) : Emulator :=
  if e.running then
    { e with running := false, paused := false, ranBefore := true }
      |>.log (.stopped e.totalCycles e.frameCount)
      |>.emit .stopped
  else
    e

def setPaused (e : Emulator) (paused : Bool) : Except Error Emulator :=
  if e.running then .ok { e with paused } else .error .notRunning

def pause (e : Emulator) : Except Error Emulator := e.setPaused true

def resume (e : Emulator) : Except Error Emulator := e.setPaused false

/-- Resets the hardware and starts counting anew; compiled code is kept. -/
def reset (e : Emulator) : Emulator :=
  { e with
    hardware := e.hardware.reset
    totalCycles := 0
    frameCount := 0
    nextStats := signedInterval e.config
    ranBefore := false }

/-- A place in the history from which a subscriber reads. -/
def subscribe (e : Emulator) : Nat := e.events.size

/-- What has happened since a place in the history. -/
def eventsSince (e : Emulator) (place : Nat) : List Event :=
  (e.events.extract place e.events.size).toList

end Emulator
end NesRoutine

import NesRoutine.Binary64
import NesRoutine.Compiler.Error
import NesRoutine.Dispatcher

/-! Settings of an emulator. -/
namespace NesRoutine

/-- How frames are paced in real time. -/
inductive TimingMode where
  /-- One frame at each tick of a timer. -/
  | eventDriven
  /-- Frames follow the nominal clock of the processor. -/
  | cycleAccurate
  deriving DecidableEq, Repr, Inhabited

def TimingMode.name : TimingMode → String
  | eventDriven => "event-driven"
  | cycleAccurate => "cycle-accurate"

structure Config where
  mode : TimingMode := .eventDriven
  /-- Processor steps in a frame. -/
  cyclesPerFrame : Nat := 29781
  /-- Processor steps between two reports of statistics; none are made for 0. -/
  statsInterval : Nat := 10000
  /-- The period of the event-driven timer in milliseconds. -/
  frameInterval : Nat := 16
  /-- In cycles per second: 1789773. -/
  cpuClock : Binary64 := ⟨0x413B4F4D00000000⟩
  failurePolicy : FailurePolicy := .markAbsent
  /-- Compiled units are read from here at the start and written here at the end. -/
  cachePath : Option String := none
  deriving DecidableEq, Repr, Inhabited

namespace Config

inductive Invalid where
  | cyclesPerFrame
  | frameInterval
  | cpuClock
  | timingMode (name : String)
  deriving DecidableEq, Repr, Inhabited

def Invalid.message : Invalid → String
  | cyclesPerFrame => "invalid config value: cycles_per_frame must be positive"
  | frameInterval => "invalid config value: frame_interval_ms must be positive"
  | cpuClock => "invalid config value: cpu_clock_hz must be positive"
  | timingMode name => s!"invalid config value: unknown timing mode '{name}'"

def validate (c : Config) : Except Invalid Unit :=
  if c.cyclesPerFrame = 0 then .error .cyclesPerFrame
  else if c.frameInterval = 0 then .error .frameInterval
  else if !c.cpuClock.isPositive then .error .cpuClock
  else .ok ()

end Config

/-- A mode by its name, or by the first word of it. -/
def TimingMode.ofName (name : String) : Except Config.Invalid TimingMode :=
  if name = "event-driven" ∨ name = "event" then .ok .eventDriven
  else if name = "cycle-accurate" ∨ name = "cycle" then .ok .cycleAccurate
  else .error (.timingMode name)

end NesRoutine

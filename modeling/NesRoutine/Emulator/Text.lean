import NesRoutine.Emulator
import NesRoutine.Hardware.Text

/-! The full diagnostic text of an emulator. -/
namespace NesRoutine

def Emulator.record (e : Emulator) : String :=
  recordText "NesEmulator"
    [("hardware", e.hardware.record), ("running", toString e.running),
     ("paused", toString e.paused), ("total_cycles", toString e.totalCycles),
     ("frame_count", toString e.frameCount)]

end NesRoutine

import NesRoutine.Hardware
import NesRoutine.Text.Record

/-! The full diagnostic text of the hardware. -/
namespace NesRoutine

def Registers.record (r : Registers) : String :=
  recordText "CpuState"
    [("a", toString r.a), ("x", toString r.x), ("y", toString r.y), ("sp", toString r.sp),
     ("pc", toString r.pc), ("status", toString r.status.bits)]

def Ppu.State.record (s : Ppu.State) : String :=
  recordText "PpuState"
    [("control", toString s.control), ("mask", toString s.mask), ("status", toString s.status),
     ("oam_address", toString s.oamAddress), ("vram_address", toString s.vramAddress),
     ("scroll_x", toString s.scrollX), ("scroll_y", toString s.scrollY),
     ("scanline", toString s.scanline), ("cycle", toString s.cycle),
     ("in_vblank", toString s.inVblank)]

def Hardware.record (h : Hardware) : String :=
  recordText "NesHardware"
    [("cpu", h.cpu.registers.record), ("ppu", h.bus.ppu.state.record),
     ("listeners", toString h.listeners.length)]

end NesRoutine

import NesRoutine.Controller
import NesRoutine.Cpu
import NesRoutine.Memory
import NesRoutine.Ppu

/-! The console: processor, picture unit, memory and two controller ports, with
the transfers of control that compiled units are written against. -/
namespace NesRoutine

/-- The whole address space as the processor sees it. -/
structure SystemBus where
  memory : Memory := {}
  ppu : Ppu := {}
  port1 : Controller := {}
  port2 : Controller := {}
  deriving DecidableEq, Inhabited

namespace SystemBus

def joypad1 : UInt16 := 0x4016
def joypad2 : UInt16 := 0x4017

def read (b : SystemBus) (address : UInt16) : UInt8 × SystemBus :=
  if 0x2000 ≤ address ∧ address < 0x4000 then
    let (value, ppu) := b.ppu.readRegister address
    (value, { b with ppu })
  else if address = joypad1 then
    let (value, port1) := b.port1.read
    (value, { b with port1 })
  else if address = joypad2 then
    let (value, port2) := b.port2.read
    (value, { b with port2 })
  else
    (b.memory.read address, b)

/-- One strobe line feeds both controllers. -/
def write (b : SystemBus) (address : UInt16) (value : UInt8) : SystemBus :=
  if 0x2000 ≤ address ∧ address < 0x4000 then
    { b with ppu := b.ppu.writeRegister address value }
  else if address = joypad1 then
    { b with port1 := b.port1.write value, port2 := b.port2.write value }
  else
    { b with memory := b.memory.write address value }

instance : Bus SystemBus where
  read := read
  write := write

end SystemBus

structure Vectors where
  nmi : UInt16
  reset : UInt16
  irq : UInt16
  deriving DecidableEq, Repr

/-- The distinct vector targets: reset, then NMI, then IRQ. -/
def Vectors.entries (v : Vectors) : List UInt16 :=
  [v.reset, v.nmi, v.irq].foldl (fun seen a => if seen.contains a then seen else seen ++ [a]) []

structure Hardware where
  cpu : Cpu := {}
  bus : SystemBus := {}
  /-- Who is told of picture unit events, in the order of registration. -/
  listeners : List Nat := []
  deriving DecidableEq, Inhabited

namespace Hardware

def ofPrg (prg : Array UInt8) : Hardware := { bus := { memory := { prg } } }

def read (h : Hardware) (address : UInt16) : UInt8 × Hardware :=
  let (value, bus) := h.bus.read address
  (value, { h with bus })

def write (h : Hardware) (address : UInt16) (value : UInt8) : Hardware :=
  { h with bus := h.bus.write address value }

def readWord (h : Hardware) (address : UInt16) : UInt16 × Hardware :=
  let (value, bus) := Bus.readWord h.bus address
  (value, { h with bus })

def register (h : Hardware) (r : Register) : UInt8 := h.cpu.registers.get r

def setRegister (h : Hardware) (r : Register) (value : UInt8) : Hardware :=
  { h with cpu := { h.cpu with registers := h.cpu.registers.set r value } }

def status (h : Hardware) : Status := h.cpu.registers.status

def setStatus (h : Hardware) (status : Status) : Hardware :=
  { h with cpu := h.cpu.setStatus status }

def flag (h : Hardware) (f : Flag) : Bool := h.status.get f

def setFlag (h : Hardware) (f : Flag) (on : Bool) : Hardware := h.setStatus (h.status.set f on)

def setZeroNegative (h : Hardware) (value : UInt8) : Hardware :=
  (h.setFlag .zero (value == 0)).setFlag .negative (value &&& 0x80 != 0)

def pc (h : Hardware) : UInt16 := h.cpu.registers.pc

def setPc (h : Hardware) (pc : UInt16) : Hardware := { h with cpu := h.cpu.setPc pc }

def restoreCpu (h : Hardware) (registers : Registers) : Hardware :=
  { h with cpu := { h.cpu with registers } }

def restorePpu (h : Hardware) (state : Ppu.State) : Hardware :=
  { h with bus := { h.bus with ppu := h.bus.ppu.restore state } }

def setPrg (h : Hardware) (prg : Array UInt8) : Hardware :=
  { h with bus := { h.bus with memory := { h.bus.memory with prg } } }

def push (h : Hardware) (value : UInt8) : Hardware :=
  let (cpu, bus) := h.cpu.push h.bus value
  { h with cpu, bus }

def pop (h : Hardware) : UInt8 × Hardware :=
  let (value, cpu, bus) := h.cpu.pop h.bus
  (value, { h with cpu, bus })

/-- Pushes the address of the last byte of the calling instruction. -/
def call (h : Hardware) (target : UInt16) : Hardware :=
  let (cpu, bus) := h.cpu.pushWord h.bus (h.pc - 1)
  { h with cpu := cpu.setPc target, bus }

/-- Continues one past the popped address. -/
def returnFromSubroutine (h : Hardware) : Hardware :=
  let (popped, cpu, bus) := h.cpu.popWord h.bus
  { h with cpu := cpu.setPc (popped + 1), bus }

/-- Pops the status, then the address to continue at. -/
def returnFromInterrupt (h : Hardware) : Hardware :=
  let (status, cpu, bus) := h.cpu.pop h.bus
  let (pc, cpu, bus) := (cpu.setStatus (.ofPopped status)).popWord bus
  { h with cpu := cpu.setPc pc, bus }

/-- `BRK` with PC at its opcode: the byte after the opcode is skipped on return. -/
def softwareInterrupt (h : Hardware) : Hardware :=
  let (cpu, bus) := h.cpu.enter h.bus (h.pc + 2) h.status.pushedBySoftware Cpu.irqVector
  { h with cpu, bus }

/-- The high byte comes from the same page as the low byte. -/
def jumpIndirect (h : Hardware) (pointer : UInt16) : Hardware :=
  let (lo, h) := h.read pointer
  let (hi, h) := h.read ((pointer &&& 0xFF00) ||| ((pointer + 1) &&& 0x00FF))
  h.setPc (word lo hi)

def nmi (h : Hardware) : Hardware :=
  let (cpu, bus) := h.cpu.nmi h.bus
  { h with cpu, bus }

def irq (h : Hardware) : Bool × Hardware :=
  let (taken, cpu, bus) := h.cpu.irq h.bus
  (taken, { h with cpu, bus })

/-- Steps over the byte at PC. -/
def skip (h : Hardware) : Hardware :=
  let (cpu, bus) := h.cpu.skip h.bus
  { h with cpu, bus }

/-- Clears RAM, resets the picture unit and enters the reset vector; the
controllers keep their state. -/
def reset (h : Hardware) : Hardware :=
  let bus := { h.bus with memory := h.bus.memory.reset, ppu := h.bus.ppu.reset }
  let (cpu, bus) := Cpu.reset bus
  { h with cpu, bus }

/-- One dot of the picture unit. -/
def stepPpu (h : Hardware) : Ppu.Event × Hardware :=
  let (event, ppu) := h.bus.ppu.step
  (event, { h with bus := { h.bus with ppu } })

/-- Runs `n` dots; the answer lists those that brought something about. -/
def runPpu (n : Nat) (h : Hardware) : List (Nat × Ppu.Event) × Hardware :=
  let (events, ppu) := h.bus.ppu.run n
  (events, { h with bus := { h.bus with ppu } })

/-- Who hears of an event; nothing is said when nothing happened. -/
def notices (h : Hardware) : Ppu.Event → List (Nat × Ppu.Event)
  | .nothing => []
  | event => h.listeners.map (·, event)

def takeFrameComplete (h : Hardware) : Bool × Hardware :=
  let (done, ppu) := h.bus.ppu.takeFrameComplete
  (done, { h with bus := { h.bus with ppu } })

def controller? (h : Hardware) : Nat → Option Controller
  | 0 => some h.bus.port1
  | 1 => some h.bus.port2
  | _ => none

/-- There are two ports; buttons held on any other are lost. -/
def holdButtons (h : Hardware) (player : Nat) (buttons : UInt8) : Hardware :=
  match player with
  | 0 => { h with bus := { h.bus with port1 := h.bus.port1.hold buttons } }
  | 1 => { h with bus := { h.bus with port2 := h.bus.port2.hold buttons } }
  | _ => h

def vectors (h : Hardware) : Vectors where
  nmi := h.bus.memory.readWord Cpu.nmiVector
  reset := h.bus.memory.readWord Cpu.resetVector
  irq := h.bus.memory.readWord Cpu.irqVector

end Hardware

/-- The part of the hardware that diagnostics show. -/
structure Snapshot where
  registers : Registers
  scanline : Int
  cycle : Int
  inVblank : Bool
  deriving DecidableEq, Repr, Inhabited

def Snapshot.text (s : Snapshot) : String :=
  let vblank := if s.inVblank then 1 else 0
  s!"{s.registers.text} SL:{s.scanline} CYC:{s.cycle} VBL:{vblank}"

namespace Hardware

def snapshot (h : Hardware) : Snapshot where
  registers := h.cpu.registers
  scanline := h.bus.ppu.state.scanline
  cycle := h.bus.ppu.state.cycle
  inVblank := h.bus.ppu.state.inVblank

def summary (h : Hardware) : String := h.snapshot.text

end Hardware
end NesRoutine

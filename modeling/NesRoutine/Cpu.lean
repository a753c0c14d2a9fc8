import NesRoutine.Bus
import NesRoutine.Cpu.Status
import NesRoutine.Text.Hex

/-! Registers, stack and interrupts of the processor. What instructions do is
the business of compiled units; the processor itself only steps over bytes that
no unit covers. Decimal mode does not exist: its flag is kept and never used. -/
namespace NesRoutine

inductive Register where
  | a | x | y | sp
  deriving DecidableEq, Repr, Inhabited

namespace Register

def all : List Register := [a, x, y, sp]

theorem all_ctorIdx (r : Register) : all[r.ctorIdx]? = some r := by cases r <;> rfl

def name : Register → String
  | a => "A"
  | x => "X"
  | y => "Y"
  | sp => "SP"

end Register

structure Registers where
  a : UInt8 := 0
  x : UInt8 := 0
  y : UInt8 := 0
  sp : UInt8 := 0xFF
  pc : UInt16 := 0
  status : Status := .initial
  deriving DecidableEq, Repr, Inhabited

namespace Registers

def get (r : Registers) : Register → UInt8
  | .a => r.a
  | .x => r.x
  | .y => r.y
  | .sp => r.sp

def set (r : Registers) : Register → UInt8 → Registers
  | .a, v => { r with a := v }
  | .x, v => { r with x := v }
  | .y, v => { r with y := v }
  | .sp, v => { r with sp := v }

def text (r : Registers) : String :=
  s!"PC:{Hex.word r.pc} A:{Hex.byte r.a} X:{Hex.byte r.x} Y:{Hex.byte r.y} " ++
  s!"SP:{Hex.byte r.sp} P:{Hex.byte r.status.bits} [{r.status.text}]"

end Registers

structure Cpu where
  registers : Registers := {}
  /-- Bytes stepped over because no unit covered them. -/
  skipped : Nat := 0
  deriving DecidableEq, Repr, Inhabited

namespace Cpu

def nmiVector : UInt16 := 0xFFFA
def resetVector : UInt16 := 0xFFFC
/-- Shared by interrupt requests and `BRK`. -/
def irqVector : UInt16 := 0xFFFE

def stackAddress (sp : UInt8) : UInt16 := 0x0100 ||| sp.toUInt16

def setPc (cpu : Cpu) (pc : UInt16) : Cpu :=
  { cpu with registers := { cpu.registers with pc } }

def setStatus (cpu : Cpu) (status : Status) : Cpu :=
  { cpu with registers := { cpu.registers with status } }

def setSp (cpu : Cpu) (sp : UInt8) : Cpu :=
  { cpu with registers := { cpu.registers with sp } }

variable {β : Type} [Bus β]

def reset (bus : β) : Cpu × β :=
  let (pc, bus) := Bus.readWord bus resetVector
  ({ registers := { pc } }, bus)

/-- Writes below the stack pointer, which wraps inside page 1. -/
def push (cpu : Cpu) (bus : β) (value : UInt8) : Cpu × β :=
  let sp := cpu.registers.sp
  (cpu.setSp (sp - 1), Bus.write bus (stackAddress sp) value)

def pop (cpu : Cpu) (bus : β) : UInt8 × Cpu × β :=
  let sp := cpu.registers.sp + 1
  let (value, bus) := Bus.read bus (stackAddress sp)
  (value, cpu.setSp sp, bus)

/-- High byte first, so that the word lies little-endian in memory. -/
def pushWord (cpu : Cpu) (bus : β) (value : UInt16) : Cpu × β :=
  let (cpu, bus) := cpu.push bus (highByte value)
  cpu.push bus (lowByte value)

def popWord (cpu : Cpu) (bus : β) : UInt16 × Cpu × β :=
  let (lo, cpu, bus) := cpu.pop bus
  let (hi, cpu, bus) := cpu.pop bus
  (word lo hi, cpu, bus)

/-- Saves PC and the given status byte, disables interrupts and enters `vector`. -/
def enter (cpu : Cpu) (bus : β) (resume : UInt16) (status : UInt8) (vector : UInt16) : Cpu × β :=
  let (cpu, bus) := cpu.pushWord bus resume
  let (cpu, bus) := cpu.push bus status
  let cpu := cpu.setStatus (cpu.registers.status.set .interruptDisable true)
  let (pc, bus) := Bus.readWord bus vector
  (cpu.setPc pc, bus)

def interrupt (cpu : Cpu) (bus : β) (vector : UInt16) : Cpu × β :=
  cpu.enter bus cpu.registers.pc cpu.registers.status.pushedByHardware vector

def nmi (cpu : Cpu) (bus : β) : Cpu × β := cpu.interrupt bus nmiVector

/-- A request is ignored while interrupts are disabled; the answer says whether
it was taken. -/
def irq (cpu : Cpu) (bus : β) : Bool × Cpu × β :=
  if cpu.registers.status.get .interruptDisable then
    (false, cpu, bus)
  else
    (true, cpu.interrupt bus irqVector)

/-- Reads the byte at PC, for the sake of the read, and moves past it. -/
def skip (cpu : Cpu) (bus : β) : Cpu × β :=
  let (_, bus) := Bus.read bus cpu.registers.pc
  let cpu := cpu.setPc (cpu.registers.pc + 1)
  ({ cpu with skipped := cpu.skipped + 1 }, bus)

end Cpu
end NesRoutine

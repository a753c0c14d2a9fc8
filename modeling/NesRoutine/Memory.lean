import NesRoutine.Bus

/-! Internal RAM and the cartridge's program image.

`$0000-$1FFF` is 2 KB of RAM repeated four times, `$8000-$FFFF` the program
image, which cannot be written. Everything between reads as zero. -/
namespace NesRoutine

/-- Size of a program bank; an image of exactly one bank appears twice. -/
def prgBankSize : Nat := 0x4000

structure Memory where
  ram : Vector UInt8 0x0800 := Vector.replicate 0x0800 0
  prg : Array UInt8 := #[]
  deriving DecidableEq, Inhabited

namespace Memory

def ramCell (address : UInt16) : Fin 0x0800 := Fin.ofNat 0x0800 address.toNat

/-- A byte of the program image; `address` is at least `$8000`. -/
def readPrg (m : Memory) (address : UInt16) : UInt8 :=
  let offset := address.toNat - 0x8000
  m.prg.getD (if m.prg.size = prgBankSize then offset % prgBankSize else offset) 0

def read (m : Memory) (address : UInt16) : UInt8 :=
  if address < 0x2000 then m.ram[ramCell address]
  else if address < 0x8000 then 0
  else m.readPrg address

def write (m : Memory) (address : UInt16) (value : UInt8) : Memory :=
  if address < 0x2000 then
    { m with ram := m.ram.set (ramCell address) value }
  else
    m

def readWord (m : Memory) (address : UInt16) : UInt16 :=
  word (m.read address) (m.read (address + 1))

/-- Consecutive bytes, wrapping past `$FFFF`. -/
def readRange (m : Memory) (address : UInt16) (length : Nat) : List UInt8 :=
  (List.range length).map fun i => m.read (address + UInt16.ofNat i)

/-- Clears RAM; the program image stays. -/
def reset (m : Memory) : Memory := { m with ram := Vector.replicate 0x0800 0 }

instance : Bus Memory where
  read m address := (m.read address, m)
  write := write

end Memory
end NesRoutine

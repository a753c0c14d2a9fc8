import NesRoutine.Word

/-! A bus answers byte reads and takes byte writes. A read may change what
stands behind the bus, so it returns the bus as well. -/
namespace NesRoutine

class Bus (β : Type) where
  read : β → UInt16 → UInt8 × β
  write : β → UInt16 → UInt8 → β

namespace Bus
variable {β : Type} [Bus β]

/-- Little-endian read of `address` and then `address + 1`. -/
def readWord (bus : β) (address : UInt16) : UInt16 × β :=
  let (lo, bus) := read bus address
  let (hi, bus) := read bus (address + 1)
  (word lo hi, bus)

/-- Little-endian write to `address` and then `address + 1`. -/
def writeWord (bus : β) (address value : UInt16) : β :=
  write (write bus address (lowByte value)) (address + 1) (highByte value)

end Bus

/-- 64 KB of plain memory. -/
structure FlatMemory where
  cells : Vector UInt8 0x10000 := Vector.replicate 0x10000 0

namespace FlatMemory

def cell (address : UInt16) : Fin 0x10000 := ⟨address.toNat, address.toNat_lt⟩

def get (m : FlatMemory) (address : UInt16) : UInt8 := m.cells[cell address]

def set (m : FlatMemory) (address : UInt16) (value : UInt8) : FlatMemory :=
  { m with cells := m.cells.set (cell address) value }

instance : Bus FlatMemory where
  read m address := (m.get address, m)
  write := set

end FlatMemory
end NesRoutine

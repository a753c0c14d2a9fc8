import NesRoutine.Instruction

/-! CRC-32 with the reflected polynomial `EDB88320`, and the checksum that ties
saved code to the image it was made from. -/
namespace NesRoutine.Checksum

def polynomial : UInt32 := 0xEDB88320

/-- Divides one bit out of the remainder. -/
def shift (c : UInt32) : UInt32 := if c &&& 1 = 1 then (c >>> 1) ^^^ polynomial else c >>> 1

/-- The remainder after one more byte. -/
def update (c : UInt32) (b : UInt8) : UInt32 :=
  shift (shift (shift (shift (shift (shift (shift (shift (c ^^^ b.toUInt32))))))))

def updateRegion (c : UInt32) (r : CodeRegion) : UInt32 :=
  r.bytes.foldl update (update (update c (lowByte r.base)) (highByte r.base))

/-- The checksum of every region's base address and bytes, in order. -/
def regions (rs : List CodeRegion) : UInt32 := ~~~(rs.foldl updateRegion 0xFFFFFFFF)

end NesRoutine.Checksum

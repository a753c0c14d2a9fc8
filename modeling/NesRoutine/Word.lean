/-! Little-endian words made of two bytes. -/
namespace NesRoutine

def word (lo hi : UInt8) : UInt16 := UInt16.ofNat (lo.toNat + 256 * hi.toNat)

def lowByte (w : UInt16) : UInt8 := w.toUInt8

def highByte (w : UInt16) : UInt8 := (w >>> 8).toUInt8

/-- A branch displacement, read as a signed byte. -/
def signExtend (b : UInt8) : UInt16 :=
  if b < 0x80 then b.toUInt16 else 0xFF00 ||| b.toUInt16

@[simp] theorem toNat_word (lo hi : UInt8) : (word lo hi).toNat = lo.toNat + 256 * hi.toNat := by
  have := lo.toNat_lt
  have := hi.toNat_lt
  simp only [word, UInt16.toNat_ofNat']
  omega

@[simp] theorem word_bytes (w : UInt16) : word (lowByte w) (highByte w) = w := by
  apply UInt16.toNat_inj.mp
  have := w.toNat_lt
  simp [lowByte, highByte, Nat.shiftRight_eq_div_pow]
  omega

@[simp] theorem lowByte_word (lo hi : UInt8) : lowByte (word lo hi) = lo := by
  apply UInt8.toNat_inj.mp
  simp [lowByte]

@[simp] theorem highByte_word (lo hi : UInt8) : highByte (word lo hi) = hi := by
  apply UInt8.toNat_inj.mp
  have := lo.toNat_lt
  have := hi.toNat_lt
  simp [highByte, Nat.shiftRight_eq_div_pow]
  omega

end NesRoutine

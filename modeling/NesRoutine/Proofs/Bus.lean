import NesRoutine.Proofs.Hardware

/-! Traffic on the system bus. A read leaves the memory as it is; a write to RAM
changes one cell of 2 KB, which appears at four addresses. -/
namespace NesRoutine

/-- A byte of RAM is read back at every address that reaches its cell. -/
theorem Memory.read_write (m : Memory) {a b : UInt16} (low : a < 0x2000) (low' : b < 0x2000)
    (value : UInt8) :
    (m.write a value).read b = if ramCell a = ramCell b then value else m.read b := by
  simp only [write, if_pos low, read, if_pos low', Fin.getElem_fin, Vector.getElem_set, Fin.ext_iff]

namespace SystemBus

variable (b : SystemBus) {a : UInt16}

@[simp] theorem read_memory (a : UInt16) : (Bus.read b a).2.memory = b.memory := by
  simp only [Bus.read, read]
  split
  · rfl
  · split
    · rfl
    · split
      · rfl
      · rfl

@[simp] theorem readWord_memory (a : UInt16) : (Bus.readWord b a).2.memory = b.memory := by
  simp [Bus.readWord]

/-- Below `$2000` there is nothing but RAM. -/
theorem low_unclaimed (low : a < 0x2000) :
    ¬ (0x2000 ≤ a ∧ a < 0x4000) ∧ a ≠ joypad1 ∧ a ≠ joypad2 := by
  refine ⟨?_, ?_, ?_⟩
  · rintro ⟨high, _⟩
    exact absurd low (UInt16.not_lt.mpr high)
  · rintro rfl
    exact absurd low (by decide)
  · rintro rfl
    exact absurd low (by decide)

theorem read_low (low : a < 0x2000) : Bus.read b a = (b.memory.read a, b) := by
  obtain ⟨ppu, port1, port2⟩ := low_unclaimed low
  simp only [Bus.read, read, if_neg ppu, if_neg port1, if_neg port2]

theorem write_low (low : a < 0x2000) (value : UInt8) :
    Bus.write b a value = { b with memory := b.memory.write a value } := by
  obtain ⟨ppu, port1, _⟩ := low_unclaimed low
  simp only [Bus.write, write, if_neg ppu, if_neg port1]

theorem write_high (high : ¬ a < 0x2000) (value : UInt8) :
    (Bus.write b a value).memory = b.memory := by
  simp only [Bus.write, write]
  split
  · rfl
  · split
    · rfl
    · exact if_neg high

end SystemBus
end NesRoutine

import NesRoutine.Proofs.Image

/-! The memory map under any traffic on the bus. Reads of RAM answer with what was
written last to any mirror of their cell, and reads of the program image with the image
alone; what goes to the picture unit and to the controllers bears on neither. -/
namespace NesRoutine.Hardware

/-- What goes over the bus, and what goes on beside it. -/
inductive Traffic where
  | read (a : UInt16)
  | write (a : UInt16) (value : UInt8)
  | readWord (a : UInt16)
  | stepPpu
  | holdButtons (player : Nat) (buttons : UInt8)
  deriving DecidableEq, Repr

namespace Traffic

def apply (h : Hardware) : Traffic → Hardware
  | read a => (h.read a).2
  | write a value => h.write a value
  | readWord a => (h.readWord a).2
  | stepPpu => h.stepPpu.2
  | holdButtons player buttons => h.holdButtons player buttons

/-- What is left in the cell that shows at the address. RAM repeats every 2 KB. -/
def left (a : UInt16) : Traffic → Option UInt8
  | write b value => if b < 0x2000 ∧ b.toNat % 0x0800 = a.toNat % 0x0800 then some value else none
  | _ => none

end Traffic

/-- New hardware after some traffic, the latest first. -/
def afterTraffic (image : Array UInt8) : List Traffic → Hardware
  | [] => .ofPrg image
  | t :: past => t.apply (afterTraffic image past)

/-- What shows at an address from `$8000` on. An image of one bank shows twice. -/
def shown (image : Array UInt8) (a : UInt16) : UInt8 :=
  let offset := a.toNat - 0x8000
  (image[if image.size = 0x4000 then offset % 0x4000 else offset]?).getD 0

/-- The memory sees every write, and takes those that are for it. -/
theorem memory_write (h : Hardware) (a : UInt16) (value : UInt8) :
    (h.write a value).bus.memory = h.bus.memory.write a value := by
  have written : (h.write a value).bus = Bus.write h.bus a value := rfl
  by_cases low : a < 0x2000
  · rw [written, SystemBus.write_low _ low]
  · rw [written, SystemBus.write_high _ low, Memory.write, if_neg low]

theorem memory_read (h : Hardware) (a : UInt16) : (h.read a).2.bus.memory = h.bus.memory :=
  h.bus.read_memory a

theorem memory_readWord (h : Hardware) (a : UInt16) :
    (h.readWord a).2.bus.memory = h.bus.memory :=
  h.bus.readWord_memory a

/-- What shows of RAM is changed by writes to RAM alone, and only where the cell is the
same. -/
theorem ram_apply (h : Hardware) (t : Traffic) {a : UInt16} (low : a < 0x2000) :
    (t.apply h).bus.memory.read a = (t.left a).getD (h.bus.memory.read a) := by
  cases t with
  | read b => exact congrArg (Memory.read · a) (h.memory_read b)
  | readWord b => exact congrArg (Memory.read · a) (h.memory_readWord b)
  | stepPpu => rfl
  | holdButtons player buttons =>
    simp only [Traffic.apply, holdButtons]
    split <;> rfl
  | write b value =>
    simp only [Traffic.apply, Traffic.left, h.memory_write]
    by_cases low' : b < 0x2000
    · have cell : Memory.ramCell b = Memory.ramCell a ↔
          b.toNat % 0x0800 = a.toNat % 0x0800 := Fin.ext_iff
      rw [Memory.read_write _ low' low]
      simp only [cell, low', true_and]
      split <;> rfl
    · rw [Memory.write, if_neg low', if_neg (fun both => low' both.1)]
      rfl

theorem ram_afterTraffic (image : Array UInt8) (past : List Traffic) {a : UInt16}
    (low : a < 0x2000) :
    (afterTraffic image past).bus.memory.read a = (past.findSome? (Traffic.left a)).getD 0 := by
  induction past with
  | nil =>
    rw [Memory.read, if_pos low]
    exact Vector.getElem_replicate _
  | cons t past ih =>
    rw [afterTraffic, ram_apply _ _ low, ih, List.findSome?_cons]
    cases t.left a <;> rfl

theorem prg_afterTraffic (image : Array UInt8) (past : List Traffic) :
    (afterTraffic image past).prg = image := by
  induction past with
  | nil => rfl
  | cons t past ih =>
    refine Eq.trans ?_ ih
    cases t with
    | read a => exact prg_outOfReach.read _ a
    | write a value => exact prg_outOfReach.write _ a value
    | readWord a => exact prg_outOfReach.readWord _ a
    | stepPpu => rfl
    | holdButtons player buttons => exact (Operation.holdButtons player buttons).apply_prg _

theorem read_shown (m : Memory) {a : UInt16} (high : 0x8000 ≤ a) : m.read a = shown m.prg a := by
  have above : ¬ a < 0x2000 ∧ ¬ a < 0x8000 := by
    simp only [UInt16.lt_iff_toNat_lt, UInt16.le_iff_toNat_le, UInt16.reduceToNat] at *
    omega
  rw [Memory.read, if_neg above.1, if_neg above.2, Memory.readPrg, Array.getD_eq_getD_getElem?]
  rfl

/-- The address leads to the picture unit or to a controller. -/
def ToDevice (a : UInt16) : Prop :=
  0x2000 ≤ a ∧ a < 0x4000 ∨ a = SystemBus.joypad1 ∨ a = SystemBus.joypad2

/-- The memory answers at all other addresses. -/
theorem read_of_not_toDevice (h : Hardware) {a : UInt16} (other : ¬ ToDevice a) :
    h.read a = (h.bus.memory.read a, h) := by
  simp only [ToDevice, not_or] at other
  obtain ⟨ppu, port1, port2⟩ := other
  simp only [Hardware.read, SystemBus.read, if_neg ppu, if_neg port1, if_neg port2]

theorem not_toDevice {a : UInt16} (mapped : a < 0x2000 ∨ 0x8000 ≤ a) : ¬ ToDevice a := by
  simp only [ToDevice, SystemBus.joypad1, SystemBus.joypad2, UInt16.le_iff_toNat_le,
    UInt16.lt_iff_toNat_lt, ← UInt16.toNat_inj, UInt16.reduceToNat] at *
  omega

theorem ToDevice.memory_write {a : UInt16} (device : ToDevice a) (h : Hardware) (value : UInt8) :
    (h.write a value).bus.memory = h.bus.memory := by
  have high : ¬ a < 0x2000 := fun low => not_toDevice (.inl low) device
  rw [h.memory_write, Memory.write, if_neg high]

/-- What was written last shows in RAM at every mirror of the cell, the image shows from
`$8000` on, and between `$4000` and `$8000` there are no more than the controllers. Reads
leave the memory as it is, and so does what goes to the devices. -/
theorem memory_map (image : Array UInt8) (past : List Traffic) :
    let h := afterTraffic image past
    (∀ a : UInt16, a < 0x2000 → (h.read a).1 = (past.findSome? (Traffic.left a)).getD 0) ∧
    (∀ a : UInt16, 0x8000 ≤ a → (h.read a).1 = shown image a) ∧
    (∀ a : UInt16, 0x4000 ≤ a → a < 0x8000 → a ≠ SystemBus.joypad1 → a ≠ SystemBus.joypad2 →
      (h.read a).1 = 0) ∧
    (∀ a : UInt16, (h.readWord a).1 = word (h.read a).1 ((h.read a).2.read (a + 1)).1) ∧
    (∀ a : UInt16, (h.read a).2.bus.memory = h.bus.memory ∧
      (h.readWord a).2.bus.memory = h.bus.memory) ∧
    ∀ (a b : UInt16) (value : UInt8), ToDevice a → b < 0x2000 ∨ 0x8000 ≤ b →
      ((h.read a).2.read b).1 = (h.read b).1 ∧ ((h.write a value).read b).1 = (h.read b).1 := by
  intro h
  refine ⟨?_, ?_, ?_, ?_, ?_, ?_⟩
  · intro a low
    rw [h.read_of_not_toDevice (not_toDevice (.inl low))]
    exact ram_afterTraffic image past low
  · intro a high
    have same : h.bus.memory.prg = image := prg_afterTraffic image past
    rw [h.read_of_not_toDevice (not_toDevice (.inr high)), read_shown _ high, same]
  · intro a above below port1 port2
    have other : ¬ ToDevice a := by
      rintro (⟨_, lower⟩ | first | second)
      · exact absurd lower (UInt16.not_lt.mpr above)
      · exact port1 first
      · exact port2 second
    have high : ¬ a < 0x2000 := by
      intro low
      exact absurd (UInt16.lt_of_lt_of_le low (by decide)) (UInt16.not_lt.mpr above)
    rw [h.read_of_not_toDevice other, Memory.read, if_neg high, if_pos below]
  · intro a
    rfl
  · intro a
    exact ⟨h.memory_read a, h.memory_readWord a⟩
  · intro a b value device mapped
    have other := not_toDevice mapped
    rw [read_of_not_toDevice _ other, read_of_not_toDevice _ other, read_of_not_toDevice _ other,
      h.memory_read, device.memory_write]
    exact ⟨rfl, rfl⟩

/-- A cell is written at two of its mirrors; a write to the image and one that reaches the
picture unit, at an address that differs in its highest bits only, do nothing to it. -/
theorem memory_map_mirrored :
    let past : List Traffic := [.write 0x2842 5, .write 0x8002 9, .readWord 0x1FFF,
      .write 0x1842 8, .stepPpu, .holdButtons 0 1, .write 0x0042 7]
    let h := afterTraffic #[1, 2, 3] past
    (h.read 0x0842).1 = 8 ∧ (h.read 0x0043).1 = 0 ∧ (h.read 0x8002).1 = 3 ∧
      (h.read 0xC002).1 = 0 ∧ (h.read 0x4015).1 = 0 ∧
      ((h.write 0x4017 1).read 0x1042).1 = (h.read 0x1042).1 := by
  intro past h
  obtain ⟨ram, rom, nothing, -, -, devices⟩ := memory_map #[1, 2, 3] past
  refine ⟨?_, ?_, ?_, ?_, ?_, ?_⟩
  · exact (ram 0x0842 (by decide)).trans (by decide)
  · exact (ram 0x0043 (by decide)).trans (by decide)
  · exact (rom 0x8002 (by decide)).trans (by decide)
  · exact (rom 0xC002 (by decide)).trans (by decide)
  · exact nothing 0x4015 (by decide) (by decide) (by decide) (by decide)
  · exact (devices 0x4017 0x1042 1 (.inr (.inr rfl)) (.inl (by decide))).2

end NesRoutine.Hardware

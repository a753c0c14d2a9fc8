import NesRoutine.Cartridge
import NesRoutine.Proofs.Image

/-! Instructions are decoded from the code regions of a cartridge, and run on
hardware that maps its program image a second time. Up to `$FFFF` the two agree:
an instruction that lies there as a whole has the bytes that are on the bus, for
ever. An image of more than 32 KB goes on past `$FFFF`, where the bus is back at
the beginning of RAM. -/
namespace NesRoutine

/-- The opcode and the operands. -/
def Instruction.bytes (i : Instruction) : List UInt8 :=
  i.opcode :: (i.operand1.toList ++ i.operand2.toList)

/-- `n` bytes of an image. -/
def slice (image : Array UInt8) (offset n : Nat) : List UInt8 :=
  (List.range n).map fun k => image.getD (offset + k) 0

/-- An instruction is a slice of the first region that has its address. -/
theorem decodeAt_slice {regions : List CodeRegion} {a : UInt16} {i : Instruction}
    (decoded : decodeAt regions a = .ok i) :
    ∃ region, regions.find? (·.contains a) = some region ∧
      a.toNat - region.base.toNat + i.size ≤ region.bytes.size ∧
      i.bytes = slice region.bytes (a.toNat - region.base.toNat) i.size := by
  simp only [decodeAt] at decoded
  split at decoded
  · cases decoded
  next region found =>
    split at decoded
    · cases decoded
    next o known =>
      split at decoded
      · cases decoded
      next enough =>
        have covered : region.contains a = true := by
          simpa using List.find?_some found
        have inside := (CodeRegion.of_contains covered).2
        have size : i.size = o.size := by
          cases decoded
          simp only [Instruction.size, Opcode.size]
          cases o.mode <;> rfl
        refine ⟨region, found, by omega, ?_⟩
        cases decoded
        simp only [Instruction.size, Instruction.bytes, slice]
        cases o.mode <;> rfl

section Regions

variable {c : Cartridge} {m : Memory} {a b : UInt16} {i : Instruction}

/-- The byte at this offset of an image appears at the address: from `$8000` on, and,
if the image is a single bank, again from `$C000` on. -/
def Shows (image : Array UInt8) (offset address : Nat) : Prop :=
  address = 0x8000 + offset ∨ image.size = prgBankSize ∧ address = 0xC000 + offset

theorem Cartridge.decodeAt_ok (decoded : decodeAt c.codeRegions a = .ok i) :
    ∃ offset, Shows c.prg offset a.toNat ∧ offset + i.size ≤ c.prg.size ∧
      i.bytes = slice c.prg offset i.size := by
  obtain ⟨region, found, within, bytes⟩ := decodeAt_slice decoded
  have covered : region.contains a = true := by
    simpa using List.find?_some found
  have listed := List.mem_of_find?_eq_some found
  have start := (Nat.add_sub_cancel' (CodeRegion.of_contains covered).1).symm
  rw [Cartridge.codeRegions, List.mem_cons] at listed
  rcases listed with rfl | listed
  · exact ⟨_, .inl start, within, bytes⟩
  · split at listed
    next single =>
      cases List.mem_singleton.mp listed
      exact ⟨_, .inr ⟨single, start⟩, within, bytes⟩
    next => cases listed

theorem Memory.read_shown {offset : Nat} (shown : Shows m.prg offset b.toNat)
    (inside : offset < m.prg.size) : m.read b = m.prg.getD offset 0 := by
  have high : ¬ b < 0x2000 ∧ ¬ b < 0x8000 := by
    simp only [UInt16.lt_iff_toNat_lt, UInt16.reduceToNat]
    unfold Shows at shown
    omega
  have index : (if m.prg.size = prgBankSize then (b.toNat - 0x8000) % prgBankSize
      else b.toNat - 0x8000) = offset := by
    unfold Shows prgBankSize at *
    split <;> omega
  rw [read, if_neg high.1, if_neg high.2, readPrg, index]

/-- The system bus leaves the upper half of the address space to the memory. -/
theorem Hardware.read_high (h : Hardware) (high : 0x8000 ≤ b.toNat) :
    h.read b = (h.bus.memory.read b, h) := by
  have ppu : ¬ (0x2000 ≤ b ∧ b < 0x4000) := by
    simp only [UInt16.le_iff_toNat_le, UInt16.lt_iff_toNat_lt, UInt16.reduceToNat]
    omega
  have port1 : b ≠ SystemBus.joypad1 := by
    rintro rfl
    simp [SystemBus.joypad1] at high
  have port2 : b ≠ SystemBus.joypad2 := by
    rintro rfl
    simp [SystemBus.joypad2] at high
  simp only [Hardware.read, SystemBus.read, if_neg ppu, if_neg port1, if_neg port2]

/-- An instruction that does not go past `$FFFF` has the bytes that are on the bus,
whatever the hardware was used for. One that does is taken from an image of more
than 32 KB, of which the bus shows no more than that. -/
theorem decoded_bytes_on_bus {h : Hardware} (reached : Hardware.Reachable c.prg h)
    (decoded : decodeAt c.codeRegions a = .ok i) :
    (a.toNat + i.size ≤ 0x10000 → i.bytes = h.bus.memory.readRange a i.size ∧
      ∀ k < i.size, h.read (a + UInt16.ofNat k) =
        (h.bus.memory.read (a + UInt16.ofNat k), h)) ∧
    (0x10000 < a.toNat + i.size → 0x8000 < c.prg.size ∧
      i.bytes = slice c.prg (a.toNat - 0x8000) i.size) := by
  obtain ⟨offset, shown, within, bytes⟩ := Cartridge.decodeAt_ok decoded
  have image : h.bus.memory.prg = c.prg := reached.prg_eq
  constructor
  · intro fits
    have address (k : Nat) (inside : k < i.size) :
        (a + UInt16.ofNat k).toNat = a.toNat + k := by
      rw [UInt16.toNat_add, UInt16.toNat_ofNat']
      omega
    constructor
    · rw [bytes, slice, Memory.readRange]
      refine List.map_congr_left fun k member => ?_
      have inside := List.mem_range.mp member
      have moved : Shows h.bus.memory.prg (offset + k) (a + UInt16.ofNat k).toNat := by
        rw [address k inside, image]
        unfold Shows at shown ⊢
        omega
      rw [Memory.read_shown moved (by rw [image]; omega), image]
    · intro k inside
      refine h.read_high ?_
      rw [address k inside]
      unfold Shows at shown
      omega
  · intro past
    unfold Shows prgBankSize at shown
    rcases shown with low | mirrored
    · refine ⟨by omega, ?_⟩
      rw [bytes, low, Nat.add_sub_cancel_left]
    · omega

/-- A byte of the program does not change when it is written to and then run. -/
theorem decoded_bytes_on_bus_written :
    let c := Cartridge.ofPrg #[0xA9, 0x05, 0x60]
    let d : Dispatcher := { compiler := { regions := c.codeRegions } }
    let h := (d.step ((Hardware.ofPrg c.prg).write 0x8001 0xFF)).2.2
    ∃ i, decodeAt c.codeRegions 0x8000 = .ok i ∧ i.bytes = [0xA9, 0x05] ∧
      i.bytes = h.bus.memory.readRange 0x8000 i.size := by
  intro c d h
  have reached : Hardware.Reachable c.prg h :=
    (Hardware.Reachable.start.operate (.write 0x8001 0xFF)).step (.fresh {})
      (fun _ absent => nomatch absent) (fun _ _ _ _ absent => nomatch absent)
  cases decoded : decodeAt c.codeRegions 0x8000 with
  | error e =>
    have fine : (decodeAt c.codeRegions 0x8000).toBool = true := by decide +kernel
    simp [decoded, Except.toBool] at fine
  | ok i =>
    have same : (decodeAt c.codeRegions 0x8000).toOption.map (fun i => (i.size, i.bytes)) =
        some (2, [0xA9, 0x05]) := by decide +kernel
    obtain ⟨size, bytes⟩ : i.size = 2 ∧ i.bytes = [0xA9, 0x05] := by
      simpa [decoded, Except.toOption] using same
    have fits : (0x8000 : UInt16).toNat + i.size ≤ 0x10000 := by
      rw [size]
      decide
    exact ⟨i, rfl, bytes, ((decoded_bytes_on_bus reached decoded).1 fits).1⟩

end Regions

namespace Cartridge

/-- An image without a trainer and character banks. -/
def bareRom (banks : UInt8) (prg : Array UInt8) : Array UInt8 :=
  #[0x4E, 0x45, 0x53, 0x1A, banks, 0, 0, 0, 0, 0, 0, 0, 0, 0, 0, 0] ++ prg

theorem header_bareRom (banks : UInt8) (prg : Array UInt8) :
    Header.ofRom (bareRom banks prg) = .ok { prgBanks := banks, chrBanks := 0 } := by
  have size : ¬ (bareRom banks prg).size < Header.size := by
    simp [bareRom, Header.size]
  have begins : (bareRom banks prg).extract 0 4 = magic := by
    simp [bareRom, Array.extract_append, magic]
  have byte (k : Nat) (inside : k < 16) : (bareRom banks prg).getD k 0 =
      #[0x4E, 0x45, 0x53, 0x1A, banks, 0, 0, 0, 0, 0, 0, 0, 0, 0, 0, 0].getD k 0 := by
    simp [bareRom, Array.getD_eq_getD_getElem?, Array.getElem?_append_left, inside]
  simp only [Header.ofRom, if_neg size, begins, ne_eq, not_true_eq_false, if_false]
  rw [byte 4 (by decide), byte 5 (by decide), byte 6 (by decide), byte 7 (by decide),
    byte 8 (by decide)]
  rfl

theorem ofRom_bareRom {banks : UInt8} {prg : Array UInt8} (some : banks ≠ 0)
    (size : prg.size = banks.toNat * prgBankSize) :
    ofRom (bareRom banks prg) =
      .ok { header := { prgBanks := banks, chrBanks := 0 }, prg, chr := #[] } := by
  have total : (bareRom banks prg).size = 16 + prg.size := by
    simp [bareRom]
  have image : (bareRom banks prg).extract 16 (16 + prg.size) = prg := by
    simp [bareRom, Array.extract_append]
  have rest : (bareRom banks prg).extract (16 + prg.size) (16 + prg.size) = #[] := by
    apply Array.eq_empty_of_size_eq_zero
    rw [Array.size_extract, total]
    omega
  have trainer : Header.trainerSize { prgBanks := banks, chrBanks := 0 } = 0 := by
    simp [Header.trainerSize, Header.hasTrainer]
  have chr : Header.chrSize { prgBanks := banks, chrBanks := 0 } = 0 := by
    simp [Header.chrSize]
  have nonempty : ¬ prg.size = 0 := by
    have positive : banks.toNat ≠ 0 := fun zero => some (UInt8.toNat_inj.mp zero)
    rw [size, prgBankSize]
    omega
  rw [ofRom, header_bareRom]
  simp only [bind, Except.bind, trainer, chr, Header.prgSize, ← size, nonempty, if_false,
    Header.size, Nat.add_zero, total, Nat.lt_irrefl, image, rest]
  rfl

end Cartridge

theorem getD_replicate {k n : Nat} (inside : k < n) (b : UInt8) :
    (Array.replicate n b).getD k 0 = b := by
  rw [Array.getD_eq_getD_getElem?, Array.getElem?_replicate, if_pos inside]
  rfl

/-- In an image full of `JSR`, which goes on past `$FFFF`, there is one at `$FFFF`. -/
theorem decodeAt_filled {n : Nat} (large : 0x8002 ≤ n) (small : n < 0x10000) :
    ∃ i, decodeAt [⟨0x8000, Array.replicate n 0x20⟩] 0xFFFF = .ok i ∧ i.size = 3 ∧
      i.bytes = [0x20, 0x20, 0x20] := by
  have offset : (0xFFFF : UInt16).toNat - (0x8000 : UInt16).toNat = 0x7FFF := rfl
  have covered : CodeRegion.contains ⟨0x8000, Array.replicate n 0x20⟩ 0xFFFF = true := by
    rw [CodeRegion.contains_iff, Array.size_replicate]
    simp only [UInt16.reduceToNat]
    omega
  have byte (k : Nat) (inside : k < n) : (Array.replicate n (0x20 : UInt8)).getD k 0 = 0x20 :=
    getD_replicate inside 0x20
  have known : Opcode.lookup 0x20 =
      some { mnemonic := .jsr, mode := .absolute, cycles := 6 } := by decide +kernel
  have size : Opcode.size { mnemonic := .jsr, mode := .absolute, cycles := 6 } = 3 := rfl
  have enough : ¬ n - 0x7FFF < 3 := by omega
  simp only [decodeAt, List.find?_cons, covered, offset, byte 0x7FFF (by omega), known,
    Array.size_replicate, size, if_neg enough, byte 0x8000 (by omega), byte 0x8001 (by omega)]
  exact ⟨_, rfl, rfl, rfl⟩

/-- Three banks full of `JSR`: the one at `$FFFF` is decoded with two more bytes of
the image, where the bus has the first two bytes of RAM. -/
theorem decoded_bytes_past_bus :
    ∃ c i, Cartridge.ofRom (Cartridge.bareRom 3 (Array.replicate 0xC000 0x20)) = .ok c ∧
      decodeAt c.codeRegions 0xFFFF = .ok i ∧ i.bytes = [0x20, 0x20, 0x20] ∧
      (Hardware.ofPrg c.prg).bus.memory.readRange 0xFFFF i.size = [0x20, 0, 0] := by
  have accepted := @Cartridge.ofRom_bareRom 3 (Array.replicate 0xC000 0x20) (by decide)
    Array.size_replicate
  obtain ⟨i, decoded, size, bytes⟩ := @decodeAt_filled 0xC000 (by decide) (by decide)
  refine ⟨_, i, accepted, ?_, bytes, ?_⟩
  · rw [Cartridge.codeRegions, if_neg (by rw [Array.size_replicate]; decide)]
    exact decoded
  · let m : Memory := { prg := Array.replicate 0xC000 0x20 }
    have large : m.prg.size = 0xC000 := Array.size_replicate
    have top : m.read 0xFFFF = 0x20 := by
      have shown : Shows m.prg 0x7FFF (0xFFFF : UInt16).toNat := .inl rfl
      rw [Memory.read_shown shown (by omega)]
      exact getD_replicate (by decide) 0x20
    have bottom (b : UInt16) (low : b < 0x2000) : m.read b = 0 := by
      rw [Memory.read, if_pos low]
      exact Vector.getElem_replicate _
    have wraps : m.readRange 0xFFFF 3 = [m.read 0xFFFF, m.read 0, m.read 1] := rfl
    rw [size]
    exact wraps.trans (by rw [top, bottom 0 (by decide), bottom 1 (by decide)])

end NesRoutine

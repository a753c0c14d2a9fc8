import NesRoutine.Cartridge
import NesRoutine.Proofs.Hardware

/-! Cartridge images. An image is a header, a trainer if the header tells of one, the
program banks, the character banks and whatever follows. Reading takes an image apart into
these and accepts nothing else; what it refuses is refused for the first thing that is
missing. -/
namespace NesRoutine.Cartridge

/-- The bytes `NES` and `$1A` come first. -/
def Marked (rom : Array UInt8) : Prop := [0x4E, 0x45, 0x53, 0x1A] <+: rom.toList

/-- Where the program begins: a trainer stands between it and the header. -/
def prgStart (rom : Array UInt8) : Nat := 16 + 512 * ((rom.getD 6 0).toNat.testBit 2).toNat

def prgEnd (rom : Array UInt8) : Nat := prgStart rom + 16384 * (rom.getD 4 0).toNat

def chrEnd (rom : Array UInt8) : Nat := prgEnd rom + 8192 * (rom.getD 5 0).toNat

/-- What stands in an image at the places that its header gives. -/
def cut (rom : Array UInt8) : Cartridge where
  header :=
    { prgBanks := rom.getD 4 0
      chrBanks := rom.getD 5 0
      flags6 := rom.getD 6 0
      flags7 := rom.getD 7 0
      prgRamBanks := rom.getD 8 0 }
  prg := rom.extract (prgStart rom) (prgEnd rom)
  chr := rom.extract (prgEnd rom) (chrEnd rom)

theorem marked_iff (rom : Array UInt8) : Marked rom ↔ rom.extract 0 4 = magic := by
  rw [Marked, List.prefix_iff_eq_take, ← Array.toList_inj, Array.toList_extract]
  simp [magic, eq_comm]

instance (rom : Array UInt8) : Decidable (Marked rom) := decidable_of_iff _ (marked_iff rom).symm

theorem Header.trainerSize_eq (h : Header) :
    h.trainerSize = 512 * (h.flags6.toNat.testBit 2).toNat := by
  rw [trainerSize, hasTrainer, mask_bit h.flags6 0x04 (i := 2) rfl]
  cases h.flags6.toNat.testBit 2 <;> rfl

/-- The places of the sections are sums over the header, and each is asked for in turn. -/
theorem ofRom_eq (rom : Array UInt8) :
    ofRom rom =
      if rom.size < 16 then .error .headerTooShort
      else if ¬ Marked rom then .error .badMagic
      else if rom.getD 4 0 = 0 then .error .noProgram
      else if rom.size < prgEnd rom then .error (.prgTruncated (prgEnd rom) rom.size)
      else if rom.size < chrEnd rom then .error (.chrTruncated (chrEnd rom) rom.size)
      else .ok (cut rom) := by
  have start : Header.size + (cut rom).header.trainerSize = prgStart rom := by
    rw [Header.trainerSize_eq]
    rfl
  have prg : prgStart rom + (cut rom).header.prgSize = prgEnd rom := by
    rw [Header.prgSize, Nat.mul_comm]
    rfl
  have chr : prgEnd rom + (cut rom).header.chrSize = chrEnd rom := by
    rw [Header.chrSize, Nat.mul_comm]
    rfl
  have empty : (cut rom).header.prgSize = 0 ↔ rom.getD 4 0 = 0 := by
    rw [Header.prgSize, prgBankSize, ← UInt8.toNat_inj]
    simp [cut]
  have header : Header.ofRom rom =
      if rom.size < 16 then .error .headerTooShort
      else if ¬ Marked rom then .error .badMagic
      else .ok (cut rom).header := by
    simp only [Header.ofRom, Header.size, marked_iff]
    rfl
  rw [ofRom, header]
  split
  · rfl
  · split
    · rfl
    · simp only [bind, Except.bind, start, prg, chr, empty]
      split
      · rfl
      · split
        · rfl
        · split
          · rfl
          · rfl

theorem extract_middle (before middle after : Array UInt8) {start : Nat}
    (begins : before.size = start) :
    (before ++ middle ++ after).extract start (start + middle.size) = middle := by
  subst begins
  simp [Array.extract_append]

/-- An image as its parts. The last seven bytes of the header have no meaning. -/
structure Image where
  header : Header
  padding : Array UInt8
  trainer : Array UInt8
  prg : Array UInt8
  chr : Array UInt8
  trailing : Array UInt8
  program : header.prgBanks ≠ 0
  padding_size : padding.size = 7
  trainer_size : trainer.size = 512 * (header.flags6.toNat.testBit 2).toNat
  prg_size : prg.size = 16384 * header.prgBanks.toNat
  chr_size : chr.size = 8192 * header.chrBanks.toNat

namespace Image

def headerBytes (i : Image) : Array UInt8 :=
  #[0x4E, 0x45, 0x53, 0x1A, i.header.prgBanks, i.header.chrBanks, i.header.flags6,
    i.header.flags7, i.header.prgRamBanks] ++ i.padding

def bytes (i : Image) : Array UInt8 := i.headerBytes ++ i.trainer ++ i.prg ++ i.chr ++ i.trailing

def cartridge (i : Image) : Cartridge := { header := i.header, prg := i.prg, chr := i.chr }

variable (i : Image)

theorem size_headerBytes : i.headerBytes.size = 16 := by
  simp [headerBytes, i.padding_size]

theorem size_bytes :
    i.bytes.size = 16 + i.trainer.size + i.prg.size + i.chr.size + i.trailing.size := by
  simp only [bytes, Array.size_append, i.size_headerBytes]

/-- The nine bytes that mean something stand at their places, whatever follows. -/
theorem getD_bytes {k : Nat} (inside : k < 9) :
    i.bytes.getD k 0 =
      #[0x4E, 0x45, 0x53, 0x1A, i.header.prgBanks, i.header.chrBanks, i.header.flags6,
        i.header.flags7, i.header.prgRamBanks].getD k 0 := by
  simp only [bytes, headerBytes, Array.append_assoc, Array.getD_eq_getD_getElem?]
  rw [Array.getElem?_append_left (by exact inside)]

theorem marked_bytes : Marked i.bytes := by
  rw [Marked, bytes, headerBytes]
  simp

theorem prgStart_bytes : prgStart i.bytes = 16 + i.trainer.size := by
  rw [prgStart, i.getD_bytes (by decide), i.trainer_size]
  rfl

theorem prgEnd_bytes : prgEnd i.bytes = 16 + i.trainer.size + i.prg.size := by
  rw [prgEnd, i.prgStart_bytes, i.getD_bytes (by decide), i.prg_size]
  rfl

theorem chrEnd_bytes : chrEnd i.bytes = 16 + i.trainer.size + i.prg.size + i.chr.size := by
  rw [chrEnd, i.prgEnd_bytes, i.getD_bytes (by decide), i.chr_size]
  rfl

/-- Each section is what stands between its two places. -/
theorem cut_bytes : cut i.bytes = i.cartridge := by
  have prg : i.bytes.extract (prgStart i.bytes) (prgEnd i.bytes) = i.prg := by
    have split : i.bytes = (i.headerBytes ++ i.trainer) ++ i.prg ++ (i.chr ++ i.trailing) := by
      simp only [bytes, Array.append_assoc]
    rw [i.prgStart_bytes, i.prgEnd_bytes, split]
    exact extract_middle _ _ _ (by rw [Array.size_append, i.size_headerBytes])
  have chr : i.bytes.extract (prgEnd i.bytes) (chrEnd i.bytes) = i.chr := by
    rw [i.prgEnd_bytes, i.chrEnd_bytes]
    exact extract_middle _ _ _ (by rw [Array.size_append, Array.size_append, i.size_headerBytes])
  rw [cut, prg, chr, i.getD_bytes (by decide), i.getD_bytes (by decide), i.getD_bytes (by decide),
    i.getD_bytes (by decide), i.getD_bytes (by decide)]
  rfl

theorem accepted :
    16 ≤ i.bytes.size ∧ Marked i.bytes ∧ i.bytes.getD 4 0 ≠ 0 ∧ chrEnd i.bytes ≤ i.bytes.size ∧
      i.cartridge = cut i.bytes := by
  refine ⟨?_, i.marked_bytes, ?_, ?_, i.cut_bytes.symm⟩
  · rw [i.size_bytes]
    omega
  · rw [i.getD_bytes (by decide)]
    exact i.program
  · rw [i.chrEnd_bytes, i.size_bytes]
    omega

end Image

theorem extract_join (rom : Array UInt8) {i j k : Nat} (first : i ≤ j) (second : j ≤ k) :
    rom.extract i j ++ rom.extract j k = rom.extract i k := by
  rw [Array.extract_append_extract, Nat.min_eq_left first, Nat.max_eq_right second]

theorem extract_fields {rom : Array UInt8} (header : 16 ≤ rom.size) :
    rom.extract 4 9 = #[rom.getD 4 0, rom.getD 5 0, rom.getD 6 0, rom.getD 7 0, rom.getD 8 0] := by
  have size : (rom.extract 4 9).size = 5 := by
    rw [Array.size_extract]
    omega
  have byte (k : Nat) (inside : k < 5) : (rom.extract 4 9)[k]? = some (rom.getD (4 + k) 0) := by
    rw [Array.getElem?_extract, if_pos (by omega), Array.getD_eq_getD_getElem?,
      Array.getElem?_eq_getElem (by omega)]
    rfl
  refine Array.ext_getElem? fun k => ?_
  rcases k with _ | _ | _ | _ | _ | k
  · exact byte 0 (by decide)
  · exact byte 1 (by decide)
  · exact byte 2 (by decide)
  · exact byte 3 (by decide)
  · exact byte 4 (by decide)
  · rw [Array.getElem?_eq_none (by omega), Array.getElem?_eq_none (by simp)]

/-- An image that is long enough is put together from what is cut out of it. -/
theorem exists_image {rom : Array UInt8} (header : 16 ≤ rom.size) (marked : Marked rom)
    (program : rom.getD 4 0 ≠ 0) (long : chrEnd rom ≤ rom.size) :
    ∃ image : Image, image.bytes = rom ∧ image.cartridge = cut rom := by
  have start : prgStart rom = 16 + 512 * ((rom.getD 6 0).toNat.testBit 2).toNat := rfl
  have prg : prgEnd rom = prgStart rom + 16384 * (rom.getD 4 0).toNat := rfl
  have chr : chrEnd rom = prgEnd rom + 8192 * (rom.getD 5 0).toNat := rfl
  have size {i j : Nat} (inside : j ≤ rom.size) : (rom.extract i j).size = j - i := by
    rw [Array.size_extract, Nat.min_eq_left inside]
  refine ⟨{
    header := (cut rom).header
    padding := rom.extract 9 16
    trainer := rom.extract 16 (prgStart rom)
    prg := rom.extract (prgStart rom) (prgEnd rom)
    chr := rom.extract (prgEnd rom) (chrEnd rom)
    trailing := rom.extract (chrEnd rom) rom.size
    program
    padding_size := size header
    trainer_size := (size (by omega)).trans (by rw [start, Nat.add_sub_cancel_left]; rfl)
    prg_size := (size (by omega)).trans (by rw [prg, Nat.add_sub_cancel_left]; rfl)
    chr_size := (size long).trans (by rw [chr, Nat.add_sub_cancel_left]; rfl) }, ?_, rfl⟩
  have headerBytes : magic ++ #[rom.getD 4 0, rom.getD 5 0, rom.getD 6 0, rom.getD 7 0,
      rom.getD 8 0] ++ rom.extract 9 16 = rom.extract 0 16 := by
    rw [← extract_fields header, ← (marked_iff rom).mp marked, extract_join rom (by decide)
      (by decide), extract_join rom (by decide) (by decide)]
  have joined : rom.extract 0 16 ++ rom.extract 16 (prgStart rom) ++
      rom.extract (prgStart rom) (prgEnd rom) ++ rom.extract (prgEnd rom) (chrEnd rom) ++
      rom.extract (chrEnd rom) rom.size = rom := by
    rw [extract_join rom (by decide) (by omega), extract_join rom (by omega) (by omega),
      extract_join rom (by omega) (by omega), extract_join rom (by omega) long, Array.extract_size]
  rw [← headerBytes] at joined
  exact joined

/-- An image is read if and only if it has a marked header, at least one program bank and
all the bytes that its header tells of; the cartridge is then what stands at the places of
its sections, and images are exactly what is put together from such sections. All other
byte strings are refused, for what is missing first. -/
theorem ofRom_iff (rom : Array UInt8) :
    (∀ c, ofRom rom = .ok c ↔
      16 ≤ rom.size ∧ Marked rom ∧ rom.getD 4 0 ≠ 0 ∧ chrEnd rom ≤ rom.size ∧ c = cut rom) ∧
    (∀ c, ofRom rom = .ok c ↔ ∃ image : Image, image.bytes = rom ∧ image.cartridge = c) ∧
    (ofRom rom = .error .headerTooShort ↔ rom.size < 16) ∧
    (ofRom rom = .error .badMagic ↔ 16 ≤ rom.size ∧ ¬ Marked rom) ∧
    (ofRom rom = .error .noProgram ↔ 16 ≤ rom.size ∧ Marked rom ∧ rom.getD 4 0 = 0) ∧
    (∀ required available, ofRom rom = .error (.prgTruncated required available) ↔
      16 ≤ rom.size ∧ Marked rom ∧ rom.getD 4 0 ≠ 0 ∧ rom.size < prgEnd rom ∧
        required = prgEnd rom ∧ available = rom.size) ∧
    (∀ required available, ofRom rom = .error (.chrTruncated required available) ↔
      16 ≤ rom.size ∧ Marked rom ∧ rom.getD 4 0 ≠ 0 ∧ prgEnd rom ≤ rom.size ∧
        rom.size < chrEnd rom ∧ required = chrEnd rom ∧ available = rom.size) := by
  have inOrder : prgEnd rom ≤ chrEnd rom := Nat.le_add_right _ _
  have images (c : Cartridge) :
      (16 ≤ rom.size ∧ Marked rom ∧ rom.getD 4 0 ≠ 0 ∧ chrEnd rom ≤ rom.size ∧ c = cut rom) ↔
        ∃ image : Image, image.bytes = rom ∧ image.cartridge = c := by
    constructor
    · rintro ⟨header, marked, program, long, rfl⟩
      exact exists_image header marked program long
    · rintro ⟨image, rfl, rfl⟩
      exact image.accepted
  simp only [← images, ofRom_eq]
  clear images
  generalize rom.getD 4 0 = banks
  split_ifs with short unmarked none prg chr <;> grind

end NesRoutine.Cartridge

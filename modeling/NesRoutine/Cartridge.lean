import NesRoutine.Instruction
import NesRoutine.Memory

/-! Cartridge images: a 16-byte header, an optional trainer that is skipped, the
program banks and the character banks. -/
namespace NesRoutine

def chrBankSize : Nat := 0x2000

namespace Cartridge

structure Header where
  /-- In units of 16 KB. -/
  prgBanks : UInt8
  /-- In units of 8 KB. -/
  chrBanks : UInt8
  flags6 : UInt8 := 0
  flags7 : UInt8 := 0
  /-- In units of 8 KB. -/
  prgRamBanks : UInt8 := 0
  deriving DecidableEq, Repr, Inhabited

namespace Header

def size : Nat := 16

/-- Two nibbles of the flags make the mapper number. -/
def mapper (h : Header) : UInt8 := (h.flags6 >>> 4) ||| (h.flags7 &&& 0xF0)

def hasTrainer (h : Header) : Bool := h.flags6 &&& 0x04 != 0

def hasBattery (h : Header) : Bool := h.flags6 &&& 0x02 != 0

def verticalMirroring (h : Header) : Bool := h.flags6 &&& 0x01 != 0

def trainerSize (h : Header) : Nat := if h.hasTrainer then 512 else 0

def prgSize (h : Header) : Nat := h.prgBanks.toNat * prgBankSize

def chrSize (h : Header) : Nat := h.chrBanks.toNat * chrBankSize

end Header

inductive Error where
  | headerTooShort
  | badMagic
  | noProgram
  /-- The image ends before its program banks do, or before its character banks. -/
  | prgTruncated (required available : Nat)
  | chrTruncated (required available : Nat)
  deriving DecidableEq, Repr, Inhabited

def Error.message : Error → String
  | headerTooShort => "invalid iNES header: too short"
  | badMagic => "invalid iNES header: invalid magic"
  | noProgram => "cartridge has no PRG ROM"
  | prgTruncated required available =>
    s!"image truncated: PRG ROM needs {required} bytes, {available} available"
  | chrTruncated required available =>
    s!"image truncated: CHR ROM needs {required} bytes, {available} available"

/-- The bytes `NES` and `$1A`. -/
def magic : Array UInt8 := #[0x4E, 0x45, 0x53, 0x1A]

def Header.ofRom (rom : Array UInt8) : Except Error Header :=
  if rom.size < Header.size then .error .headerTooShort
  else if rom.extract 0 4 ≠ magic then .error .badMagic
  else
    .ok {
      prgBanks := rom.getD 4 0
      chrBanks := rom.getD 5 0
      flags6 := rom.getD 6 0
      flags7 := rom.getD 7 0
      prgRamBanks := rom.getD 8 0 }

end Cartridge

structure Cartridge where
  header : Cartridge.Header
  prg : Array UInt8
  chr : Array UInt8
  deriving DecidableEq, Repr, Inhabited

namespace Cartridge

/-- Reads an image. Bytes after the character banks do not matter. -/
def ofRom (rom : Array UInt8) : Except Error Cartridge := do
  let header ← Header.ofRom rom
  let prgStart := Header.size + header.trainerSize
  if header.prgSize = 0 then throw .noProgram
  let prgEnd := prgStart + header.prgSize
  if rom.size < prgEnd then throw (.prgTruncated prgEnd rom.size)
  let chrEnd := prgEnd + header.chrSize
  if rom.size < chrEnd then throw (.chrTruncated chrEnd rom.size)
  return { header, prg := rom.extract prgStart prgEnd, chr := rom.extract prgEnd chrEnd }

/-- A cartridge made of a bare program image. -/
def ofPrg (prg : Array UInt8) : Cartridge where
  header := { prgBanks := UInt8.ofNat (prg.size / prgBankSize), chrBanks := 0 }
  prg
  chr := #[]

def mapper (c : Cartridge) : UInt8 := c.header.mapper

/-- The program image at `$8000`; a single bank appears again at `$C000`. -/
def codeRegions (c : Cartridge) : List CodeRegion :=
  ⟨0x8000, c.prg⟩ :: if c.prg.size = prgBankSize then [⟨0xC000, c.prg⟩] else []

end Cartridge
end NesRoutine

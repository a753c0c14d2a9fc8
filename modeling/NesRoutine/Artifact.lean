import NesRoutine.Artifact.Code
import NesRoutine.Checksum

/-! Saved code: for every unit its entry and the lowered instructions it was
generated from, behind a header that names the format and the code regions. -/
namespace NesRoutine

/-- One saved unit. -/
structure SavedUnit where
  entry : UInt16
  instructions : List Lowered
  deriving DecidableEq, Repr

structure Artifact where
  magic : UInt32
  version : UInt32
  checksum : UInt32
  units : List SavedUnit
  deriving DecidableEq, Repr

namespace Artifact
open Decoder

/-- The bytes `NJIT`. -/
def expectedMagic : UInt32 := 0x54494A4E

def expectedVersion : UInt32 := 1

/-- No more than this many bytes are written or read. -/
def sizeLimit : Nat := 64 * 1024 * 1024

def encodeUnit (u : SavedUnit) : List UInt8 :=
  encodeU16 u.entry ++ encodeList encodeLowered u.instructions

def decodeUnit : Decoder SavedUnit := do
  let entry ← u16
  let instructions ← list decodeLowered
  return { entry, instructions }

def encode (a : Artifact) : List UInt8 :=
  encodeU32 a.magic ++ encodeU32 a.version ++ encodeU32 a.checksum ++ encodeList encodeUnit a.units

def decoder : Decoder Artifact := do
  let magic ← u32
  let version ← u32
  let checksum ← u32
  let units ← list decodeUnit
  return { magic, version, checksum, units }

/-- Reads an artifact from the front of `bytes`; what follows it does not matter. -/
def decode (bytes : List UInt8) : Except FormatError Artifact :=
  (decoder.run { bytes, room := sizeLimit }).map Prod.fst

/-- The written form, unless it is too large. -/
def write (a : Artifact) : Except FormatError (List UInt8) :=
  let bytes := a.encode
  if sizeLimit < bytes.length then .error .tooLarge else .ok bytes

/-- How an artifact fails to belong to the loaded code. -/
inductive Mismatch where
  | magic
  | version (found : UInt32)
  | checksum (found expected : UInt32)
  deriving DecidableEq, Repr, Inhabited

def Mismatch.message : Mismatch → String
  | magic => "bad magic"
  | version found => s!"version {found.toNat} (expected {expectedVersion.toNat})"
  | checksum found expected =>
    s!"built for code CRC {Hex.upper 8 found.toNat}, loaded image is " ++
      Hex.upper 8 expected.toNat

/-- Magic, version and checksum are looked at in this order. -/
def mismatch? (a : Artifact) (checksum : UInt32) : Option Mismatch :=
  if a.magic ≠ expectedMagic then some .magic
  else if a.version ≠ expectedVersion then some (.version a.version)
  else if a.checksum ≠ checksum then some (.checksum a.checksum checksum)
  else none

end Artifact
end NesRoutine

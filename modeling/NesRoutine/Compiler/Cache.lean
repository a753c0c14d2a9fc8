import NesRoutine.Compiler

/-! Saving the units of a compiler and bringing them back. -/
namespace NesRoutine.Compiler

def savedUnits (c : Compiler) : List SavedUnit :=
  c.units.toList.map fun (_, unit) => { entry := unit.entry, instructions := unit.instructions }

/-- All units in ascending order of their entries. -/
def artifact (c : Compiler) : Artifact where
  magic := Artifact.expectedMagic
  version := Artifact.expectedVersion
  checksum := Checksum.regions c.regions
  units := c.savedUnits

/-- Writes the units; `room` is how many bytes the output takes, if it is bounded. -/
def save (c : Compiler) (room : Option Nat := none) :
    Except Error (Nat × List UInt8) × Compiler :=
  let artifact := c.artifact
  match artifact.write with
  | .error e => (.error (.cacheFormat e), c)
  | .ok bytes =>
    if room.any (· < bytes.length) then
      (.error (.cacheFormat (.ended true)), c)
    else
      (.ok (artifact.units.length, bytes), c.log (.saved artifact.units.length))

/-- Adds saved units in turn; one whose entry has a unit already is passed over.
The units before the first that fails are kept. -/
def addUnits (c : Compiler) (added : Nat) : List SavedUnit → Except Error Nat × Compiler
  | [] => (.ok added, c)
  | u :: us =>
    if c.isCompiled u.entry then
      c.addUnits added us
    else
      match c.generate u.entry u.instructions with
      | (.error e, c) => (.error e, c)
      | (.ok unit, c) => addUnits { c with units := c.units.insert u.entry unit } (added + 1) us

/-- Brings back saved units, and answers how many were added. The header is
looked at once everything is decoded. -/
def load (c : Compiler) (bytes : List UInt8) : Except Error Nat × Compiler :=
  match Artifact.decode bytes with
  | .error e => (.error (.cacheFormat e), c)
  | .ok artifact =>
    match artifact.mismatch? (Checksum.regions c.regions) with
    | some m => (.error (.cacheMismatch m), c)
    | none =>
      match c.addUnits 0 artifact.units with
      | (.error e, c) => (.error e, c)
      | (.ok added, c) => (.ok added, c.log (.loaded added))

end NesRoutine.Compiler

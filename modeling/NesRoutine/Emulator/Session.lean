import NesRoutine.Emulator
import NesRoutine.Files

/-! Starting an emulator from its cache file and writing that file at the end. -/
namespace NesRoutine.Emulator

variable {m : Type → Type} [Monad m]

/-- Why a cache file that exists gave nothing. A directory can be opened, and fails
when it is read. -/
def unread (cause : FileError) : Compiler.Error :=
  if cause = .isDirectory then .cacheFormat .directory else .cacheFile cause

/-- Starts an emulator with what its cache file holds, if there is such a file. -/
def load (files : Files m) (cartridge : Cartridge) (config : Config) (journal : Journal := {}) :
    m (Except Error Emulator × Journal) := do
  match config.validate, config.cachePath with
  | .ok (), some path =>
    if ← files.exists? path then
      match ← files.read path with
      | .ok bytes => return ofCartridge cartridge config (some bytes) journal
      | .error cause => return (.error (.compiler (unread cause)), journal)
    else
      return ofCartridge cartridge config none journal
  | _, _ => return ofCartridge cartridge config none journal

/-- Writes the compiled units to the cache file; the answer is how many, if there
is a file to write to. -/
def saveCache (files : Files m) (e : Emulator) : m (Except Error (Option Nat) × Emulator) := do
  match e.config.cachePath with
  | none => return (.ok none, e)
  | some path =>
    match e.dispatcher.compiler.save with
    | (.error cause, _) => return (.error (.compiler cause), e)
    | (.ok (count, bytes), compiler) =>
      match ← files.write path bytes with
      | .error cause => return (.error (.compiler (.cacheFile cause)), e)
      | .ok () =>
        let e := { e with dispatcher := { e.dispatcher with compiler } }
        return (.ok (some count), e.log (.cacheSaved count path))

end NesRoutine.Emulator

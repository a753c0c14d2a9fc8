import NesRoutine.Cli

/-! The program: the commands over the files, the clock and the output of the
process. -/
namespace NesRoutine

/-- The words of the operating system for an error. -/
def FileError.ofSystem : IO.Error → FileError
  | .noFileOrDirectory .. => .notFound
  | e => ⟨toString e⟩

def systemFiles : Files IO where
  exists? path := do
    match ← (IO.FS.readBinFile path).toBaseIO with
    | .error (.noFileOrDirectory ..) => return false
    | _ => return true
  read path := do
    match ← (IO.FS.readBinFile path).toBaseIO with
    | .ok bytes => return .ok bytes.toList
    | .error e => return .error (.ofSystem e)
  write path bytes := do
    match ← (IO.FS.writeBinFile path ⟨bytes.toArray⟩).toBaseIO with
    | .ok () => return .ok ()
    | .error e => return .error (.ofSystem e)

def systemClock : Clock IO where
  now := IO.monoNanosNow
  sleepUntil time := do
    let now ← IO.monoNanosNow
    IO.sleep (UInt32.ofNat ((time - now + millisecond - 1) / millisecond))

def systemHost : Cli.Host IO where
  files := systemFiles
  clock := systemClock
  print line := IO.println line

end NesRoutine

def main (arguments : List String) : IO UInt32 := do
  let outcome ← NesRoutine.Cli.perform NesRoutine.systemHost arguments
  IO.eprint outcome.errorText
  return outcome.code.toUInt32

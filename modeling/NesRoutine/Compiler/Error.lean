import NesRoutine.Artifact
import NesRoutine.CodeUnit.Layout

/-! Why compiling, running, saving or loading code fails. -/
namespace NesRoutine

/-- A file could not be read or written; the operating system's words. -/
structure FileError where
  message : String
  deriving DecidableEq, Repr, Inhabited

namespace FileError

def notFound : FileError := ⟨"No such file or directory (os error 2)"⟩

def notDirectory : FileError := ⟨"Not a directory (os error 20)"⟩

def isDirectory : FileError := ⟨"Is a directory (os error 21)"⟩

def invalidText : FileError := ⟨"stream did not contain valid UTF-8"⟩

end FileError

namespace Compiler

inductive Error where
  | decode (entry : UInt16) (cause : DecodeError)
  | empty (entry : UInt16)
  | generation (entry : UInt16) (cause : GenerationError)
  | execution (entry : UInt16) (fault : Fault)
  /-- The unit took more operations than a run is allowed. -/
  | exhausted (entry : UInt16)
  | cacheFile (cause : FileError)
  | cacheFormat (cause : Artifact.FormatError)
  | cacheMismatch (cause : Artifact.Mismatch)
  deriving DecidableEq, Repr, Inhabited

def Error.message : Error → String
  | decode entry cause =>
    s!"failed to decompile function at {Hex.address entry}: {cause.message}"
  | empty entry => s!"function at {Hex.address entry} decompiled to zero instructions"
  | generation entry cause =>
    s!"failed to generate code for {Hex.address entry}: {cause.message}"
  | execution entry fault =>
    s!"compiled function at {Hex.address entry} failed: {fault.message}"
  | exhausted entry => s!"compiled function at {Hex.address entry} did not finish"
  | cacheFile cause => s!"cache i/o error: {cause.message}"
  | cacheFormat cause => s!"cache format error: {cause.message}"
  | cacheMismatch cause => s!"cache artifact does not match: {cause.message}"

/-- The error behind an error, if its message stands on its own. -/
def Error.cause? : Error → Option String
  | decode _ cause => some cause.message
  | generation _ cause => some cause.message
  | execution _ fault => some fault.message
  | cacheFile cause => some cause.message
  | cacheFormat cause => some cause.message
  | empty _ | exhausted _ | cacheMismatch _ => none

end Compiler
end NesRoutine

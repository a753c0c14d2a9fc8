import NesRoutine.Compiler.Error

/-! Files as the library asks for them, and a folder of files kept in memory. -/
namespace NesRoutine

/-- Access to files by path, in whatever setting the program runs. -/
structure Files (m : Type → Type) where
  exists? : String → m Bool
  read : String → m (Except FileError (List UInt8))
  /-- Makes a file, or empties the one that is there, and fills it. -/
  write : String → List UInt8 → m (Except FileError Unit)

/-- A directory that holds files and nothing else. -/
structure Folder where
  files : Std.TreeMap String (List UInt8) := {}
  deriving Inhabited

namespace Folder

/-- What a path leads to. -/
inductive Place where
  /-- A name in the folder, whether or not a file has it. -/
  | name (name : String)
  | directory
  | error (cause : FileError)

/-- Follows a path from the folder. A file is not a directory, so nothing lies
beyond one, and `.` stays in place. -/
def place (f : Folder) (path : String) : Place :=
  let parts := path.splitOn "/"
  if path.isEmpty then
    .error .notFound
  else if path.startsWith "/" then
    .error .notFound
  else
    match parts.filter fun part => part ≠ "." ∧ part ≠ "" with
    | [] => .directory
    | [name] =>
      if parts.getLast? = some name then .name name
      else if f.files.contains name then .error .notDirectory
      else .error .notFound
    | name :: _ => if f.files.contains name then .error .notDirectory else .error .notFound

def exists? (f : Folder) (path : String) : Bool :=
  match f.place path with
  | .name name => f.files.contains name
  | .directory => true
  | .error _ => false

def read (f : Folder) (path : String) : Except FileError (List UInt8) :=
  match f.place path with
  | .name name => (f.files[name]?).elim (.error .notFound) .ok
  | .directory => .error .isDirectory
  | .error cause => .error cause

def write (f : Folder) (path : String) (bytes : List UInt8) : Except FileError Folder :=
  match f.place path with
  | .name name => .ok { f with files := f.files.insert name bytes }
  | .directory => .error .isDirectory
  | .error cause => .error cause

/-- The folder as a store of files. -/
def store : Files (StateM Folder) where
  exists? path := return (← get).exists? path
  read path := return (← get).read path
  write path bytes := do
    match (← get).write path bytes with
    | .ok f =>
      set f
      return .ok ()
    | .error cause => return .error cause

end Folder
end NesRoutine

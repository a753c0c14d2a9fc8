import NesRoutine.Toml.Statement

/-! Whole documents. -/
namespace NesRoutine.Toml

structure Document where
  root : List Entry := []
  /-- The header the statements that follow belong to; the root has none. -/
  current : List Key := []
  deriving Inhabited

namespace Document

/-- The span of a table grows from its header to its last value. -/
def extendSpan (entries : List Entry) (last : Key) (stop : Nat) : List Entry :=
  entries.map fun (key, span, value) =>
    if key.name == last.name then (key, span.map fun s => ⟨s.start, stop⟩, value)
    else (key, span, value)

def add (d : Document) : Statement → Except Complaint Document
  | .entry path last span value => do
    let table := some (d.current.map Key.name)
    let inserted (entries : List Entry) := Table.insert table entries path (last, some span, value)
    let root ← Table.atHeader d.root [] d.current inserted
    match d.current.getLast? with
    | none => return { d with root }
    | some opened =>
      let grown ← Table.atHeader root [] d.current.dropLast fun inner =>
        .ok (extendSpan inner opened span.stop)
      return { d with root := grown }
  | .header path last span => do
    return { root := ← Table.openTable d.root path last span, current := path ++ [last] }
  | .listHeader path last span => do
    return { root := ← Table.openListed d.root path last span, current := path ++ [last] }

/-- Reads a document. A mark of the byte order may stand at its start. -/
def parse (text : String) : Except Error Document := do
  let start : Cursor := { rest := text.toList }
  let start := (start.after? ['\uFEFF']).getD start
  go (text.length + 1) start {}
where
  go : Nat → Cursor → Document → Except Error Document
    | 0, _, d => .ok d
    | fuel + 1, c, d => do
      match ← c.statement? with
      | none => return d
      | some ((start, s), c) =>
        match d.add s with
        | .ok d => go fuel c d
        | .error complaint => throw (start.fail complaint)

end Document
end NesRoutine.Toml

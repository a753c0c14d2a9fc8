import NesRoutine.Compiler

/-! Compiling ahead: everything that calls lead to from some entries. -/
namespace NesRoutine

/-- Where control can come to after an instruction leaves the unit: the target
of a call and its return point, and the point a software interrupt resumes at. -/
def Instruction.callEdges (i : Instruction) : List UInt16 :=
  match i.mnemonic with
  | .jsr => [i.operandWord, i.next]
  | .brk => [i.address + 2]
  | _ => []

def CodeUnit.callEdges (u : CodeUnit) : List UInt16 :=
  u.instructions.flatMap (·.instruction.callEdges)

namespace Compiler

structure Report where
  compiled : Array UInt16 := #[]
  failed : Array (UInt16 × Error) := #[]
  deriving Inhabited

/-- What compiling ahead has done, and where it has been. -/
structure Advance where
  compiler : Compiler
  seen : Std.TreeSet UInt16 := {}
  report : Report := {}

/-- Takes up an address that was not seen before; the answer is where to go on. -/
def Advance.visit (s : Advance) (address : UInt16) : List UInt16 × Advance :=
  let seen := s.seen.insert address
  match s.compiler.getOrCompile address with
  | (.ok unit, compiler) =>
    let report := { s.report with compiled := s.report.compiled.push address }
    (unit.callEdges, { compiler, seen, report })
  | (.error e, compiler) =>
    let report := { s.report with failed := s.report.failed.push (address, e) }
    ([], { compiler := compiler.log (.skipped address e), seen, report })

/-- Takes pending addresses in turn. Fuel is spent only on addresses not seen
before, of which there are at most 65536. -/
def Advance.explore : Nat → List UInt16 → Advance → Advance
  | _, [], s => s
  | fuel, address :: pending, s =>
    if s.seen.contains address then
      explore fuel pending s
    else
      match fuel with
      | 0 => s
      | fuel + 1 =>
        let (edges, s) := s.visit address
        explore fuel (pending ++ edges) s
  termination_by fuel pending => (fuel, pending.length)

/-- Compiles the entries and all that their calls lead to, breadth-first. -/
def precompile (c : Compiler) (entries : List UInt16) : Report × Compiler :=
  let s := Advance.explore 65536 entries { compiler := c }
  (s.report, s.compiler)

end Compiler
end NesRoutine

import NesRoutine.CodeUnit.Execution
import NesRoutine.Journal

/-! A compiler turns routines into units when they are first wanted and keeps
every unit it has made. -/
namespace NesRoutine

/-- Changes what is generated: lowered routines may be edited, and the code
of a kind of micro-operation replaced. -/
structure Customizer where
  edit : Routine → List Lowered → List Lowered := fun _ xs => xs
  generators : Generators := fun _ => none

instance : Inhabited Customizer := ⟨{}⟩

structure Compiler where
  regions : List CodeRegion
  customizer : Customizer := {}
  debugger : Option Debugger := none
  /-- How many operations one run of a unit may take. -/
  budget : Nat := 1 <<< 60
  units : Std.TreeMap UInt16 CodeUnit := {}
  compilations : Nat := 0
  hits : Nat := 0
  invocations : Nat := 0
  journal : Journal := {}
  deriving Inhabited

namespace Compiler

def log (c : Compiler) (r : LogRecord) : Compiler := { c with journal := c.journal.log r }

def isCompiled (c : Compiler) (address : UInt16) : Bool := c.units.contains address

def get? (c : Compiler) (address : UInt16) : Option CodeUnit := c.units[address]?

/-- The addresses that have a unit, ascending. -/
def entries (c : Compiler) : List UInt16 := c.units.keys

/-- Generates a unit from lowered instructions, and counts it if that succeeds. -/
def generate (c : Compiler) (address : UInt16) (instructions : List Lowered) :
    Except Error CodeUnit × Compiler :=
  if instructions.isEmpty then
    (.error (.empty address), c)
  else
    match CodeUnit.generate c.customizer.generators address instructions with
    | .error e => (.error (.generation address e), c)
    | .ok unit => (.ok unit, { c with compilations := c.compilations + 1 })

/-- Makes the unit for an address, without keeping it. -/
def compile (c : Compiler) (address : UInt16) : Except Error CodeUnit × Compiler :=
  match Routine.discover c.regions address with
  | .error e => (.error (.decode address e), c)
  | .ok routine =>
    let c := c.log (.discovered address routine.instructions.length routine.targets.size)
    if routine.instructions.isEmpty then
      (.error (.empty address), c)
    else
      match c.generate address (c.customizer.edit routine routine.lower) with
      | (.error e, c) => (.error e, c)
      | (.ok unit, c) =>
        (.ok unit, c.log (.compiled address unit.instructions.length unit.ops.size))

/-- The unit for an address: the one that is kept, or a new one. -/
def getOrCompile (c : Compiler) (address : UInt16) : Except Error CodeUnit × Compiler :=
  match c.units[address]? with
  | some unit => (.ok unit, { c with hits := c.hits + 1 })
  | none =>
    match c.compile address with
    | (.error e, c) => (.error e, c)
    | (.ok unit, c) => (.ok unit, { c with units := c.units.insert address unit })

/-- Shows the debugger that a unit is entered; without one, this is logged. -/
def noteEntered (c : Compiler) (address : UInt16) (h : Hardware) : Compiler :=
  if c.debugger.isSome then
    { c with journal := c.journal.note (.entered address h.snapshot) }
  else
    c.log (.entered address h.cpu.registers)

def noteLeft (c : Compiler) (address : UInt16) (notes : List Note) (h : Hardware) : Compiler :=
  if c.debugger.isSome then
    { c with journal := (notes.foldl Journal.note c.journal).note (.left address h.snapshot) }
  else
    c.log (.left address h.cpu.registers)

/-- The result of a run in the terms of the compiler. -/
def Error.ofEnding (address : UInt16) : Ending → Except Error Unit
  | .exited => .ok ()
  | .faulted fault => .error (.execution address fault)
  | .exhausted => .error (.exhausted address)

/-- Runs the unit for an address on the hardware, compiling it if need be. A
run is counted whether or not it then fails. -/
def run (c : Compiler) (address : UInt16) (h : Hardware) :
    Except Error Unit × Compiler × Hardware :=
  match c.getOrCompile address with
  | (.error e, c) => (.error e, c, h)
  | (.ok unit, c) =>
    let c := { c with invocations := c.invocations + 1 }
    let c := c.noteEntered address h
    let (ending, r) := unit.invoke c.debugger c.budget h
    (Error.ofEnding address ending, c.noteLeft address r.notes r.hardware, r.hardware)

/-- Runs a unit that is not kept, unseen but for the hook points it passes. -/
def invoke (c : Compiler) (unit : CodeUnit) (h : Hardware) :
    Except Error Unit × Compiler × Hardware :=
  let (ending, r) := unit.invoke c.debugger c.budget h
  let c := { c with journal := r.notes.foldl Journal.note c.journal }
  (Error.ofEnding unit.entry ending, c, r.hardware)

end Compiler
end NesRoutine

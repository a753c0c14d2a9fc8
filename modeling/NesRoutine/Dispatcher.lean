import NesRoutine.Compiler

/-! Deciding, at each step of the processor, between a compiled unit and
stepping over a byte. -/
namespace NesRoutine

/-- What to do when compiling or running a unit fails. -/
inductive FailurePolicy where
  /-- Pass the error on. -/
  | abort
  /-- Remember the address and never try it again. -/
  | markAbsent
  deriving DecidableEq, Repr, Inhabited

def FailurePolicy.name : FailurePolicy → String
  | abort => "abort"
  | markAbsent => "mark-absent"

structure Dispatcher where
  compiler : Compiler
  policy : FailurePolicy := .markAbsent
  absent : Std.TreeSet UInt16 := {}
  deriving Inhabited

namespace Dispatcher

def isAbsent (d : Dispatcher) (address : UInt16) : Bool := d.absent.contains address

/-- Runs the unit for an address; the answer says whether one ran. -/
def dispatch (d : Dispatcher) (address : UInt16) (h : Hardware) :
    Except Compiler.Error Bool × Dispatcher × Hardware :=
  if d.isAbsent address then
    (.ok false, d, h)
  else
    match d.compiler.run address h with
    | (.ok (), compiler, h) => (.ok true, { d with compiler }, h)
    | (.error e, compiler, h) =>
      match d.policy with
      | .abort => (.error e, { d with compiler }, h)
      | .markAbsent =>
        let compiler := compiler.log (.absent address e)
        (.ok false, { d with compiler, absent := d.absent.insert address }, h)

/-- One step of the processor: the unit at PC, or else the byte at PC is stepped
over. -/
def step (d : Dispatcher) (h : Hardware) : Except Compiler.Error Unit × Dispatcher × Hardware :=
  match d.dispatch h.pc h with
  | (.error e, d, h) => (.error e, d, h)
  | (.ok true, d, h) => (.ok (), d, h)
  | (.ok false, d, h) => (.ok (), d, h.skip)

/-- Takes up to `n` steps; the answer is the registers after each, and what
stopped the others. -/
def steps (d : Dispatcher) (n : Nat) (h : Hardware) :
    List Registers × Option Compiler.Error × Dispatcher × Hardware :=
  match n with
  | 0 => ([], none, d, h)
  | n + 1 =>
    match d.step h with
    | (.error e, d, h) => ([], some e, d, h)
    | (.ok (), d, h) =>
      let registers := h.cpu.registers
      let (rest, error, d, h) := d.steps n h
      (registers :: rest, error, d, h)

end Dispatcher
end NesRoutine

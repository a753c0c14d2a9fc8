import NesRoutine.Hardware
import NesRoutine.Lowering
import NesRoutine.MicroOp.Text
import NesRoutine.Text.Record

/-! A code unit is the executable form of a routine: a list of operations in
which labels have become indices. -/
namespace NesRoutine

/-- Why a run of a unit fails. -/
inductive Fault where
  | undefinedVariable (slot : UInt8)
  | hook (tag : UInt32) (message : String)
  | ranOffEnd (entry : UInt16)
  deriving DecidableEq, Repr, Inhabited

def Fault.message : Fault → String
  | undefinedVariable slot => s!"variable {slot.toNat} read before it was written"
  | hook tag message => s!"hook {tag.toNat} failed: {message}"
  | ranOffEnd entry => s!"unit for {Hex.address entry} ran past its last instruction"

/-- What a debugger is shown. -/
inductive Note where
  | entered (address : UInt16) (state : Snapshot)
  | left (address : UInt16) (state : Snapshot)
  | hook (tag : UInt32) (state : Snapshot)
  deriving DecidableEq, Repr, Inhabited

/-- A hook point that a run came to, and the hardware as it was there. -/
structure Visit where
  tag : UInt32
  hardware : Hardware
  deriving DecidableEq, Inhabited

/-- A debugger acts on the hardware at hook points, where it may also fail the run. What
it does may depend on the hook points that the run came to before, latest first; it
keeps nothing from one run for the next. -/
structure Debugger where
  onHook : List Visit → UInt32 → Hardware → Hardware × Option Fault

/-- Scratch bytes; none is defined before it is written. -/
abbrev Scratch := Vector (Option UInt8) 256

namespace Scratch

def empty : Scratch := Vector.replicate 256 none

def cell (slot : UInt8) : Fin 256 := ⟨slot.toNat, slot.toNat_lt⟩

end Scratch

/-- The state of one run of a unit. -/
structure Run where
  hardware : Hardware
  scratch : Scratch := .empty
  /-- The hook points that the debugger was shown, latest first. -/
  visits : List Visit := []

/-- What the debugger was shown, in order. -/
def Run.notes (r : Run) : List Note :=
  r.visits.reverse.map fun v => .hook v.tag v.hardware.snapshot

/-- A step of a run. A fault keeps what was done before it. -/
abbrev Exec := EStateM Fault Run

/-- Where control goes after an operation. -/
inductive Flow where
  | next
  | goto (index : Nat)
  | exit
  deriving DecidableEq, Repr, Inhabited

abbrev Action := Exec Flow

inductive Op where
  | effect (e : Effect)
  | goto (target : Nat)
  | branch (onZero : Bool) (condition : Value) (target : Nat)
  | exit (e : Exit)
  /-- An operation supplied from outside. -/
  | custom (action : Action)
  deriving Inhabited

structure CodeUnit where
  entry : UInt16
  ops : Array Op
  /-- What the unit was generated from. -/
  instructions : List Lowered
  deriving Inhabited

def CodeUnit.text (u : CodeUnit) : String :=
  recordText "CompiledFunction"
    [("entry", Hex.address u.entry), ("ops", toString u.ops.size),
     ("instructions", toString u.instructions.length)]

end NesRoutine

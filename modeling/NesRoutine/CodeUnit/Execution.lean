import NesRoutine.CodeUnit

/-! Running a unit on the hardware. A unit may never come to an end, so a run is
given a number of operations it may take. -/
namespace NesRoutine

namespace Exec

def readBus (address : UInt16) : Exec UInt8 := fun r =>
  let (value, hardware) := r.hardware.read address
  .ok value { r with hardware }

def change (f : Hardware → Hardware) : Exec Unit := fun r =>
  .ok () { r with hardware := f r.hardware }

def inspect (f : Hardware → α) : Exec α := fun r =>
  .ok (f r.hardware) r

def readScratch (slot : UInt8) : Exec UInt8 := fun r =>
  match r.scratch[Scratch.cell slot] with
  | some value => .ok value r
  | none => .error (.undefinedVariable slot) r

def writeScratch (slot value : UInt8) : Exec Unit := fun r =>
  .ok () { r with scratch := r.scratch.set (Scratch.cell slot) (some value) }

/-- The content of an index register; no index counts as zero. -/
def offset (index : Option Register) : Exec UInt8 :=
  match index with
  | some register => inspect (·.register register)
  | none => pure 0

/-- The address a zero page pointer leads to; the pointer wraps on its page. -/
def pointee (pointer : UInt8) : Exec UInt16 := do
  let lo ← readBus pointer.toUInt16
  let hi ← readBus (pointer + 1).toUInt16
  return word lo hi

def memoryAddress (base : UInt16) (index : Option Register) (zeroPage : Bool) : Exec UInt16 := do
  let offset ← offset index
  return if zeroPage then (base.toUInt8 + offset).toUInt16 else base + offset.toUInt16

def indirectAddress (pointer : UInt8) (index : Option Register) (preIndexed : Bool) :
    Exec UInt16 := do
  let offset ← offset index
  if preIndexed then
    pointee (pointer + offset)
  else
    let address ← pointee pointer
    return address + offset.toUInt16

end Exec

namespace Value
open Exec

def read : Value → Exec UInt8
  | constant v => pure v
  | register r => inspect (·.register r)
  | flag f => inspect fun h => if h.flag f then 1 else 0
  | status => inspect (·.status.bits)
  | memory base index zeroPage => do readBus (← memoryAddress base index zeroPage)
  | indirect pointer index preIndexed => do readBus (← indirectAddress pointer index preIndexed)
  | scratch slot => readScratch slot

/-- Nothing is written to a constant. -/
def write (v : Value) (value : UInt8) : Exec Unit :=
  match v with
  | constant _ => pure ()
  | register r => change (·.setRegister r value)
  | flag f => change (·.setFlag f (value != 0))
  | status => change (·.setStatus ⟨value⟩)
  | memory base index zeroPage => do
    let address ← memoryAddress base index zeroPage
    change (·.write address value)
  | indirect pointer index preIndexed => do
    let address ← indirectAddress pointer index preIndexed
    change (·.write address value)
  | scratch slot => writeScratch slot value

end Value

/-- Adds to the accumulator with carry in and out. Overflow means that both
operands have the sign that the result has not. -/
def Hardware.addWithCarry (h : Hardware) (m : UInt8) : Hardware :=
  let a := h.register .a
  let sum := a.toNat + m.toNat + (if h.flag .carry then 1 else 0)
  let result := UInt8.ofNat sum
  let h := h.setFlag .carry (decide (0xFF < sum))
  let h := h.setFlag .overflow (~~~(a ^^^ m) &&& (a ^^^ result) &&& 0x80 != 0)
  (h.setRegister .a result).setZeroNegative result

def Hardware.compare (h : Hardware) (l r : UInt8) : Hardware :=
  (h.setFlag .carry (decide (r ≤ l))).setZeroNegative (l - r)

def Hardware.bitTest (h : Hardware) (m : UInt8) : Hardware :=
  let h := h.setFlag .zero (h.register .a &&& m == 0)
  (h.setFlag .negative (m &&& 0x80 != 0)).setFlag .overflow (m &&& 0x40 != 0)

namespace Effect
open Exec

/-- Tells the debugger where the run stands, then lets it act. -/
def performHook (debugger : Option Debugger) (tag : UInt32) : Exec Unit := fun r =>
  match debugger with
  | none => .ok () r
  | some d =>
    let visits := ⟨tag, r.hardware⟩ :: r.visits
    match d.onHook r.visits tag r.hardware with
    | (hardware, none) => .ok () { r with hardware, visits }
    | (hardware, some fault) => .error fault { r with hardware, visits }

def perform (debugger : Option Debugger) : Effect → Exec Unit
  | copy source destination => do destination.write (← source.read)
  | complement source destination => do destination.write (~~~(← source.read))
  | binary op left right destination => do
    let l ← left.read
    let r ← right.read
    destination.write (op.apply l r)
  | addWithCarry operand => do
    let m ← operand.read
    change (·.addWithCarry m)
  | compare left right => do
    let l ← left.read
    let r ← right.read
    change (·.compare l r)
  | shift kind target => do
    let value ← target.read
    let carry ← inspect (·.flag .carry)
    let result := kind.apply value carry
    target.write result
    change fun h => (h.setFlag .carry (kind.carryOut value)).setZeroNegative result
  | bitTest operand => do
    let m ← operand.read
    change (·.bitTest m)
  | setZeroNegative value => do
    let v ← value.read
    change (·.setZeroNegative v)
  | push value => do
    let v ← value.read
    change (·.push v)
  | pop destination => do
    let v ← fun r => let (v, hardware) := r.hardware.pop; .ok v { r with hardware }
    destination.write v
  | hook tag => performHook debugger tag

end Effect

/-- A call and a software interrupt save where to continue, so PC is put there first. -/
def Exit.perform : Exit → Hardware → Hardware
  | call target returnAddress, h => (h.setPc returnAddress).call target
  | jump address, h => h.setPc address
  | jumpIndirect pointer, h => h.jumpIndirect pointer
  | returnFromSubroutine, h => h.returnFromSubroutine
  | returnFromInterrupt, h => h.returnFromInterrupt
  | softwareInterrupt address, h => (h.setPc address).softwareInterrupt

def Op.perform (debugger : Option Debugger) : Op → Exec Flow
  | effect e => do
    e.perform debugger
    return .next
  | goto target => return .goto target
  | branch onZero condition target => do
    let value ← condition.read
    return if (value == 0) == onZero then .goto target else .next
  | exit e => do
    Exec.change e.perform
    return .exit
  | custom action => action

/-- How a run of a unit ends. -/
inductive Ending where
  | exited
  | faulted (fault : Fault)
  /-- The run was cut off. -/
  | exhausted
  deriving DecidableEq, Repr, Inhabited

namespace CodeUnit

/-- Runs from an index for at most `fuel` operations. -/
def runFrom (debugger : Option Debugger) (u : CodeUnit) : Nat → Nat → Run → Ending × Run
  | 0, _, r => (.exhausted, r)
  | fuel + 1, index, r =>
    match u.ops[index]? with
    | none => (.faulted (.ranOffEnd u.entry), r)
    | some op =>
      match op.perform debugger r with
      | .error fault r => (.faulted fault, r)
      | .ok .next r => u.runFrom debugger fuel (index + 1) r
      | .ok (.goto target) r => u.runFrom debugger fuel target r
      | .ok .exit r => (.exited, r)

/-- Runs the unit from its first operation. -/
def invoke (debugger : Option Debugger) (u : CodeUnit) (fuel : Nat) (hardware : Hardware) :
    Ending × Run :=
  u.runFrom debugger fuel 0 { hardware }

end CodeUnit
end NesRoutine

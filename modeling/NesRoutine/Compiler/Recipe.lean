import NesRoutine.Compiler

/-! Customizers and debuggers described by data. -/
namespace NesRoutine

/-- A change to a list of lowered instructions. All but `reverse` can be kept to
the instructions at one address. -/
inductive Mutation where
  | remove
  | reverse
  | before (ops : List MicroOp)
  | after (ops : List MicroOp)
  | replace (ops : List MicroOp)
  | dropKind (kind : MicroOp.Kind)
  deriving DecidableEq, Repr, Inhabited

namespace Mutation

/-- What becomes of one instruction. -/
def changeOne (x : Lowered) : Mutation → Option Lowered
  | remove => none
  | reverse => some x
  | before ops => some { x with body := ops ++ x.body }
  | after ops => some { x with body := x.body ++ ops }
  | replace ops => some { x with body := ops }
  | dropKind kind => some { x with body := x.body.filter (·.kind != kind) }

def apply (m : Mutation) (address : Option UInt16) (xs : List Lowered) : List Lowered :=
  match m with
  | reverse => xs.reverse
  | _ => xs.filterMap fun x =>
    if address.all (· == x.instruction.address) then m.changeOne x else some x

end Mutation

/-- What stands in for the code of a kind of micro-operation. -/
inductive Substitute where
  | fail (message : String)
  | next
  | exit
  | goto (index : Nat)
  | setRegister (register : Register) (value : UInt8)
  | setVariable (slot value : UInt8)
  | loadVariable (slot : UInt8)
  | raise (tag : UInt32) (message : String)
  deriving DecidableEq, Repr, Inhabited

def Substitute.generate (s : Substitute) (m : MicroOp) : Except GenerationError Action :=
  match s with
  | fail message => .error (.custom m.kind message)
  | next => .ok (pure .next)
  | exit => .ok (pure .exit)
  | goto index => .ok (pure (.goto index))
  | setRegister register value => .ok do
    Exec.change (·.setRegister register value)
    return .next
  | setVariable slot value => .ok do
    Exec.writeScratch slot value
    return .next
  | loadVariable slot => .ok do
    let value ← Exec.readScratch slot
    Exec.change (·.setRegister .a value)
    return .next
  | raise tag message => .ok (throw (.hook tag message))

/-- Mutations apply in turn, each optionally at one address only. -/
structure Recipe where
  mutations : List (Mutation × Option UInt16) := []
  substitutes : List (MicroOp.Kind × Substitute) := []
  deriving DecidableEq, Repr, Inhabited

def Recipe.customizer (r : Recipe) : Customizer where
  edit _ xs := r.mutations.foldl (fun xs (m, address) => m.apply address xs) xs
  generators kind := (r.substitutes.lookup kind).map Substitute.generate

/-- A debugger that fails at the listed tags; at any other it leaves bits 8 to 15
of the tag in the cell of page 7 that bits 0 to 7 name. -/
def Debugger.probe (failing : List (UInt32 × String)) : Debugger where
  onHook _ tag h :=
    match failing.lookup tag with
    | some message => (h, some (.hook tag message))
    | none =>
      let address : UInt16 := 0x0700 ||| (tag &&& 0xFF).toUInt16
      (h.write address (tag >>> 8).toUInt8, none)

end NesRoutine

import NesRoutine.CodeUnit
import Std.Data.TreeMap

/-! Generating a unit: lowered instructions are laid out one after another,
labels and instruction starts get their index, and only then is each operation
generated. Where an instruction's successor in memory is not the next in the
list, an operation that leads there is put in between. -/
namespace NesRoutine

inductive GenerationError where
  | unknownLabel (label : Label)
  | duplicateLabel (label : Label)
  | invalidTarget (value : Value)
  | custom (kind : MicroOp.Kind) (message : String)
  deriving DecidableEq, Repr, Inhabited

def GenerationError.message : GenerationError → String
  | unknownLabel label => s!"jump to undefined label {label.text}"
  | duplicateLabel label => s!"label {label.text} is defined more than once"
  | invalidTarget value => s!"{value.text} cannot be used as a write target"
  | custom kind message => s!"custom generator for {kind.name} failed: {message}"

/-- Replacements for the code of whole kinds of micro-operation. -/
abbrev Generators := MicroOp.Kind → Option (MicroOp → Except GenerationError Action)

/-- A number that tells labels apart. -/
def Label.key : Label → Nat
  | instruction address => address.toNat
  | inner address n => 0x10000 * (n.toNat + 1) + address.toNat

theorem Label.key_injective {l m : Label} (same : l.key = m.key) : l = m := by
  cases l with
  | instruction a =>
    cases m with
    | instruction b => exact congrArg instruction (UInt16.toNat_inj.mp same)
    | inner b n =>
      have := a.toNat_lt
      simp only [key] at same
      omega
  | inner a n =>
    cases m with
    | instruction b =>
      have := b.toNat_lt
      simp only [key] at same
      omega
    | inner b k =>
      have := a.toNat_lt
      have := b.toNat_lt
      simp only [key] at same
      have addresses : a.toNat = b.toNat := by omega
      have numbers : n.toNat = k.toNat := by omega
      rw [UInt16.toNat_inj.mp addresses, UInt8.toNat_inj.mp numbers]

/-- What stands at one index of a unit. -/
inductive Slot where
  | op (m : MicroOp)
  /-- Continue with the instruction at `next`. -/
  | fallThrough (next : UInt16)
  deriving DecidableEq, Repr, Inhabited

structure Layout where
  slots : Array Slot := #[]
  labels : Std.TreeMap Nat Nat := {}
  /-- The first instruction at an address stands for it. -/
  starts : Std.TreeMap UInt16 Nat := {}

namespace Layout

/-- A label takes no slot and may be placed once. -/
def placeOp (l : Layout) : MicroOp → Except GenerationError Layout
  | .label label =>
    if l.labels.contains label.key then
      .error (.duplicateLabel label)
    else
      .ok { l with labels := l.labels.insert label.key l.slots.size }
  | m => .ok { l with slots := l.slots.push (.op m) }

def placeBody (l : Layout) : List MicroOp → Except GenerationError Layout
  | [] => .ok l
  | m :: ms =>
    match l.placeOp m with
    | .error e => .error e
    | .ok l => l.placeBody ms

/-- Whether control can pass the end of a lowered instruction. -/
def fallsThrough (x : Lowered) : Bool := !(x.body.getLast?.any MicroOp.endsFlow)

/-- Places an instruction; `following` is the address of the next one in the list. -/
def place (l : Layout) (x : Lowered) (following : Option UInt16) :
    Except GenerationError Layout :=
  let start := l.starts.insertIfNew x.instruction.address l.slots.size
  match placeBody { l with starts := start } x.body with
  | .error e => .error e
  | .ok l =>
    if fallsThrough x && following != some x.instruction.next then
      .ok { l with slots := l.slots.push (.fallThrough x.instruction.next) }
    else
      .ok l

def placeAll (l : Layout) : List Lowered → Except GenerationError Layout
  | [] => .ok l
  | x :: xs =>
    match l.place x (xs.head?.map (·.instruction.address)) with
    | .error e => .error e
    | .ok l => l.placeAll xs

/-- The index of a label. -/
def resolve (l : Layout) (label : Label) : Except GenerationError Nat :=
  match l.labels[label.key]? with
  | some index => .ok index
  | none => .error (.unknownLabel label)

end Layout

/-- The value that an effect writes, if it writes one. -/
def Effect.destination? : Effect → Option Value
  | copy _ d | complement _ d | binary _ _ _ d | shift _ d | pop d => some d
  | _ => none

namespace Layout

/-- A constant cannot be written to. -/
def generateEffect (e : Effect) : Except GenerationError Op :=
  match e.destination? with
  | some d => if d.isWritable then .ok (.effect e) else .error (.invalidTarget d)
  | none => .ok (.effect e)

/-- The built-in code of a micro-operation. -/
def generateDefault (l : Layout) : MicroOp → Except GenerationError Op
  | .effect e => generateEffect e
  | .label _ => .ok (.custom (pure .next))
  | .goto target => (l.resolve target).map .goto
  | .branch onZero condition target => (l.resolve target).map (.branch onZero condition)
  | .exit e => .ok (.exit e)

def generateSlot (l : Layout) (generators : Generators) : Slot → Except GenerationError Op
  | .op m =>
    match generators m.kind with
    | some generator => (generator m).map .custom
    | none => l.generateDefault m
  | .fallThrough next =>
    match l.starts[next]? with
    | some index => .ok (.goto index)
    | none => .ok (.exit (.jump next))

end Layout

/-- Generates the unit for `entry`; control starts at the first instruction. -/
def CodeUnit.generate (generators : Generators) (entry : UInt16) (instructions : List Lowered) :
    Except GenerationError CodeUnit :=
  match Layout.placeAll {} instructions with
  | .error e => .error e
  | .ok layout =>
    match layout.slots.mapM (layout.generateSlot generators) with
    | .error e => .error e
    | .ok ops => .ok { entry, ops, instructions }

end NesRoutine

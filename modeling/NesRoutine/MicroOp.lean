import NesRoutine.Cpu

/-! Micro-operations: the small steps an instruction is lowered to. Most change
state and continue; the rest move control inside a unit or leave it. -/
namespace NesRoutine

/-- A place an operand is read from or a result is written to. -/
inductive Value where
  | constant (v : UInt8)
  | register (r : Register)
  /-- A single flag as 0 or 1; any other byte written to it counts as 1. -/
  | flag (f : Flag)
  | status
  /-- The cell at `base + index`. On the zero page the sum has eight bits. -/
  | memory (base : UInt16) (index : Option Register) (zeroPage : Bool)
  /-- The cell a zero page pointer leads to, indexed before or after the fetch. -/
  | indirect (pointer : UInt8) (index : Option Register) (preIndexed : Bool)
  /-- A byte that lives as long as one run of a unit. -/
  | scratch (slot : UInt8)
  deriving DecidableEq, Repr, Inhabited

namespace Value

def isWritable : Value → Bool
  | constant _ => false
  | _ => true

def a : Value := register .a
def x : Value := register .x
def y : Value := register .y
def sp : Value := register .sp

end Value

/-- Arithmetic wraps and leaves the flags alone; comparisons answer 1 or 0. -/
inductive BinaryOp where
  | and | or | xor | add | subtract | equals | notEquals
  deriving DecidableEq, Repr, Inhabited

namespace BinaryOp

def all : List BinaryOp := [and, or, xor, add, subtract, equals, notEquals]

theorem all_ctorIdx (o : BinaryOp) : all[o.ctorIdx]? = some o := by cases o <;> rfl

def apply : BinaryOp → UInt8 → UInt8 → UInt8
  | and, l, r => l &&& r
  | or, l, r => l ||| r
  | xor, l, r => l ^^^ r
  | add, l, r => l + r
  | subtract, l, r => l - r
  | equals, l, r => if l = r then 1 else 0
  | notEquals, l, r => if l = r then 0 else 1

end BinaryOp

inductive ShiftKind where
  | shiftLeft | shiftRight | rotateLeft | rotateRight
  deriving DecidableEq, Repr, Inhabited

namespace ShiftKind

def all : List ShiftKind := [shiftLeft, shiftRight, rotateLeft, rotateRight]

theorem all_ctorIdx (k : ShiftKind) : all[k.ctorIdx]? = some k := by cases k <;> rfl

/-- The shifted byte; a rotation brings the carry in at the free end. -/
def apply (k : ShiftKind) (value : UInt8) (carry : Bool) : UInt8 :=
  match k with
  | shiftLeft => value <<< 1
  | shiftRight => value >>> 1
  | rotateLeft => (value <<< 1) ||| (if carry then 1 else 0)
  | rotateRight => (value >>> 1) ||| (if carry then 0x80 else 0)

/-- The bit that falls out. -/
def carryOut (k : ShiftKind) (value : UInt8) : Bool :=
  match k with
  | shiftLeft | rotateLeft => value &&& 0x80 != 0
  | shiftRight | rotateRight => value &&& 0x01 != 0

end ShiftKind

/-- A place in a unit that control can be sent to. -/
inductive Label where
  /-- The start of the instruction at this address. -/
  | instruction (address : UInt16)
  /-- A place within the instruction at this address. -/
  | inner (address : UInt16) (n : UInt8)
  deriving DecidableEq, Repr, Inhabited

/-- A step that continues with what follows it. -/
inductive Effect where
  | copy (source destination : Value)
  | complement (source destination : Value)
  | binary (op : BinaryOp) (left right destination : Value)
  /-- `A = A + operand + C`, with C, V, Z and N. -/
  | addWithCarry (operand : Value)
  /-- Sets C, Z and N from `left - right`. -/
  | compare (left right : Value)
  /-- Shifts in place, with C, Z and N. -/
  | shift (kind : ShiftKind) (target : Value)
  /-- Z from `A & operand`, N and V from the operand. -/
  | bitTest (operand : Value)
  | setZeroNegative (value : Value)
  | push (value : Value)
  | pop (destination : Value)
  /-- A point where a debugger acts. -/
  | hook (tag : UInt32)
  deriving DecidableEq, Repr, Inhabited

/-- A step that leaves the unit. -/
inductive Exit where
  | call (target returnAddress : UInt16)
  | jump (address : UInt16)
  | jumpIndirect (pointer : UInt16)
  | returnFromSubroutine
  | returnFromInterrupt
  | softwareInterrupt (address : UInt16)
  deriving DecidableEq, Repr, Inhabited

inductive MicroOp where
  | effect (e : Effect)
  | label (l : Label)
  | goto (target : Label)
  /-- Goes to the target if the condition is zero, or if it is not zero. -/
  | branch (onZero : Bool) (condition : Value) (target : Label)
  | exit (e : Exit)
  deriving DecidableEq, Repr, Inhabited

namespace MicroOp

/-- Control never continues past the operation. -/
def endsFlow : MicroOp → Bool
  | goto _ | exit _ => true
  | _ => false

/-- The kinds of operation, by which code generation can be customized. -/
inductive Kind where
  | copy | unary | binary | addWithCarry | compare | shift | bitTest | updateZeroNegative
  | label | jump | jumpIfZero | jumpIfNotZero | pushStackValue | popStackValue | callFunction
  | jumpToAddress | jumpIndirect | returnFromSubroutine | returnFromInterrupt
  | softwareInterrupt | hookPoint
  deriving DecidableEq, Repr, Inhabited

namespace Kind

def all : List Kind :=
  [copy, unary, binary, addWithCarry, compare, shift, bitTest, updateZeroNegative, label, jump,
   jumpIfZero, jumpIfNotZero, pushStackValue, popStackValue, callFunction, jumpToAddress,
   jumpIndirect, returnFromSubroutine, returnFromInterrupt, softwareInterrupt, hookPoint]

theorem all_ctorIdx (k : Kind) : all[k.ctorIdx]? = some k := by cases k <;> rfl

def name : Kind → String
  | copy => "Copy"
  | unary => "Unary"
  | binary => "Binary"
  | addWithCarry => "AddWithCarry"
  | compare => "Compare"
  | shift => "Shift"
  | bitTest => "BitTest"
  | updateZeroNegative => "UpdateZeroNegative"
  | label => "Label"
  | jump => "Jump"
  | jumpIfZero => "JumpIfZero"
  | jumpIfNotZero => "JumpIfNotZero"
  | pushStackValue => "PushStackValue"
  | popStackValue => "PopStackValue"
  | callFunction => "CallFunction"
  | jumpToAddress => "JumpToAddress"
  | jumpIndirect => "JumpIndirect"
  | returnFromSubroutine => "ReturnFromSubroutine"
  | returnFromInterrupt => "ReturnFromInterrupt"
  | softwareInterrupt => "SoftwareInterrupt"
  | hookPoint => "HookPoint"

def ofName? (s : String) : Option Kind := all.find? (·.name == s)

end Kind

def kind : MicroOp → Kind
  | effect (.copy ..) => .copy
  | effect (.complement ..) => .unary
  | effect (.binary ..) => .binary
  | effect (.addWithCarry _) => .addWithCarry
  | effect (.compare ..) => .compare
  | effect (.shift ..) => .shift
  | effect (.bitTest _) => .bitTest
  | effect (.setZeroNegative _) => .updateZeroNegative
  | effect (.push _) => .pushStackValue
  | effect (.pop _) => .popStackValue
  | effect (.hook _) => .hookPoint
  | label _ => .label
  | goto _ => .jump
  | branch true .. => .jumpIfZero
  | branch false .. => .jumpIfNotZero
  | exit (.call ..) => .callFunction
  | exit (.jump _) => .jumpToAddress
  | exit (.jumpIndirect _) => .jumpIndirect
  | exit .returnFromSubroutine => .returnFromSubroutine
  | exit .returnFromInterrupt => .returnFromInterrupt
  | exit (.softwareInterrupt _) => .softwareInterrupt

end MicroOp
end NesRoutine

import NesRoutine.Artifact.Wire
import NesRoutine.Lowering

/-! The binary form of lowered instructions. The alternatives of a choice are
numbered in the order of their declaration. -/
namespace NesRoutine.Artifact
open Decoder

def encodeRegister (r : Register) : List UInt8 := encodeVariant r.ctorIdx
def decodeRegister : Decoder Register := oneOf Register.all

def encodeFlag (f : Flag) : List UInt8 := encodeVariant f.ctorIdx
def decodeFlag : Decoder Flag := oneOf Flag.all

def encodeValue : Value → List UInt8
  | .constant v => encodeVariant 0 ++ encodeU8 v
  | .register r => encodeVariant 1 ++ encodeRegister r
  | .flag f => encodeVariant 2 ++ encodeFlag f
  | .status => encodeVariant 3
  | .memory base index zeroPage =>
    encodeVariant 4 ++ encodeU16 base ++ encodeOption encodeRegister index ++ encodeBool zeroPage
  | .indirect pointer index preIndexed =>
    encodeVariant 5 ++ encodeU8 pointer ++ encodeOption encodeRegister index ++
      encodeBool preIndexed
  | .scratch slot => encodeVariant 6 ++ encodeU8 slot

def decodeValue : Decoder Value := do
  match ← variant 7 with
  | 0 => return .constant (← u8)
  | 1 => return .register (← decodeRegister)
  | 2 => return .flag (← decodeFlag)
  | 3 => return .status
  | 4 => return .memory (← u16) (← option decodeRegister) (← bool)
  | 5 => return .indirect (← u8) (← option decodeRegister) (← bool)
  | _ => return .scratch (← u8)

def encodeLabel : Label → List UInt8
  | .instruction address => encodeVariant 0 ++ encodeU16 address
  | .inner address n => encodeVariant 1 ++ encodeU16 address ++ encodeU8 n

def decodeLabel : Decoder Label := do
  match ← variant 2 with
  | 0 => return .instruction (← u16)
  | _ => return .inner (← u16) (← u8)

/-- The fields of a micro-operation, after the number of its kind. The operator
of a complement is the only one of its class. -/
def encodeFields : MicroOp → List UInt8
  | .effect (.copy source destination) => encodeValue source ++ encodeValue destination
  | .effect (.complement source destination) =>
    encodeVariant 0 ++ encodeValue source ++ encodeValue destination
  | .effect (.binary op left right destination) =>
    encodeVariant op.ctorIdx ++ encodeValue left ++ encodeValue right ++ encodeValue destination
  | .effect (.addWithCarry operand) => encodeValue operand
  | .effect (.compare left right) => encodeValue left ++ encodeValue right
  | .effect (.shift kind target) => encodeVariant kind.ctorIdx ++ encodeValue target
  | .effect (.bitTest operand) => encodeValue operand
  | .effect (.setZeroNegative value) => encodeValue value
  | .effect (.push value) => encodeValue value
  | .effect (.pop destination) => encodeValue destination
  | .effect (.hook tag) => encodeU32 tag
  | .label l => encodeLabel l
  | .goto target => encodeLabel target
  | .branch _ condition target => encodeValue condition ++ encodeLabel target
  | .exit (.call target returnAddress) => encodeU16 target ++ encodeU16 returnAddress
  | .exit (.jump address) => encodeU16 address
  | .exit (.jumpIndirect pointer) => encodeU16 pointer
  | .exit .returnFromSubroutine => []
  | .exit .returnFromInterrupt => []
  | .exit (.softwareInterrupt address) => encodeU16 address

def encodeMicroOp (m : MicroOp) : List UInt8 := encodeVariant m.kind.ctorIdx ++ encodeFields m

def decodeFields : MicroOp.Kind → Decoder MicroOp
  | .copy => return .effect (.copy (← decodeValue) (← decodeValue))
  | .unary => do
    let _ ← variant 1
    return .effect (.complement (← decodeValue) (← decodeValue))
  | .binary => do
    let op ← oneOf BinaryOp.all
    return .effect (.binary op (← decodeValue) (← decodeValue) (← decodeValue))
  | .addWithCarry => return .effect (.addWithCarry (← decodeValue))
  | .compare => return .effect (.compare (← decodeValue) (← decodeValue))
  | .shift => do
    let kind ← oneOf ShiftKind.all
    return .effect (.shift kind (← decodeValue))
  | .bitTest => return .effect (.bitTest (← decodeValue))
  | .updateZeroNegative => return .effect (.setZeroNegative (← decodeValue))
  | .label => return .label (← decodeLabel)
  | .jump => return .goto (← decodeLabel)
  | .jumpIfZero => return .branch true (← decodeValue) (← decodeLabel)
  | .jumpIfNotZero => return .branch false (← decodeValue) (← decodeLabel)
  | .pushStackValue => return .effect (.push (← decodeValue))
  | .popStackValue => return .effect (.pop (← decodeValue))
  | .callFunction => return .exit (.call (← u16) (← u16))
  | .jumpToAddress => return .exit (.jump (← u16))
  | .jumpIndirect => return .exit (.jumpIndirect (← u16))
  | .returnFromSubroutine => return .exit .returnFromSubroutine
  | .returnFromInterrupt => return .exit .returnFromInterrupt
  | .softwareInterrupt => return .exit (.softwareInterrupt (← u16))
  | .hookPoint => return .effect (.hook (← u32))

def decodeMicroOp : Decoder MicroOp := do decodeFields (← oneOf MicroOp.Kind.all)

def encodeInstruction (i : Instruction) : List UInt8 :=
  encodeU16 i.address ++ encodeU8 i.opcode ++ encodeVariant i.mnemonic.ctorIdx ++
    encodeVariant i.mode.ctorIdx ++ encodeOption encodeU8 i.operand1 ++
    encodeOption encodeU8 i.operand2 ++ encodeOption encodeU16 i.target ++
    encodeBool i.isBranch ++ encodeU8 i.cycles

def decodeInstruction : Decoder Instruction := do
  let address ← u16
  let opcode ← u8
  let mnemonic ← oneOf Mnemonic.all
  let mode ← oneOf AddressingMode.all
  let operand1 ← option u8
  let operand2 ← option u8
  let target ← option u16
  let isBranch ← bool
  let cycles ← u8
  return { address, opcode, mnemonic, mode, operand1, operand2, target, isBranch, cycles }

def encodeLowered (x : Lowered) : List UInt8 :=
  encodeInstruction x.instruction ++ encodeList encodeMicroOp x.body

def decodeLowered : Decoder Lowered := do
  let instruction ← decodeInstruction
  let body ← list decodeMicroOp
  return { instruction, body }

end NesRoutine.Artifact

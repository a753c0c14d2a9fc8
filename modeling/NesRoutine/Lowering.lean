import NesRoutine.MicroOp
import NesRoutine.Routine

/-! Lowering instructions to micro-operations. An instruction that reads,
changes and writes memory works in a scratch byte, so that its operand is read
once. -/
namespace NesRoutine

/-- The scratch byte that lowered instructions work in. -/
def Value.work : Value := .scratch 0

namespace Instruction

/-- The value that the addressing mode names. -/
def operand (i : Instruction) : Value :=
  let zeroPage (index : Option Register) := Value.memory i.operandByte.toUInt16 index true
  let absolute (index : Option Register) := Value.memory i.operandWord index false
  match i.mode with
  | .accumulator | .implied => .a
  | .immediate | .relative => .constant i.operandByte
  | .zeroPage => zeroPage none
  | .zeroPageX => zeroPage (some .x)
  | .zeroPageY => zeroPage (some .y)
  | .absolute | .indirect => absolute none
  | .absoluteX => absolute (some .x)
  | .absoluteY => absolute (some .y)
  | .indexedIndirect => .indirect i.operandByte (some .x) true
  | .indirectIndexed => .indirect i.operandByte (some .y) false

/-- A bitwise operation on the accumulator. -/
def lowerLogical (op : BinaryOp) (operand : Value) : List Effect :=
  [.binary op .a operand .a, .setZeroNegative .a]

def lowerShift (i : Instruction) (kind : ShiftKind) : List Effect :=
  if i.mode = .accumulator then
    [.shift kind .a]
  else
    [.copy i.operand .work, .shift kind .work, .copy .work i.operand]

def lowerMemoryStep (op : BinaryOp) (operand : Value) : List Effect :=
  [.binary op operand (.constant 1) .work, .copy .work operand, .setZeroNegative .work]

def lowerRegisterStep (op : BinaryOp) (register : Value) : List Effect :=
  [.binary op register (.constant 1) register, .setZeroNegative register]

def lowerLoad (register source : Value) : List Effect :=
  [.copy source register, .setZeroNegative register]

def lowerStore (register destination : Value) : List Effect := [.copy register destination]

def lowerFlag (flag : Flag) (on : Bool) : List Effect :=
  [.copy (.constant (if on then 1 else 0)) (.flag flag)]

/-- A branch to a known target stays in the unit; any other steps over a jump
out of it. -/
def lowerBranch (i : Instruction) (targets : Std.TreeSet UInt16) (flag : Flag) (onZero : Bool) :
    List MicroOp :=
  let target := i.target.getD i.next
  if targets.contains target then
    [.branch onZero (.flag flag) (.instruction target)]
  else
    let past := Label.inner i.address 0
    [.branch (!onZero) (.flag flag) past, .exit (.jump target), .label past]

def lowerJump (i : Instruction) (targets : Std.TreeSet UInt16) : MicroOp :=
  if i.mode = .indirect then .exit (.jumpIndirect i.operandWord)
  else if targets.contains i.operandWord then .goto (.instruction i.operandWord)
  else .exit (.jump i.operandWord)

/-- What the instruction does, without the label in front of it. -/
def lowerBody (i : Instruction) (targets : Std.TreeSet UInt16) : List MicroOp :=
  let effects (es : List Effect) := es.map MicroOp.effect
  match i.mnemonic with
  | .adc => effects [.addWithCarry i.operand]
  | .sbc => effects [.complement i.operand .work, .addWithCarry .work]
  | .and => effects (lowerLogical .and i.operand)
  | .ora => effects (lowerLogical .or i.operand)
  | .eor => effects (lowerLogical .xor i.operand)
  | .asl => effects (i.lowerShift .shiftLeft)
  | .lsr => effects (i.lowerShift .shiftRight)
  | .rol => effects (i.lowerShift .rotateLeft)
  | .ror => effects (i.lowerShift .rotateRight)
  | .bit => effects [.bitTest i.operand]
  | .bcc => i.lowerBranch targets .carry true
  | .bcs => i.lowerBranch targets .carry false
  | .bne => i.lowerBranch targets .zero true
  | .beq => i.lowerBranch targets .zero false
  | .bpl => i.lowerBranch targets .negative true
  | .bmi => i.lowerBranch targets .negative false
  | .bvc => i.lowerBranch targets .overflow true
  | .bvs => i.lowerBranch targets .overflow false
  | .clc => effects (lowerFlag .carry false)
  | .cld => effects (lowerFlag .decimal false)
  | .cli => effects (lowerFlag .interruptDisable false)
  | .clv => effects (lowerFlag .overflow false)
  | .sec => effects (lowerFlag .carry true)
  | .sed => effects (lowerFlag .decimal true)
  | .sei => effects (lowerFlag .interruptDisable true)
  | .cmp => effects [.compare .a i.operand]
  | .cpx => effects [.compare .x i.operand]
  | .cpy => effects [.compare .y i.operand]
  | .inc => effects (lowerMemoryStep .add i.operand)
  | .dec => effects (lowerMemoryStep .subtract i.operand)
  | .inx => effects (lowerRegisterStep .add .x)
  | .iny => effects (lowerRegisterStep .add .y)
  | .dex => effects (lowerRegisterStep .subtract .x)
  | .dey => effects (lowerRegisterStep .subtract .y)
  | .jmp => [i.lowerJump targets]
  | .jsr => [.exit (.call i.operandWord (i.address + 3))]
  | .rts => [.exit .returnFromSubroutine]
  | .rti => [.exit .returnFromInterrupt]
  | .brk => [.exit (.softwareInterrupt i.address)]
  | .lda => effects (lowerLoad .a i.operand)
  | .ldx => effects (lowerLoad .x i.operand)
  | .ldy => effects (lowerLoad .y i.operand)
  | .sta => effects (lowerStore .a i.operand)
  | .stx => effects (lowerStore .x i.operand)
  | .sty => effects (lowerStore .y i.operand)
  | .tax => effects (lowerLoad .x .a)
  | .tay => effects (lowerLoad .y .a)
  | .txa => effects (lowerLoad .a .x)
  | .tya => effects (lowerLoad .a .y)
  | .tsx => effects (lowerLoad .x .sp)
  | .txs => effects (lowerStore .x .sp)
  | .pha => effects [.push .a]
  | .php => effects [.binary .or .status (.constant 0x30) .work, .push .work]
  | .pla => effects [.pop .a, .setZeroNegative .a]
  | .plp =>
    effects [.pop .work, .binary .and .work (.constant 0xEF) .work,
      .binary .or .work (.constant 0x20) .status]
  | .nop => []

/-- A label stands in front of every instruction that is a target. -/
def lower (i : Instruction) (targets : Std.TreeSet UInt16) : List MicroOp :=
  (if targets.contains i.address then [.label (.instruction i.address)] else []) ++
    i.lowerBody targets

end Instruction

/-- An instruction with the micro-operations that stand for it. -/
structure Lowered where
  instruction : Instruction
  body : List MicroOp
  deriving DecidableEq, Repr, Inhabited

/-- The routine's instructions from its entry on, each lowered. -/
def Routine.lower (r : Routine) : List Lowered :=
  r.ordered.map fun i => { instruction := i, body := i.lower r.targets }

end NesRoutine

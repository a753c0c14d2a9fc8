import NesRoutine.MicroOp

/-! How micro-operations are written in listings and messages. -/
namespace NesRoutine

def Value.text : Value → String
  | constant v => s!"#${Hex.byte v}"
  | register r => r.name
  | flag f => f.name
  | status => "P"
  | memory base index zeroPage =>
    let width := if zeroPage then 2 else 4
    let suffix := match index with
      | some r => "," ++ r.name
      | none => ""
    s!"${Hex.upper width base.toNat}{suffix}"
  | indirect pointer (some r) true => s!"(${Hex.byte pointer},{r.name})"
  | indirect pointer (some r) false => s!"(${Hex.byte pointer}),{r.name}"
  | indirect pointer none _ => s!"(${Hex.byte pointer})"
  | scratch slot => s!"var{slot.toNat}"

def BinaryOp.name : BinaryOp → String
  | and => "And"
  | or => "Or"
  | xor => "Xor"
  | add => "Add"
  | subtract => "Subtract"
  | equals => "Equals"
  | notEquals => "NotEquals"

def ShiftKind.name : ShiftKind → String
  | shiftLeft => "ShiftLeft"
  | shiftRight => "ShiftRight"
  | rotateLeft => "RotateLeft"
  | rotateRight => "RotateRight"

def Label.text : Label → String
  | instruction address => s!"L_{Hex.word address}"
  | inner address n => s!"L_{Hex.word address}_{n.toNat}"

def Effect.text : Effect → String
  | copy source destination => s!"{destination.text} = {source.text}"
  | complement source destination => s!"{destination.text} = Not {source.text}"
  | binary op left right destination =>
    s!"{destination.text} = {left.text} {op.name} {right.text}"
  | addWithCarry operand => s!"adc {operand.text}"
  | compare left right => s!"cmp {left.text}, {right.text}"
  | shift kind target => s!"{kind.name} {target.text}"
  | bitTest operand => s!"bit {operand.text}"
  | setZeroNegative value => s!"zn {value.text}"
  | push value => s!"push {value.text}"
  | pop destination => s!"pop {destination.text}"
  | hook tag => s!"hook {tag.toNat}"

def Exit.text : Exit → String
  | call target returnAddress => s!"call {Hex.address target} ret {Hex.address returnAddress}"
  | jump address => s!"exit {Hex.address address}"
  | jumpIndirect pointer => s!"exit ({Hex.address pointer})"
  | returnFromSubroutine => "rts"
  | returnFromInterrupt => "rti"
  | softwareInterrupt address => s!"brk {Hex.address address}"

def MicroOp.text : MicroOp → String
  | effect e => e.text
  | label l => s!"{l.text}:"
  | goto target => s!"goto {target.text}"
  | branch true condition target => s!"if {condition.text} == 0 goto {target.text}"
  | branch false condition target => s!"if {condition.text} != 0 goto {target.text}"
  | exit e => e.text

end NesRoutine

import NesRoutine.Opcode
import NesRoutine.Text.Hex
import NesRoutine.Word

/-! Decoding one instruction from the mapped code regions. -/
namespace NesRoutine

/-- Bytes known to hold code, mapped at `base`. -/
structure CodeRegion where
  base : UInt16
  bytes : Array UInt8
  deriving DecidableEq, Repr, Inhabited

/-- The region covers `[base, base + size)`, where the end is a 32-bit number; it does
not wrap past `$FFFF`. -/
def CodeRegion.contains (r : CodeRegion) (address : UInt16) : Bool :=
  r.base ≤ address && address.toUInt32 < r.base.toUInt32 + UInt32.ofNat r.bytes.size

namespace CodeRegion

variable {r : CodeRegion} {a : UInt16}

theorem contains_iff :
    r.contains a = true ↔ r.base.toNat ≤ a.toNat ∧
      a.toNat < (r.base.toNat + r.bytes.size) % 0x100000000 := by
  rw [contains, Bool.and_eq_true, decide_eq_true_eq, decide_eq_true_eq, UInt16.le_iff_toNat_le,
    UInt32.lt_iff_toNat_lt, UInt32.toNat_add, UInt32.toNat_ofNat', UInt16.toNat_toUInt32,
    UInt16.toNat_toUInt32, Nat.add_mod_mod]

/-- The end of a region may have wrapped, but never to beyond its last byte. -/
theorem of_contains (covered : r.contains a = true) :
    r.base.toNat ≤ a.toNat ∧ a.toNat < r.base.toNat + r.bytes.size := by
  obtain ⟨above, below⟩ := contains_iff.mp covered
  exact ⟨above, Nat.lt_of_lt_of_le below (Nat.mod_le _ _)⟩

end CodeRegion

structure Instruction where
  address : UInt16
  opcode : UInt8
  mnemonic : Mnemonic
  mode : AddressingMode
  operand1 : Option UInt8
  operand2 : Option UInt8
  /-- Where a branch or jump leads. For `JMP ($nnnn)` this is the pointer cell. -/
  target : Option UInt16
  isBranch : Bool
  cycles : UInt8
  deriving DecidableEq, Repr, Inhabited

namespace Instruction

def size (i : Instruction) : Nat := 1 + i.operand1.toList.length + i.operand2.toList.length

/-- Address of the instruction that follows in memory. -/
def next (i : Instruction) : UInt16 := i.address + UInt16.ofNat i.size

def operandByte (i : Instruction) : UInt8 := i.operand1.getD 0

def operandWord (i : Instruction) : UInt16 := word (i.operand1.getD 0) (i.operand2.getD 0)

/-- Control does not reach the following instruction within the routine. -/
def endsPath (i : Instruction) : Bool :=
  match i.mnemonic with
  | .rts | .rti | .brk | .jsr => true
  | _ => i.mode == .indirect

/-- The addresses to follow from an instruction: its target, then the next one. -/
def successors (i : Instruction) : List UInt16 :=
  i.target.toList ++ if i.endsPath then [] else [i.next]

end Instruction

inductive DecodeError where
  | unmapped (address : UInt16)
  | unknownOpcode (address : UInt16) (opcode : UInt8)
  | truncated (address : UInt16) (mnemonic : Mnemonic) (required available : Nat)
  deriving DecidableEq, Repr, Inhabited

def DecodeError.message : DecodeError → String
  | unmapped a => s!"address {Hex.address a} is not inside any code region"
  | unknownOpcode a b => s!"unknown opcode ${Hex.byte b} at {Hex.address a}"
  | truncated a m required available =>
    s!"{m.name} at {Hex.address a} needs {required} bytes but only {available} remain"

/-- Where control goes when the branch or jump is taken. -/
def Opcode.target (o : Opcode) (address : UInt16) (operand1 operand2 : Option UInt8) :
    Option UInt16 :=
  if o.isBranch then
    some (address + UInt16.ofNat o.size + signExtend (operand1.getD 0))
  else if o.isJump then
    some (word (operand1.getD 0) (operand2.getD 0))
  else
    none

/-- Decodes the instruction at `address` in the first region that covers it. -/
def decodeAt (regions : List CodeRegion) (address : UInt16) : Except DecodeError Instruction :=
  match regions.find? (·.contains address) with
  | none => .error (.unmapped address)
  | some region =>
    let offset := address.toNat - region.base.toNat
    let byte := region.bytes.getD offset 0
    match Opcode.lookup byte with
    | none => .error (.unknownOpcode address byte)
    | some op =>
      let available := region.bytes.size - offset
      if available < op.size then
        .error (.truncated address op.mnemonic op.size available)
      else
        let length := op.mode.operandLength
        let operand1 := if 1 ≤ length then some (region.bytes.getD (offset + 1) 0) else none
        let operand2 := if 2 ≤ length then some (region.bytes.getD (offset + 2) 0) else none
        .ok {
          address
          opcode := byte
          mnemonic := op.mnemonic
          mode := op.mode
          operand1
          operand2
          target := op.target address operand1 operand2
          isBranch := op.isBranch
          cycles := op.cycles }

end NesRoutine

import Mathlib.Data.Nat.Bitwise
import NesRoutine.CodeUnit.Execution
import NesRoutine.Proofs.Interpreter

/-! The operations of the hardware and the processor's manual. The hardware tests
and combines bits where the manual speaks of numbers and signs; each operation
is the action of the interpreter that it stands for. -/
namespace NesRoutine

open Interpreter Interpreter.Machine

/-- A byte and a power of two tell one bit of the byte. -/
theorem mask_bit (v mask : UInt8) (power : mask.toNat = 2 ^ i) :
    (v &&& mask != 0) = v.toNat.testBit i := by
  have both : (v &&& mask).toNat = (v.toNat.testBit i).toNat * 2 ^ i := by
    rw [UInt8.toNat_and, power, Nat.and_two_pow]
  rw [bne, Bool.eq_iff_iff, Bool.not_eq_true', beq_eq_false_iff_ne, ne_eq, ← UInt8.toNat_inj, both]
  cases v.toNat.testBit i <;> simp

theorem sign_bit (v : UInt8) : (v &&& 0x80 != 0) = decide (0x80 ≤ v) := by
  have := v.toNat_lt
  rw [mask_bit v 0x80 (i := 7) rfl, Nat.testBit_eq_decide_div_mod_eq, decide_eq_decide,
    UInt8.le_iff_toNat_le]
  simp only [UInt8.reduceToNat]
  omega

theorem sign_msb (v : UInt8) : (v &&& 0x80 != 0) = v.toBitVec.msb := by
  rw [sign_bit, BitVec.msb_eq_decide, decide_eq_decide, UInt8.le_iff_toNat_le]
  rfl

theorem low_bit (v : UInt8) : (v &&& 0x01 != 0) = decide (v.toNat % 2 = 1) := by
  rw [mask_bit v 0x01 (i := 0) rfl, Nat.testBit_zero]

theorem signed_complement (m : UInt8) : signed (~~~m) = -1 - signed m := by
  have := m.toNat_lt
  have complement : (~~~m).toNat = 255 - m.toNat := by simp
  simp only [signed, UInt8.lt_iff_toNat_lt, complement, UInt8.reduceToNat]
  omega

theorem overflow_bit (a m : UInt8) (carry : Bool) :
    (~~~(a ^^^ m) &&& (a ^^^ UInt8.ofNat (a.toNat + m.toNat + carry.toNat)) &&& 0x80 != 0) =
      overflows (signed a + signed m + carry.toNat) := by
  rw [sign_msb]
  simp only [UInt8.toBitVec_and, UInt8.toBitVec_not, UInt8.toBitVec_xor, BitVec.msb_and,
    BitVec.msb_xor, BitVec.msb_not]
  simp only [BitVec.msb_eq_decide, overflows, signed, UInt8.lt_iff_toNat_lt,
    UInt8.toNat_toBitVec, UInt8.toNat_ofNat']
  have := a.toNat_lt
  have := m.toNat_lt
  have := carry.toNat_lt
  generalize carry.toNat = c at *
  rw [Bool.eq_iff_iff]
  by_cases a.toNat < 128 <;> by_cases m.toNat < 128 <;> simp [*] <;> omega

theorem stackAddress_eq (sp : UInt8) : Cpu.stackAddress sp = 0x0100 + sp.toUInt16 := by
  have := sp.toNat_lt
  have joined := Nat.two_pow_add_eq_or_of_lt (i := 8) (b := sp.toNat) (by omega) 1
  simp only [Nat.reducePow, Nat.mul_one] at joined
  apply UInt16.toNat_inj.mp
  simp [Cpu.stackAddress, ← joined]
  omega

theorem rotateLeft_bits (v : UInt8) (carry : Bool) :
    (v <<< 1) ||| (if carry then 1 else 0) = UInt8.ofNat (2 * v.toNat + carry.toNat) := by
  have joined := Nat.two_pow_add_eq_or_of_lt (i := 1) (b := carry.toNat)
    carry.toNat_lt (v.toNat % 128)
  have shifted : (v <<< 1).toNat = 2 ^ 1 * (v.toNat % 128) := by
    simp [UInt8.toNat_shiftLeft, Nat.shiftLeft_eq]
    omega
  have bit : (if carry then 1 else 0 : UInt8).toNat = carry.toNat := by cases carry <;> rfl
  apply UInt8.toNat_inj.mp
  rw [UInt8.toNat_or, shifted, bit, ← joined, UInt8.toNat_ofNat']
  have := carry.toNat_lt
  omega

theorem rotateRight_bits (v : UInt8) (carry : Bool) :
    (v >>> 1) ||| (if carry then 0x80 else 0) =
      UInt8.ofNat (v.toNat / 2 + 0x80 * carry.toNat) := by
  have := v.toNat_lt
  have := carry.toNat_lt
  have joined := Nat.two_pow_add_eq_or_of_lt (i := 7) (b := v.toNat / 2) (by omega) carry.toNat
  have shifted : (v >>> 1).toNat = v.toNat / 2 := by
    simp [UInt8.toNat_shiftRight, Nat.shiftRight_eq_div_pow]
  have bit : (if carry then 0x80 else 0 : UInt8).toNat = 2 ^ 7 * carry.toNat := by
    cases carry <;> rfl
  apply UInt8.toNat_inj.mp
  rw [UInt8.toNat_or, Nat.or_comm, shifted, bit, ← joined, UInt8.toNat_ofNat']
  omega

theorem high_bits {n : Nat} (bound : n < 2 ^ 16) : n &&& 0xFF00 = 2 ^ 8 * (n / 2 ^ 8) := by
  have mask : 0xFF00 = 2 ^ 8 * (2 ^ 8 - 1) := rfl
  rw [mask]
  apply Nat.eq_of_testBit_eq
  intro i
  simp only [Nat.testBit_and, Nat.testBit_two_pow_mul, Nat.testBit_two_pow_sub_one,
    Nat.testBit_div_two_pow]
  by_cases low : i < 8
  · simp [Nat.not_le.mpr low]
  · have shifted : i - 8 + 8 = i := by omega
    by_cases high : i < 16
    · simp [shifted, Nat.le_of_not_lt low]
      omega
    · have : n < 2 ^ i := Nat.lt_of_lt_of_le bound (Nat.pow_le_pow_right (by decide) (by omega))
      simp [Nat.testBit_lt_two_pow, *]

/-- The address after `p` on the page of `p`. -/
theorem page_bits (p : UInt16) :
    (p &&& 0xFF00) ||| ((p + 1) &&& 0x00FF) = word (lowByte p + 1) (highByte p) := by
  apply UInt16.toNat_inj.mp
  have bound := p.toNat_lt
  have low : (p.toNat + 1) % 65536 &&& 0x00FF = (p.toNat + 1) % 256 := by
    have := Nat.and_two_pow_sub_one_eq_mod ((p.toNat + 1) % 65536) 8
    simp only [Nat.reducePow, Nat.add_one_sub_one] at this
    omega
  have joined := Nat.two_pow_add_eq_or_of_lt (i := 8) (b := (p.toNat + 1) % 256) (by omega)
    (p.toNat / 256)
  simp [lowByte, highByte, Nat.shiftRight_eq_div_pow, high_bits bound, low]
  simp only [Nat.reducePow] at joined
  omega

theorem toNat_signExtend (b : UInt8) : ((signExtend b).toNat : Int) = signed b % 0x10000 := by
  have := b.toNat_lt
  have joined := Nat.two_pow_add_eq_or_of_lt (i := 8) (b := b.toNat) (by omega) 0xFF
  simp only [Nat.reducePow, Nat.reduceMul] at joined
  simp only [signExtend, signed]
  split
  · simp
    omega
  · simp [← joined]
    omega

theorem displacement (pc : UInt16) (b : UInt8) :
    UInt16.ofNat (((pc.toNat : Int) + signed b) % 0x10000).toNat = pc + signExtend b := by
  have extended := toNat_signExtend b
  apply UInt16.toNat_inj.mp
  simp only [UInt16.toNat_ofNat', UInt16.toNat_add]
  omega

@[simp] theorem Hardware.register_setRegister (h : Hardware) (r : Register) (v : UInt8) :
    (h.setRegister r v).register r = v := by
  cases r <;> rfl

namespace Interpreter

theorem describe_eq (v : UInt8) (h : Hardware) : describe v h = ((), h.setZeroNegative v) := by
  have zero : decide (v = 0) = (v == 0) := rfl
  simp [describe, zero, ← sign_bit, Hardware.setZeroNegative]

theorem load_eq (r : Register) (v : UInt8) :
    (do setRegister r v; describe (← register r)) = load r v := by
  funext h
  simp [load]

theorem add_eq (m : UInt8) (h : Hardware) : add m h = ((), h.addWithCarry m) := by
  have carry : (if h.flag .carry then 1 else 0) = (h.flag .carry).toNat := by
    cases h.flag .carry <;> rfl
  have sum (a : UInt8) (c : Nat) :
      a + m + UInt8.ofNat c = UInt8.ofNat (a.toNat + m.toNat + c) := by
    simp
  simp only [add, load, sum, bind_apply, register_apply, flag_apply, setFlag_apply,
    setRegister_apply, describe_eq, Hardware.addWithCarry, carry, overflow_bit]
  rfl

/-- Adding the complement subtracts, and the carry is what was not borrowed. -/
theorem subtract_eq (m : UInt8) : subtract m = add (~~~m) := by
  have := m.toNat_lt
  have complement : (~~~m).toNat = 255 - m.toNat := by simp
  have result (a : UInt8) (c : Bool) :
      a - m - UInt8.ofNat (!c).toNat = a + ~~~m + UInt8.ofNat c.toNat := by
    apply UInt8.toNat_inj.mp
    have := a.toNat_lt
    cases c <;> simp [UInt8.toNat_sub, complement] <;> omega
  have carry (a : UInt8) (c : Bool) : decide (m.toNat + (!c).toNat ≤ a.toNat) =
      decide (0xFF < a.toNat + (~~~m).toNat + c.toNat) := by
    cases c <;> simp [complement] <;> omega
  have overflow (a : UInt8) (c : Bool) :
      signed a - signed m - (!c).toNat = signed a + signed (~~~m) + c.toNat := by
    rw [signed_complement]
    cases c <;> simp <;> omega
  simp only [subtract, add, result, carry, overflow]

theorem compare_eq (value m : UInt8) (h : Hardware) :
    compare value m h = ((), h.compare value m) := by
  simp only [compare, bind_apply, setFlag_apply, describe_eq, Hardware.compare]

theorem bitTest_eq (m : UInt8) (h : Hardware) : bitTest m h = ((), h.bitTest m) := by
  have negative := mask_bit m 0x80 (i := 7) rfl
  have overflow := mask_bit m 0x40 (i := 6) rfl
  simp only [bitTest, bind_apply, register_apply, setFlag_apply, ← negative, ← overflow,
    Hardware.bitTest]
  rfl

/-- What a shift of the hardware does to a byte and the flags. -/
def shift (kind : ShiftKind) (value : UInt8) : Machine UInt8 := do
  let result := kind.apply value (← flag .carry)
  modify fun h => (h.setFlag .carry (kind.carryOut value)).setZeroNegative result
  return result

theorem blind_shift (kind : ShiftKind) (value : UInt8) : Blind (shift kind value) :=
  fun _ _ => rfl

theorem shiftLeft_eq : shiftUp false = shift .shiftLeft := by
  funext v h
  have bits : UInt8.ofNat (2 * v.toNat + false.toNat) = v <<< 1 := by
    rw [← rotateLeft_bits]
    simp
  simp only [shiftUp, shift, ShiftKind.apply, ShiftKind.carryOut, bits, sign_bit, bind_apply,
    setFlag_apply, describe_eq, flag_apply, modify_apply]

theorem rotateLeft_eq : (fun m => do shiftUp (← flag .carry) m) = shift .rotateLeft := by
  funext v h
  simp only [shiftUp, shift, ShiftKind.apply, ShiftKind.carryOut, rotateLeft_bits, sign_bit,
    bind_apply, setFlag_apply, describe_eq, flag_apply, modify_apply]

theorem shiftRight_eq : shiftDown false = shift .shiftRight := by
  funext v h
  have bits : UInt8.ofNat (v.toNat / 2 + 0x80 * false.toNat) = v >>> 1 := by
    rw [← rotateRight_bits]
    simp
  simp only [shiftDown, shift, ShiftKind.apply, ShiftKind.carryOut, bits, low_bit, bind_apply,
    setFlag_apply, describe_eq, flag_apply, modify_apply]

theorem rotateRight_eq : (fun m => do shiftDown (← flag .carry) m) = shift .rotateRight := by
  funext v h
  simp only [shiftDown, shift, ShiftKind.apply, ShiftKind.carryOut, rotateRight_bits, low_bit,
    bind_apply, setFlag_apply, describe_eq, flag_apply, modify_apply]

theorem push_eq (v : UInt8) (h : Hardware) : push v h = ((), h.push v) := by
  simp only [push, bind_apply, register_apply, write_apply, setRegister_apply, ← stackAddress_eq]
  rfl

theorem pull_eq (h : Hardware) : pull h = h.pop := by
  simp only [pull, bind_apply, register_apply, setRegister_apply, read_apply, ← stackAddress_eq]
  rfl

theorem pushWord_eq (value : UInt16) (h : Hardware) :
    pushWord value h = ((), { h with
      cpu := (h.cpu.pushWord h.bus value).1
      bus := (h.cpu.pushWord h.bus value).2 }) := by
  simp only [pushWord, bind_apply, push_eq]
  rfl

theorem pullWord_eq (h : Hardware) :
    pullWord h = ((h.cpu.popWord h.bus).1, { h with
      cpu := (h.cpu.popWord h.bus).2.1
      bus := (h.cpu.popWord h.bus).2.2 }) := by
  simp only [pullWord, bind_apply, pull_eq]
  rfl

theorem pullStatus_eq (h : Hardware) :
    pullStatus h = ((), h.pop.2.setStatus (.ofPopped h.pop.1)) := by
  simp only [pullStatus, bind_apply, pull_eq, setStatus_apply]
  rfl

theorem call_eq (target : UInt16) (h : Hardware) : call target h = ((), h.call target) := by
  simp only [call, bind_apply, pc_apply, pushWord_eq, setPc_apply]
  rfl

theorem returnFromSubroutine_eq (h : Hardware) (pc : UInt16) :
    returnFromSubroutine (h.setPc pc) = ((), h.returnFromSubroutine) := by
  rw [returnFromSubroutine, blind_pullWord.setPc]
  simp only [bind_apply, pullWord_eq, setPc_apply]
  rfl

theorem returnFromInterrupt_eq (h : Hardware) (pc : UInt16) :
    returnFromInterrupt (h.setPc pc) = ((), h.returnFromInterrupt) := by
  have popped : Blind (do pullStatus; pullWord) := blind_pullStatus.bind fun _ => blind_pullWord
  have unmoved := popped.setPc id h pc
  simp only [id_eq, bind_assoc] at unmoved
  rw [returnFromInterrupt, unmoved]
  simp only [bind_apply, pullStatus_eq, pullWord_eq, setPc_apply]
  rfl

/-- The hardware starts with PC at the opcode, the interpreter one past it. -/
theorem softwareInterrupt_eq (address : UInt16) (h : Hardware) :
    softwareInterrupt (h.setPc (address + 1)) = ((), (h.setPc address).softwareInterrupt) := by
  have resume : (h.setPc address).pc + 2 = (h.setPc (address + 1)).pc + 1 :=
    (UInt16.add_assoc address 1 1).symm
  simp only [softwareInterrupt, bind_apply, pc_apply, pushWord_eq, status_apply, push_eq,
    setFlag_apply, read_apply, setPc_apply, Hardware.softwareInterrupt, resume]
  rfl

theorem jumpIndirect_eq (p : UInt16) (h : Hardware) (pc : UInt16) :
    jumpIndirect p (h.setPc pc) = ((), h.jumpIndirect p) := by
  simp only [jumpIndirect, bind_apply, read_apply, setPc_apply, Hardware.jumpIndirect, page_bits]
  rfl

end Interpreter
end NesRoutine

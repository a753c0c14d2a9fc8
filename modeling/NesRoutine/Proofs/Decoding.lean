import NesRoutine.Instruction

/-! What is known of an instruction because it was decoded: its mode is one that
its mnemonic has, and its operands, length and target follow from the two. -/
namespace NesRoutine

/-- The addressing modes that the documented opcodes give a mnemonic. -/
def Mnemonic.modes : Mnemonic → List AddressingMode
  | adc | and | cmp | eor | lda | ora | sbc =>
    [.immediate, .zeroPage, .zeroPageX, .absolute, .absoluteX, .absoluteY, .indexedIndirect,
     .indirectIndexed]
  | sta =>
    [.zeroPage, .zeroPageX, .absolute, .absoluteX, .absoluteY, .indexedIndirect, .indirectIndexed]
  | asl | lsr | rol | ror => [.accumulator, .zeroPage, .zeroPageX, .absolute, .absoluteX]
  | inc | dec => [.zeroPage, .zeroPageX, .absolute, .absoluteX]
  | bit => [.zeroPage, .absolute]
  | cpx | cpy => [.immediate, .zeroPage, .absolute]
  | ldx => [.immediate, .zeroPage, .zeroPageY, .absolute, .absoluteY]
  | ldy => [.immediate, .zeroPage, .zeroPageX, .absolute, .absoluteX]
  | stx => [.zeroPage, .zeroPageY, .absolute]
  | sty => [.zeroPage, .zeroPageX, .absolute]
  | bcc | bcs | beq | bmi | bne | bpl | bvc | bvs => [.relative]
  | jmp => [.absolute, .indirect]
  | jsr => [.absolute]
  | _ => [.implied]

theorem Opcode.lookup_mode {b : UInt8} {o : Opcode} (found : lookup b = some o) :
    o.mode ∈ o.mnemonic.modes := by
  have all : grid.toList.all (·.all fun o => o.mnemonic.modes.contains o.mode) = true := by
    decide +kernel
  have entry : grid[b.toNat]? = some (some o) := Option.join_eq_some_iff.mp found
  have member : some o ∈ grid.toList := Array.mem_toList_iff.mpr (Array.mem_of_getElem? entry)
  simpa using List.all_eq_true.mp all (some o) member

namespace Instruction

/-- The shape of a decoded instruction. -/
structure Documented (i : Instruction) : Prop where
  mode_mem : i.mode ∈ i.mnemonic.modes
  size_eq : i.size = 1 + i.mode.operandLength
  target_eq : i.target =
    if i.mode = .relative then some (i.next + signExtend i.operandByte)
    else if i.mnemonic = .jmp then some i.operandWord
    else none

end Instruction

theorem decodeAt_ok {regions : List CodeRegion} {a : UInt16} {i : Instruction}
    (decoded : decodeAt regions a = .ok i) :
    ∃ o, Opcode.lookup i.opcode = some o ∧ i.address = a ∧ i.mnemonic = o.mnemonic ∧
      i.mode = o.mode ∧ i.operand1.isSome = decide (1 ≤ o.mode.operandLength) ∧
      i.operand2.isSome = decide (2 ≤ o.mode.operandLength) ∧
      i.target = o.target a i.operand1 i.operand2 := by
  simp only [decodeAt] at decoded
  split at decoded
  · cases decoded
  · split at decoded
    · cases decoded
    · rename_i o found
      split at decoded
      · cases decoded
      · cases decoded
        refine ⟨o, found, rfl, rfl, rfl, ?_, ?_, rfl⟩
        · cases o.mode <;> rfl
        · cases o.mode <;> rfl

theorem decodeAt_address {regions : List CodeRegion} {a : UInt16} {i : Instruction}
    (decoded : decodeAt regions a = .ok i) : i.address = a := by
  obtain ⟨_, _, address, _⟩ := decodeAt_ok decoded
  exact address

theorem decodeAt_documented {regions : List CodeRegion} {a : UInt16} {i : Instruction}
    (decoded : decodeAt regions a = .ok i) : i.Documented := by
  obtain ⟨o, found, address, mnemonic, mode, first, second, target⟩ := decodeAt_ok decoded
  have size : i.size = 1 + i.mode.operandLength := by
    rw [mode, Instruction.size]
    have length {b : Option UInt8} : b.toList.length = b.isSome.toNat := by cases b <;> rfl
    rw [length, length, first, second]
    cases o.mode <;> rfl
  refine ⟨?_, size, ?_⟩
  · rw [mnemonic, mode]
    exact Opcode.lookup_mode found
  · simp only [target, Opcode.target, Opcode.isBranch, Opcode.isJump, mode, mnemonic, beq_iff_eq,
      Instruction.next, size, address, Opcode.size, Instruction.operandByte,
      Instruction.operandWord]

end NesRoutine

import NesRoutine.Proofs.Decoding
import NesRoutine.Proofs.Lowering.Effects

/-! A lowered instruction does what the instruction does. It is a list of effects,
or a single branch, jump or exit, and control leaves it as the manual says. -/
namespace NesRoutine.Instruction

open Interpreter Interpreter.Machine Effect

/-- The forms a lowered instruction can have, each with the action `m` that it
stands for and whether that action leaves the routine. -/
inductive Shape (i : Instruction) : Machine Unit → Bool → List MicroOp → Prop where
  | straight {es m} : Realize es m → Shape i m false (es.map .effect)
  | branch {m f onZero target} : i.target = some target →
      (∀ h : Hardware,
        m (h.setPc i.next) = ((), h.setPc (if h.flag f = !onZero then target else i.next))) →
      Shape i m false [.branch onZero (.flag f) (.instruction target)]
  | jump {m target} : i.target = some target →
      (∀ h : Hardware, m (h.setPc i.next) = ((), h.setPc target)) →
      Shape i m false [.goto (.instruction target)]
  | exit {m e} : (∀ h : Hardware, m (h.setPc i.next) = ((), e.perform h)) → Shape i m true [.exit e]

/-- Only an indirect jump has the indirect mode. -/
theorem Documented.leaves_eq {i : Instruction} (documented : i.Documented) :
    leaves i = i.endsPath := by
  have modes := documented.mode_mem
  simp only [leaves, endsPath]
  generalize i.mnemonic = mnemonic at *
  cases mnemonic <;> simp_all [Mnemonic.modes] <;> grind

variable {i : Instruction} {targets : Std.TreeSet UInt16}

theorem shape_branch (documented : i.Documented) (relative : i.mode = .relative)
    (known : ∀ t, i.target = some t → t ∈ targets) (f : Flag) (onZero : Bool) :
    i.Shape (Interpreter.branch i f !onZero) false (i.lowerBranch targets f onZero) := by
  have target : i.target = some (i.next + signExtend i.operandByte) := by
    rw [documented.target_eq, if_pos relative]
  have inside := Std.TreeSet.contains_iff_mem.mpr (known _ target)
  simp only [lowerBranch, target, Option.getD_some, inside, if_true]
  refine .branch target fun h => ?_
  have flag : (h.setPc i.next).flag f = h.flag f := rfl
  simp only [Interpreter.branch, bind_apply, flag_apply, flag]
  split
  · simp only [bind_apply, pc_apply, displacement]
    rfl
  · rfl

theorem shape_jump (documented : i.Documented) (jump : i.mnemonic = .jmp)
    (known : ∀ t, i.target = some t → t ∈ targets) :
    i.Shape (if i.mode = .indirect then jumpIndirect i.operandWord else Machine.setPc i.operandWord)
      (decide (i.mode = .indirect)) [i.lowerJump targets] := by
  by_cases indirect : i.mode = .indirect
  · simp only [lowerJump, indirect, if_true, decide_true]
    exact .exit fun h => jumpIndirect_eq _ h _
  · have relative : i.mode ≠ .relative := by
      intro mode
      have := documented.mode_mem
      simp [jump, mode, Mnemonic.modes] at this
    have target : i.target = some i.operandWord := by
      rw [documented.target_eq, if_neg relative, if_pos jump]
    have inside := Std.TreeSet.contains_iff_mem.mpr (known _ target)
    simp only [lowerJump, indirect, if_false, inside, if_true, decide_false]
    exact .jump target fun h => rfl

theorem shape_shift (kind : ShiftKind) {f : UInt8 → Machine UInt8}
    (same : f = Interpreter.shift kind) (mode : i.mode = .accumulator ∨ i.Direct) :
    i.Shape (update i f) false ((i.lowerShift kind).map .effect) := by
  subst same
  rcases mode with accumulator | direct
  · simp only [update, lowerShift, if_pos accumulator]
    exact .straight (realize_shiftAccumulator kind)
  · have memory : i.mode ≠ .accumulator := fun mode => by simp [Direct, mode] at direct
    rw [update_direct direct fun _ _ => rfl]
    simp only [lowerShift, if_neg memory]
    exact .straight (realize_shiftCell kind (reads_operand i) (writes_operand direct.inMemory))

theorem shape_memoryStep (op : BinaryOp) (direct : i.Direct) :
    i.Shape (update i fun m => countTo (op.apply m 1)) false
      ((lowerMemoryStep op i.operand).map .effect) := by
  rw [update_direct direct fun _ _ => rfl]
  simp only [countTo, bind_assoc, pure_bind, ← store_describe direct]
  exact .straight (realize_memoryStep op (reads_operand i) (writes_operand direct.inMemory))

theorem shape_lowerBody (documented : i.Documented)
    (known : ∀ t, i.target = some t → t ∈ targets) :
    i.Shape (execute i) (leaves i) (i.lowerBody targets) := by
  have modes := documented.mode_mem
  have branch (relative : i.mode ∈ [AddressingMode.relative]) :=
    shape_branch documented (List.mem_singleton.mp relative) known
  have jump (isJump : i.mnemonic = .jmp) := shape_jump documented isJump known
  have next : i.next = i.address + UInt16.ofNat (1 + i.mode.operandLength) := by
    rw [Instruction.next, documented.size_eq]
  simp only [execute, leaves, lowerBody]
  generalize i.mnemonic = mnemonic at *
  cases mnemonic with
  | adc => exact .straight (realize_add (reads_operand i))
  | sbc => exact .straight (realize_subtract (reads_operand i))
  | and => exact .straight (realize_logical .and (reads_operand i))
  | ora => exact .straight (realize_logical .or (reads_operand i))
  | eor => exact .straight (realize_logical .xor (reads_operand i))
  | asl => exact shape_shift _ shiftLeft_eq (List.mem_cons.mp modes)
  | lsr => exact shape_shift _ shiftRight_eq (List.mem_cons.mp modes)
  | rol => exact shape_shift _ rotateLeft_eq (List.mem_cons.mp modes)
  | ror => exact shape_shift _ rotateRight_eq (List.mem_cons.mp modes)
  | inc => exact shape_memoryStep .add modes
  | dec => exact shape_memoryStep .subtract modes
  | bit => exact .straight (realize_bitTest (reads_operand i))
  | bcc => exact branch modes .carry true
  | bcs => exact branch modes .carry false
  | bne => exact branch modes .zero true
  | beq => exact branch modes .zero false
  | bpl => exact branch modes .negative true
  | bmi => exact branch modes .negative false
  | bvc => exact branch modes .overflow true
  | bvs => exact branch modes .overflow false
  | clc => exact .straight (realize_flag .carry false)
  | cld => exact .straight (realize_flag .decimal false)
  | cli => exact .straight (realize_flag .interruptDisable false)
  | clv => exact .straight (realize_flag .overflow false)
  | sec => exact .straight (realize_flag .carry true)
  | sed => exact .straight (realize_flag .decimal true)
  | sei => exact .straight (realize_flag .interruptDisable true)
  | cmp => exact .straight (realize_compare (.register .a) (reads_operand i))
  | cpx => exact .straight (realize_compare (.register .x) (reads_operand i))
  | cpy => exact .straight (realize_compare (.register .y) (reads_operand i))
  | inx => exact .straight (realize_registerStep .add .x)
  | iny => exact .straight (realize_registerStep .add .y)
  | dex => exact .straight (realize_registerStep .subtract .x)
  | dey => exact .straight (realize_registerStep .subtract .y)
  | lda => exact .straight (realize_load .a (reads_operand i))
  | ldx => exact .straight (realize_load .x (reads_operand i))
  | ldy => exact .straight (realize_load .y (reads_operand i))
  | tax => exact .straight (realize_load .x (.register .a))
  | tay => exact .straight (realize_load .y (.register .a))
  | txa => exact .straight (realize_load .a (.register .x))
  | tya => exact .straight (realize_load .a (.register .y))
  | tsx => exact .straight (realize_load .x (.register .sp))
  | txs => exact .straight (realize_store (.register .x) (.register .sp))
  | sta =>
    have memory := inMemory_of_modes _ modes (by decide)
    exact .straight (realize_store (.register .a) (writes_operand memory))
  | stx =>
    have memory := inMemory_of_modes _ modes (by decide)
    exact .straight (realize_store (.register .x) (writes_operand memory))
  | sty =>
    have memory := inMemory_of_modes _ modes (by decide)
    exact .straight (realize_store (.register .y) (writes_operand memory))
  | pha => exact .straight (realize_push (.register .a))
  | php => exact .straight realize_pushStatus
  | pla => exact .straight realize_pull
  | plp => exact .straight realize_pullStatus
  | nop => exact .straight realize_nothing
  | jmp => exact jump rfl
  | jsr =>
    rw [List.mem_singleton.mp modes] at next
    exact .exit fun h => next ▸ call_eq _ _
  | rts => exact .exit fun h => returnFromSubroutine_eq h _
  | rti => exact .exit fun h => returnFromInterrupt_eq h _
  | brk =>
    rw [List.mem_singleton.mp modes] at next
    exact .exit fun h => next ▸ softwareInterrupt_eq _ _

end NesRoutine.Instruction

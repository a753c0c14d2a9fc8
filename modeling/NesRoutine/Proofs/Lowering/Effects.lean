import NesRoutine.Lowering
import NesRoutine.Proofs.Decoding
import NesRoutine.Proofs.Hardware
import NesRoutine.Proofs.Scratch

/-! What the lists of effects do that instructions are lowered to. Each family of
instructions has a list that realizes its action: the hardware ends up the same,
scratch bytes are written before they are read, and PC plays no part. -/
namespace NesRoutine

open Interpreter Interpreter.Machine Exec

/-- Reading the value is an action of the interpreter. -/
structure Value.Reads (v : Value) (m : Machine UInt8) : Prop where
  read : v.read = lift m
  slots : v.slots = []
  blind : m.Blind

/-- Writing the value is an action of the interpreter. -/
structure Value.Writes (v : Value) (put : UInt8 → Machine Unit) : Prop where
  write : ∀ x, v.write x = lift (put x)
  slots : v.slots = []
  writable : v.isWritable = true
  blind : ∀ x, (put x).Blind

namespace Value

theorem read_work : work.read = readScratch 0 := rfl

theorem write_work (x : UInt8) : work.write x = writeScratch 0 x := rfl

@[simp] theorem slots_work : work.slots = [0] := rfl

@[simp] theorem isWritable_work : work.isWritable = true := rfl

theorem read_register (r : Register) : (register r).read = lift (.register r) := rfl

theorem write_register (r : Register) (x : UInt8) :
    (register r).write x = lift (.setRegister r x) := rfl

@[simp] theorem slots_register (r : Register) : (register r).slots = [] := rfl

@[simp] theorem isWritable_register (r : Register) : (register r).isWritable = true := rfl

theorem read_status : status.read = lift .status := rfl

theorem write_status (x : UInt8) : status.write x = lift (.setStatus x) := rfl

@[simp] theorem slots_status : status.slots = [] := rfl

@[simp] theorem isWritable_status : status.isWritable = true := rfl

theorem read_constant (x : UInt8) : (constant x).read = pure x := rfl

@[simp] theorem slots_constant (x : UInt8) : (constant x).slots = [] := rfl

end Value

theorem Value.Reads.register (r : Register) : (Value.register r).Reads (.register r) :=
  ⟨rfl, rfl, blind_register r⟩

theorem Value.Writes.register (r : Register) : (Value.register r).Writes (.setRegister r) :=
  ⟨fun _ => rfl, rfl, rfl, blind_setRegister r⟩

namespace Instruction

/-- The operand is a cell of memory. -/
def InMemory (i : Instruction) : Prop :=
  i.mode ∉ [AddressingMode.accumulator, .implied, .immediate, .relative]

theorem inMemory_of_modes {i : Instruction} (m : Mnemonic) (modes : i.mode ∈ m.modes)
    (cells : ∀ mode ∈ m.modes, mode ∉
      [AddressingMode.accumulator, .implied, .immediate, .relative]) :
    i.InMemory :=
  cells i.mode modes

/-- The operand is a cell whose address is found without reading memory. -/
def Direct (i : Instruction) : Prop :=
  i.mode ∈ [AddressingMode.zeroPage, .zeroPageX, .absolute, .absoluteX]

theorem Direct.inMemory {i : Instruction} (direct : i.Direct) : i.InMemory := by
  simp only [Direct, List.mem_cons, List.not_mem_nil, or_false] at direct
  rcases direct with mode | mode | mode | mode <;> simp [InMemory, mode]

/-- The address of the operand is found the way the manual finds it. -/
theorem operand_cell {i : Instruction} (memory : i.InMemory) :
    i.operand.read = (do readBus (← lift (Interpreter.address i))) ∧
      ∀ x, i.operand.write x =
        (do let a ← lift (Interpreter.address i); change (·.write a x)) := by
  cases mode : i.mode with
  | accumulator | implied | immediate | relative => simp [InMemory, mode] at memory
  | zeroPage | absolute | indirect =>
    simp [operand, Interpreter.address, mode, Value.read, Value.write, memoryAddress, offset,
      lift_pure]
  | zeroPageX | zeroPageY | absoluteX | absoluteY =>
    simp [operand, Interpreter.address, mode, Value.read, Value.write, memoryAddress, offset_eq,
      lift_map]
  | indexedIndirect | indirectIndexed =>
    simp [operand, Interpreter.address, mode, Value.read, Value.write, indirectAddress, offset_eq,
      pointee_eq, lift_bind, lift_map]

theorem reads_operand (i : Instruction) : i.operand.Reads (Interpreter.operand i) := by
  refine ⟨?_, ?_, blind_operand i⟩
  · cases mode : i.mode with
    | accumulator | implied | immediate | relative =>
      simp only [operand, Interpreter.operand, mode]
      rfl
    | _ =>
      rw [(operand_cell (by simp [InMemory, mode])).1]
      simp only [Interpreter.operand, mode, readBus_eq, lift_bind]
  · cases mode : i.mode <;> simp [operand, mode, Value.slots, Value.a]

theorem writes_operand {i : Instruction} (memory : i.InMemory) :
    i.operand.Writes (Interpreter.store i) := by
  refine ⟨(operand_cell memory).2, ?_, ?_, blind_store i⟩
  · exact (reads_operand i).slots
  · cases mode : i.mode <;> simp_all [operand, Value.isWritable, InMemory]

end Instruction

namespace Exec

theorem change_eq_lift {f : Hardware → Hardware} {m : Machine Unit}
    (same : ∀ h, m h = ((), f h)) : change f = lift m := by
  funext r
  simp only [change, lift, same]

theorem change_describe (v : UInt8) : change (·.setZeroNegative v) = lift (describe v) :=
  change_eq_lift (describe_eq v)

theorem change_add (m : UInt8) : change (·.addWithCarry m) = lift (add m) :=
  change_eq_lift (add_eq m)

theorem change_compare (value m : UInt8) :
    change (·.compare value m) = lift (Interpreter.compare value m) :=
  change_eq_lift (compare_eq value m)

theorem change_bitTest (m : UInt8) : change (·.bitTest m) = lift (bitTest m) :=
  change_eq_lift (bitTest_eq m)

theorem change_push (v : UInt8) : change (·.push v) = lift (push v) := change_eq_lift (push_eq v)

end Exec

namespace Effect

/-- Performs effects in turn. -/
def performAll (debugger : Option Debugger) : List Effect → Exec Unit
  | [] => pure ()
  | e :: es => do
    e.perform debugger
    performAll debugger es

/-- Effects that do what an action of the interpreter does. -/
structure Realize (es : List Effect) (m : Machine Unit) : Prop where
  implements : ∀ debugger, Implements (performAll debugger es) m
  inScope : Scoped [] es
  blind : m.Blind

attribute [local simp] performAll perform Scoped Plain reads writes destination?

variable {v : Value} {m : Machine UInt8}

theorem realize_add (operand : v.Reads m) : Realize [addWithCarry v] (do add (← m)) where
  implements debugger := by
    simp only [performAll, perform, operand.read, change_add, bind_pure_unit, ← lift_bind]
    exact implements_lift _
  inScope := by simp [operand.slots]
  blind := operand.blind.bind blind_add

theorem realize_subtract (operand : v.Reads m) :
    Realize [complement v .work, addWithCarry .work] (do subtract (← m)) where
  implements debugger := by
    simp only [performAll, perform, operand.read, change_add, bind_pure_unit, bind_assoc,
      Value.read_work, Value.write_work, writeScratch_read, subtract_eq]
    exact (implements_lift m).bind fun _ => (implements_lift _).writeScratch _ _
  inScope := by simp [operand.slots]
  blind := operand.blind.bind blind_subtract

theorem realize_logical (op : BinaryOp) (operand : v.Reads m) :
    Realize (Instruction.lowerLogical op v)
      (do load .a (op.apply (← Machine.register .a) (← m))) where
  implements debugger := by
    simp only [Instruction.lowerLogical, performAll, perform, operand.read, change_describe,
      bind_pure_unit, bind_assoc, Value.a, Value.read_register, Value.write_register, ← lift_bind,
      load_eq]
    exact implements_lift _
  inScope := by simp [Instruction.lowerLogical, operand.slots, Value.a]
  blind := (blind_register _).bind fun _ => operand.blind.bind fun _ => blind_load _ _

theorem realize_load (r : Register) (operand : v.Reads m) :
    Realize (Instruction.lowerLoad (.register r) v) (do load r (← m)) where
  implements debugger := by
    simp only [Instruction.lowerLoad, performAll, perform, operand.read, change_describe,
      bind_pure_unit, bind_assoc, Value.read_register, Value.write_register, ← lift_bind, load_eq]
    exact implements_lift _
  inScope := by simp [Instruction.lowerLoad, operand.slots]
  blind := operand.blind.bind fun _ => blind_load _ _

theorem realize_registerStep (op : BinaryOp) (r : Register) :
    Realize (Instruction.lowerRegisterStep op (.register r))
      (do load r (op.apply (← Machine.register r) 1)) where
  implements debugger := by
    simp only [Instruction.lowerRegisterStep, performAll, perform, change_describe,
      bind_pure_unit, bind_assoc, pure_bind, Value.read_constant, Value.read_register,
      Value.write_register, ← lift_bind, load_eq]
    exact implements_lift _
  inScope := by simp [Instruction.lowerRegisterStep]
  blind := (blind_register _).bind fun _ => blind_load _ _

theorem realize_store {put : UInt8 → Machine Unit} (source : v.Reads m) (place : d.Writes put) :
    Realize (Instruction.lowerStore v d) (do put (← m)) where
  implements debugger := by
    simp only [Instruction.lowerStore, performAll, perform, source.read, place.write,
      bind_pure_unit, ← lift_bind]
    exact implements_lift _
  inScope := by simp [Instruction.lowerStore, source.slots, place.writable]
  blind := source.blind.bind place.blind

theorem realize_flag (f : Flag) (on : Bool) :
    Realize (Instruction.lowerFlag f on) (Machine.setFlag f on) where
  implements debugger := by
    intro r
    refine ⟨r.scratch, ?_⟩
    cases on <;> rfl
  inScope := by simp [Instruction.lowerFlag, Value.slots, Value.isWritable]
  blind := blind_setFlag f on

theorem realize_compare {l : Value} {n : Machine UInt8} (left : l.Reads n) (right : v.Reads m) :
    Realize [compare l v] (do Interpreter.compare (← n) (← m)) where
  implements debugger := by
    simp only [performAll, perform, left.read, right.read, change_compare, bind_pure_unit,
      ← lift_bind]
    exact implements_lift _
  inScope := by simp [left.slots, right.slots]
  blind := left.blind.bind fun _ => right.blind.bind fun _ => blind_compare _ _

theorem realize_bitTest (operand : v.Reads m) :
    Realize [bitTest v] (do Interpreter.bitTest (← m)) where
  implements debugger := by
    simp only [performAll, perform, operand.read, change_bitTest, bind_pure_unit, ← lift_bind]
    exact implements_lift _
  inScope := by simp [operand.slots]
  blind := operand.blind.bind blind_bitTest

theorem realize_push (source : v.Reads m) : Realize [push v] (do Machine.push (← m)) where
  implements debugger := by
    simp only [performAll, perform, source.read, change_push, bind_pure_unit, ← lift_bind]
    exact implements_lift _
  inScope := by simp [source.slots]
  blind := source.blind.bind blind_push

theorem realize_pushStatus :
    Realize [binary .or .status (.constant 0x30) .work, push .work]
      (do Machine.push ((← Machine.status) ||| 0x30)) where
  implements debugger := by
    simp only [performAll, perform, change_push, bind_pure_unit, bind_assoc, pure_bind,
      Value.read_constant, Value.read_status, Value.read_work, Value.write_work,
      writeScratch_read]
    exact (implements_lift _).bind fun _ => (implements_lift _).writeScratch _ _
  inScope := by simp
  blind := blind_status.bind fun _ => blind_push _

theorem perform_pop (debugger : Option Debugger) (d : Value) :
    (pop d).perform debugger = (do d.write (← lift pull)) := by
  funext r
  simp only [perform, bind, EStateM.bind, lift, pull_eq]

theorem realize_pull : Realize [pop .a, setZeroNegative .a] (do load .a (← pull)) where
  implements debugger := by
    simp only [performAll, perform_pop]
    simp only [perform, change_describe, bind_pure_unit, bind_assoc, Value.a, Value.read_register,
      Value.write_register, ← lift_bind, load_eq]
    exact implements_lift _
  inScope := by simp [Value.a]
  blind := blind_pull.bind fun _ => blind_load _ _

theorem realize_pullStatus :
    Realize [pop .work, binary .and .work (.constant 0xEF) .work,
      binary .or .work (.constant 0x20) .status] pullStatus where
  implements debugger := by
    simp only [performAll, perform_pop]
    simp only [perform, bind_pure_unit, bind_assoc, pure_bind, Value.read_constant,
      Value.read_work, Value.write_work, Value.write_status, writeScratch_read]
    exact (implements_lift pull).bind fun _ =>
      ((implements_lift _).writeScratch _ _).writeScratch _ _
  inScope := by simp
  blind := blind_pullStatus

theorem realize_nothing : Realize [] (pure ()) :=
  ⟨fun _ => implements_lift (pure ()), trivial, blind_pure ()⟩

theorem realize_shiftAccumulator (kind : ShiftKind) :
    Realize [shift kind .a]
      (do Machine.setRegister .a (← Interpreter.shift kind (← Machine.register .a))) where
  implements debugger := by
    intro r
    exact ⟨r.scratch, rfl⟩
  inScope := by simp [Value.a]
  blind := (blind_register _).bind fun _ => (blind_shift _ _).bind fun _ => blind_setRegister _ _

theorem realize_shiftCell {put : UInt8 → Machine Unit} (kind : ShiftKind) (source : v.Reads m)
    (place : v.Writes put) :
    Realize [copy v .work, shift kind .work, copy .work v]
      (do put (← Interpreter.shift kind (← m))) where
  implements debugger := by
    simp only [performAll, perform, source.read, place.write, inspect_flag, change_eq,
      bind_pure_unit, bind_assoc, Value.read_work, Value.write_work, writeScratch_read,
      writeScratch_lift_read]
    simp only [Interpreter.shift, bind_assoc, pure_bind]
    exact (implements_lift m).bind fun _ =>
      ((implements_lift _).bind fun _ => ((implements_lift _).bind fun _ =>
        implements_lift _).writeScratch _ _).writeScratch _ _
  inScope := by simp [source.slots, place.writable]
  blind := source.blind.bind fun _ => (blind_shift _ _).bind place.blind

theorem realize_memoryStep {put : UInt8 → Machine Unit} (op : BinaryOp) (source : v.Reads m)
    (place : v.Writes put) :
    Realize (Instruction.lowerMemoryStep op v)
      (do let old ← m; put (op.apply old 1); describe (op.apply old 1)) where
  implements debugger := by
    simp only [Instruction.lowerMemoryStep, performAll, perform, source.read, place.write,
      change_describe, bind_pure_unit, bind_assoc, pure_bind, Value.read_constant, Value.read_work,
      Value.write_work, writeScratch_read, writeScratch_lift_read]
    exact (implements_lift m).bind fun _ =>
      ((implements_lift _).bind fun _ => implements_lift _).writeScratch _ _
  inScope := by simp [Instruction.lowerMemoryStep, source.slots, place.writable]
  blind := source.blind.bind fun _ => (place.blind _).bind fun _ => blind_describe _

end Effect

namespace Interpreter

theorem address_direct {i : Instruction} (direct : i.Direct) :
    ∃ place : UInt8 → UInt16, ∀ h, address i h = (place (h.register .x), h) := by
  simp only [Instruction.Direct, List.mem_cons, List.not_mem_nil, or_false] at direct
  rcases direct with mode | mode | mode | mode
  · exact ⟨fun _ => i.operandByte.toUInt16, fun h => by simp [address, mode]⟩
  · exact ⟨fun x => (i.operandByte + x).toUInt16, fun h => by simp [address, mode]⟩
  · exact ⟨fun _ => i.operandWord, fun h => by simp [address, mode]⟩
  · exact ⟨fun x => i.operandWord + x.toUInt16, fun h => by simp [address, mode]⟩

/-- An update finds its address once. Where that reads no memory, the address can
be found again for the write. -/
theorem update_direct {i : Instruction} {f : UInt8 → Machine UInt8} (direct : i.Direct)
    (keeps : ∀ v h, (f v h).2.register .x = h.register .x) :
    update i f = (do store i (← f (← operand i))) := by
  obtain ⟨place, found⟩ := address_direct direct
  have unread (h : Hardware) (a : UInt16) : (h.read a).2.register .x = h.register .x := rfl
  have memory : i.mode ≠ .accumulator := fun mode => by simp [Instruction.Direct, mode] at direct
  have cell : operand i = (do Machine.read (← address i)) := by
    cases mode : i.mode <;> simp_all [operand, Instruction.Direct]
  funext h
  simp [update, memory, cell, store, found, keeps, unread]

theorem store_describe {i : Instruction} (direct : i.Direct) (v w : UInt8) :
    (do store i v; describe w) = (do describe w; store i v) := by
  obtain ⟨place, found⟩ := address_direct direct
  funext h
  simp only [store, bind_apply, found, write_apply, describe_eq]
  rfl

end Interpreter
end NesRoutine

import NesRoutine.Proofs.Flags
import NesRoutine.Proofs.MemoryMap
import NesRoutine.Proofs.Numerals
import NesRoutine.Proofs.Site

/-! Shifts of numbers of many bytes. Cells of RAM are rotated one after another, and the
carry takes the bit that falls out of one into the next. From the lowest byte up this
doubles the number, from the highest down it halves it, and the one undoes the other. -/
namespace NesRoutine

open Interpreter Interpreter.Machine

namespace ShiftKind

/-- Rotates bytes in turn, each with the bit that fell out of the one before. -/
def through (kind : ShiftKind) : Bool → List UInt8 → List UInt8 × Bool
  | carry, [] => ([], carry)
  | carry, b :: bytes =>
    let (rest, out) := kind.through (kind.carryOut b) bytes
    (kind.apply b carry :: rest, out)

theorem rotateLeft_byte (b : UInt8) (carry : Bool) :
    (rotateLeft.apply b carry).toNat + 256 * (rotateLeft.carryOut b).toNat =
      2 * b.toNat + carry.toNat := by
  have := b.toNat_lt
  have := carry.toNat_lt
  rw [apply, rotateLeft_bits, UInt8.toNat_ofNat', carryOut, sign_bit]
  by_cases top : 0x80 ≤ b
  · have : 0x80 ≤ b.toNat := UInt8.le_iff_toNat_le.mp top
    rw [decide_eq_true top, Bool.toNat_true]
    omega
  · have : ¬ 0x80 ≤ b.toNat := fun least => top (UInt8.le_iff_toNat_le.mpr least)
    rw [decide_eq_false top, Bool.toNat_false]
    omega

theorem rotateRight_byte (b : UInt8) (carry : Bool) :
    2 * (rotateRight.apply b carry).toNat + (rotateRight.carryOut b).toNat =
      b.toNat + 256 * carry.toNat := by
  have := b.toNat_lt
  have := carry.toNat_lt
  rw [apply, rotateRight_bits, UInt8.toNat_ofNat', carryOut, low_bit]
  by_cases odd : b.toNat % 2 = 1
  · rw [decide_eq_true odd, Bool.toNat_true]
    omega
  · rw [decide_eq_false odd, Bool.toNat_false]
    omega

theorem length_through (kind : ShiftKind) (carry : Bool) (bytes : List UInt8) :
    (kind.through carry bytes).1.length = bytes.length := by
  induction bytes generalizing carry with
  | nil => rfl
  | cons b bytes ih => exact congrArg (· + 1) (ih _)

theorem rotateLeft_through (carry : Bool) (bytes : List UInt8) :
    littleEndian (rotateLeft.through carry bytes).1 +
        256 ^ bytes.length * (rotateLeft.through carry bytes).2.toNat =
      2 * littleEndian bytes + carry.toNat := by
  induction bytes generalizing carry with
  | nil => simp [through]
  | cons b bytes ih =>
    have byte := rotateLeft_byte b carry
    have rest := ih (rotateLeft.carryOut b)
    simp only [through, littleEndian_cons, List.length_cons, Nat.pow_succ']
    rw [Nat.mul_assoc]
    omega

/-- The bytes come from the highest to the lowest. -/
theorem rotateRight_through (carry : Bool) (bytes : List UInt8) :
    2 * littleEndian (rotateRight.through carry bytes).1.reverse +
        (rotateRight.through carry bytes).2.toNat =
      littleEndian bytes.reverse + 256 ^ bytes.length * carry.toNat := by
  induction bytes generalizing carry with
  | nil => simp [through]
  | cons b bytes ih =>
    have byte := congrArg (256 ^ bytes.length * ·) (rotateRight_byte b carry)
    have rest := ih (rotateRight.carryOut b)
    simp only [through, List.reverse_cons, littleEndian_append, littleEndian_cons, littleEndian_nil,
      List.length_reverse, length_through, List.length_cons, Nat.pow_succ, Nat.mul_add,
      Nat.mul_zero, Nat.add_zero, Nat.mul_left_comm _ 2] at byte rest ⊢
    rw [Nat.mul_assoc]
    omega

end ShiftKind

namespace Hardware

def rotateCell (kind : ShiftKind) (h : Hardware) (a : UInt16) : Hardware :=
  let value := h.bus.memory.read a
  let result := kind.apply value (h.flag .carry)
  ((h.setFlag .carry (kind.carryOut value)).setZeroNegative result).write a result

/-- What the cells hold. -/
def bytesAt (h : Hardware) (cells : List UInt16) : List UInt8 := cells.map h.bus.memory.read

@[simp] theorem length_bytesAt (h : Hardware) (cells : List UInt16) :
    (h.bytesAt cells).length = cells.length :=
  List.length_map _

/-- Apart from C, Z, N and the cells all is as it was. RAM repeats every 2 KB. -/
structure Spares (cells : List UInt16) (h h' : Hardware) : Prop where
  rest : h' = { h with
    cpu := h.cpu.setStatus h'.status
    bus := { h.bus with memory := { h.bus.memory with ram := h'.bus.memory.ram } } }
  flags : ∀ f, f ≠ .carry → f ≠ .zero → f ≠ .negative → h'.flag f = h.flag f
  others : ∀ b : UInt16, b < 0x2000 → (∀ a ∈ cells, a.toNat % 0x0800 ≠ b.toNat % 0x0800) →
    h'.bus.memory.read b = h.bus.memory.read b

namespace Spares

theorem refl (cells : List UInt16) (h : Hardware) : Spares cells h h :=
  ⟨rfl, fun _ _ _ _ => rfl, fun _ _ _ => rfl⟩

theorem trans (first : Spares cells h h') (second : Spares cells h' h'') :
    Spares cells h h'' := by
  constructor
  · rw [second.rest, first.rest]
    rfl
  · intro f carry zero negative
    rw [second.flags f carry zero negative, first.flags f carry zero negative]
  · intro b low apart
    rw [second.others b low apart, first.others b low apart]

theorem register (spares : Spares cells h h') (r : Register) : h'.register r = h.register r := by
  rw [spares.rest]
  cases r <;> rfl

theorem mono (spares : Spares cells h h') (more : cells ⊆ cells') : Spares cells' h h' :=
  ⟨spares.rest, spares.flags, fun b low apart => spares.others b low fun a member =>
    apart a (more member)⟩

end Spares

theorem memory_rotateCell (kind : ShiftKind) (h : Hardware) (a : UInt16) :
    (h.rotateCell kind a).bus.memory =
      h.bus.memory.write a (kind.apply (h.bus.memory.read a) (h.flag .carry)) :=
  memory_write _ a _

theorem read_rotateCell (kind : ShiftKind) (h : Hardware) {a b : UInt16} (low : a < 0x2000)
    (low' : b < 0x2000) :
    (h.rotateCell kind a).bus.memory.read b =
      if a.toNat % 0x0800 = b.toNat % 0x0800 then
        kind.apply (h.bus.memory.read a) (h.flag .carry)
      else h.bus.memory.read b := by
  rw [memory_rotateCell, Memory.read_write _ low low']
  simp only [Memory.ramCell, Fin.ext_iff]
  rfl

theorem flag_rotateCell (kind : ShiftKind) (h : Hardware) (a : UInt16) {f : Flag}
    (zero : f ≠ .zero) (negative : f ≠ .negative) :
    (h.rotateCell kind a).flag f =
      if .carry = f then kind.carryOut (h.bus.memory.read a) else h.flag f := by
  have written : (h.rotateCell kind a).flag f =
    ((h.setFlag .carry (kind.carryOut (h.bus.memory.read a))).setZeroNegative
      (kind.apply (h.bus.memory.read a) (h.flag .carry))).flag f := rfl
  rw [written, flag_setZeroNegative, flag_setFlag, if_neg negative, if_neg zero]

theorem carry_rotateCell (kind : ShiftKind) (h : Hardware) (a : UInt16) :
    (h.rotateCell kind a).flag .carry = kind.carryOut (h.bus.memory.read a) :=
  (h.flag_rotateCell kind a (by decide) (by decide)).trans (if_pos rfl)

theorem spares_rotateCell (kind : ShiftKind) (h : Hardware) {a : UInt16} (low : a < 0x2000) :
    Spares [a] h (h.rotateCell kind a) := by
  constructor
  · have ram : (h.rotateCell kind a).bus.memory =
        { h.bus.memory with ram := (h.rotateCell kind a).bus.memory.ram } := by
      rw [memory_rotateCell, Memory.write, if_pos low]
    have bus : (h.rotateCell kind a).bus =
        { h.bus with memory := (h.rotateCell kind a).bus.memory } := by
      rw [memory_rotateCell]
      exact SystemBus.write_low h.bus low _
    rw [ram] at bus
    exact congrArg (Hardware.mk (h.cpu.setStatus (h.rotateCell kind a).status) · h.listeners) bus
  · intro f carry zero negative
    rw [h.flag_rotateCell kind a zero negative, if_neg (Ne.symm carry)]
  · intro b low' apart
    rw [read_rotateCell kind h low low', if_neg (apart a List.mem_cons_self)]

theorem bytesAt_rotateCell (kind : ShiftKind) (h : Hardware) {a : UInt16} {cells : List UInt16}
    (low : ∀ b ∈ a :: cells, b < 0x2000)
    (apart : ((a :: cells).map (·.toNat % 0x0800)).Nodup) :
    (h.rotateCell kind a).bytesAt cells = h.bytesAt cells := by
  refine List.map_congr_left fun b member => ?_
  obtain ⟨first, rest⟩ := List.forall_mem_cons.mp low
  rw [List.map_cons, List.nodup_cons] at apart
  rw [read_rotateCell kind h first (rest b member), if_neg]
  intro same
  exact apart.1 (same ▸ List.mem_map_of_mem member)

def rotateCells (kind : ShiftKind) (h : Hardware) (cells : List UInt16) : Hardware :=
  cells.foldl (rotateCell kind) h

theorem spares_rotateCells (kind : ShiftKind) (h : Hardware) {cells : List UInt16}
    (low : ∀ a ∈ cells, a < 0x2000) : Spares cells h (h.rotateCells kind cells) := by
  induction cells generalizing h with
  | nil => exact .refl _ h
  | cons a cells ih =>
    obtain ⟨first, rest⟩ := List.forall_mem_cons.mp low
    have one : Spares (a :: cells) h (h.rotateCell kind a) :=
      (spares_rotateCell kind h first).mono (by simp)
    exact one.trans ((ih _ rest).mono (List.subset_cons_self a cells))

/-- Cells that do not share a byte are rotated as their bytes are. -/
theorem bytesAt_rotateCells (kind : ShiftKind) (h : Hardware) {cells : List UInt16}
    (low : ∀ a ∈ cells, a < 0x2000) (apart : (cells.map (·.toNat % 0x0800)).Nodup) :
    ((h.rotateCells kind cells).bytesAt cells, (h.rotateCells kind cells).flag .carry) =
      kind.through (h.flag .carry) (h.bytesAt cells) := by
  induction cells generalizing h with
  | nil => rfl
  | cons a cells ih =>
    obtain ⟨first, rest⟩ := List.forall_mem_cons.mp low
    have unmoved := h.bytesAt_rotateCell kind low apart
    have distinct := apart
    rw [List.map_cons, List.nodup_cons] at distinct
    have rotated := ih (h.rotateCell kind a) rest distinct.2
    rw [unmoved, carry_rotateCell] at rotated
    -- the cells after the first leave it alone
    have kept : (h.rotateCells kind (a :: cells)).bus.memory.read a =
        kind.apply (h.bus.memory.read a) (h.flag .carry) := by
      refine ((spares_rotateCells kind (h.rotateCell kind a) rest).others a first ?_).trans ?_
      · intro b member same
        exact distinct.1 (same ▸ List.mem_map_of_mem member)
      · rw [read_rotateCell kind h first first, if_pos rfl]
    rw [bytesAt, List.map_cons, kept]
    exact congrArg (fun p => (kind.apply (h.bus.memory.read a) (h.flag .carry) :: p.1, p.2)) rotated

theorem ram_ext {m m' : Memory} (same : ∀ a : UInt16, a < 0x2000 → m.read a = m'.read a) :
    m.ram = m'.ram := by
  refine Vector.ext fun i bound => ?_
  have place : (UInt16.ofNat i).toNat = i := UInt16.toNat_ofNat_of_lt'
    (Nat.lt_trans bound (by decide))
  have low : UInt16.ofNat i < 0x2000 := by
    rw [UInt16.lt_iff_toNat_lt, place]
    exact Nat.lt_trans bound (by decide)
  have cell : Memory.ramCell (UInt16.ofNat i) = ⟨i, bound⟩ := by
    refine Fin.ext ?_
    rw [Memory.ramCell, place]
    exact Nat.mod_eq_of_lt bound
  have read := same _ low
  simp only [Memory.read, if_pos low, cell] at read
  exact read

/-- Where the cells hold what they held, the whole bus is as it was. -/
theorem Spares.bus_eq (spares : Spares cells h h') (low : ∀ a ∈ cells, a < 0x2000)
    (same : h'.bytesAt cells = h.bytesAt cells) : h'.bus = h.bus := by
  have ram : h'.bus.memory.ram = h.bus.memory.ram := by
    refine ram_ext fun b inside => ?_
    by_cases shown : ∃ a ∈ cells, a.toNat % 0x0800 = b.toNat % 0x0800
    · obtain ⟨a, member, mirror⟩ := shown
      have cell : Memory.ramCell b = Memory.ramCell a := Fin.ext mirror.symm
      have held := List.map_inj_left.mp same a member
      simp only [Memory.read, if_pos inside, if_pos (low a member), cell] at held ⊢
      exact held
    · refine spares.others b inside ?_
      intro a member mirror
      exact shown ⟨a, member, mirror⟩
  rw [spares.rest, ram]

theorem Spares.bus_eq_of_number (spares : Spares cells h h') (low : ∀ a ∈ cells, a < 0x2000)
    (same : littleEndian (h'.bytesAt cells) = littleEndian (h.bytesAt cells)) : h'.bus = h.bus :=
  spares.bus_eq low (littleEndian_inj (by simp) same)

/-- From the lowest byte up, the number is doubled. -/
theorem rotateLeft_number (h : Hardware) {cells : List UInt16} (low : ∀ a ∈ cells, a < 0x2000)
    (apart : (cells.map (·.toNat % 0x0800)).Nodup) :
    littleEndian ((h.rotateCells .rotateLeft cells).bytesAt cells) +
        256 ^ cells.length * ((h.rotateCells .rotateLeft cells).flag .carry).toNat =
      2 * littleEndian (h.bytesAt cells) + (h.flag .carry).toNat := by
  have rotated := h.bytesAt_rotateCells .rotateLeft low apart
  have number := ShiftKind.rotateLeft_through (h.flag .carry) (h.bytesAt cells)
  rw [← rotated, length_bytesAt] at number
  exact number

/-- From the highest byte down, the number is halved. -/
theorem rotateRight_number (h : Hardware) {cells : List UInt16} (low : ∀ a ∈ cells, a < 0x2000)
    (apart : (cells.map (·.toNat % 0x0800)).Nodup) :
    2 * littleEndian ((h.rotateCells .rotateRight cells.reverse).bytesAt cells) +
        ((h.rotateCells .rotateRight cells.reverse).flag .carry).toNat =
      littleEndian (h.bytesAt cells) + 256 ^ cells.length * (h.flag .carry).toNat := by
  have apart' : (cells.reverse.map (·.toNat % 0x0800)).Nodup := by
    rw [List.map_reverse]
    exact List.nodup_reverse.mpr apart
  have rotated := h.bytesAt_rotateCells .rotateRight
    (fun a member => low a (List.mem_reverse.mp member)) apart'
  have number := ShiftKind.rotateRight_through (h.flag .carry) (h.bytesAt cells.reverse)
  rw [← rotated] at number
  simpa only [bytesAt, List.map_reverse, List.reverse_reverse, List.length_reverse,
    List.length_map] using number

end Hardware

namespace Site

/-- ROL or ROR in a memory mode, and the cell that it works on. -/
structure Rotates (m : Mnemonic) (h : Hardware) (site : Site) (a : UInt16) : Prop where
  mnemonic : site.instruction.mnemonic = m
  mode : site.instruction.mode ∈ m.modes
  memory : site.instruction.mode ≠ .accumulator
  resolves : (address site.instruction h).1 = a

/-- The code works on the cell at an address, which is found without reading memory. -/
structure Turns (kind : ShiftKind) (h : Hardware) (site : Site) (a : UInt16) : Prop where
  lowered : site.code = ([.copy site.instruction.operand .work, .shift kind .work,
    .copy .work site.instruction.operand] : List Effect).map .effect
  direct : site.instruction.Direct
  resolves : (address site.instruction h).1 = a

theorem Rotates.turnsLeft {site : Site} (rotates : Rotates .rol h site a) :
    site.Turns .rotateLeft h a := by
  obtain ⟨mnemonic, mode, memory, resolves⟩ := rotates
  refine ⟨?_, ?_, resolves⟩
  · simp [code, Instruction.lowerBody, Instruction.lowerShift, mnemonic, memory]
  · exact (List.mem_cons.mp mode).resolve_left memory

theorem Rotates.turnsRight {site : Site} (rotates : Rotates .ror h site a) :
    site.Turns .rotateRight h a := by
  obtain ⟨mnemonic, mode, memory, resolves⟩ := rotates
  refine ⟨?_, ?_, resolves⟩
  · simp [code, Instruction.lowerBody, Instruction.lowerShift, mnemonic, memory]
  · exact (List.mem_cons.mp mode).resolve_left memory

/-- The address depends on X alone. -/
theorem Turns.congr {site : Site} (turns : site.Turns kind h a)
    (same : h'.register .x = h.register .x) : site.Turns kind h' a := by
  obtain ⟨lowered, direct, resolves⟩ := turns
  obtain ⟨place, found⟩ := address_direct direct
  refine ⟨lowered, direct, ?_⟩
  rw [← resolves, found, found, same]

theorem Turns.passes {site : Site} {s : Run} (turns : site.Turns kind s.hardware a)
    (low : a < 0x2000) (debugger : Option Debugger) :
    ∃ s', site.Passes debugger s s' ∧ s'.hardware = s.hardware.rotateCell kind a := by
  obtain ⟨lowered, direct, resolves⟩ := turns
  obtain ⟨place, found⟩ := address_direct direct
  have realize := Effect.realize_shiftCell kind (Instruction.reads_operand site.instruction)
    (Instruction.writes_operand direct.inMemory)
  obtain ⟨s', passes, hardware⟩ := exists_passes lowered realize debugger s
  refine ⟨s', passes, hardware.trans ?_⟩
  have cell : operand site.instruction = (do Machine.read (← address site.instruction)) := by
    cases mode : site.instruction.mode <;> simp_all [operand, Instruction.Direct]
  have here : place (s.hardware.register .x) = a := by rw [← resolves, found]
  have read := s.hardware.read_of_not_toDevice (Hardware.not_toDevice (.inl low))
  have unmoved (h : Hardware) (on : Bool) (v : UInt8) :
      ((h.setFlag .carry on).setZeroNegative v).register .x = h.register .x := rfl
  simp only [bind_apply, cell, found, here, unmoved, read_apply, read, Interpreter.shift,
    flag_apply, modify_apply, pure_apply, store, write_apply]
  rfl

theorem exists_passAll {sites : List Site} {cells : List UInt16}
    (turns : List.Forall₂ (Turns kind h) sites cells) (low : ∀ a ∈ cells, a < 0x2000)
    (debugger : Option Debugger) (s : Run) (same : s.hardware.register .x = h.register .x) :
    ∃ s', PassAll debugger sites s s' ∧ s'.hardware = s.hardware.rotateCells kind cells := by
  induction turns generalizing s with
  | nil => exact ⟨s, rfl, rfl⟩
  | cons turns _ ih =>
    obtain ⟨first, rest⟩ := List.forall_mem_cons.mp low
    obtain ⟨t, passes, rotated⟩ := (turns.congr same).passes first debugger
    obtain ⟨s', passed, hardware⟩ := ih rest t (by rw [rotated]; exact same)
    refine ⟨s', ⟨t, passes, passed⟩, ?_⟩
    rw [hardware, rotated]
    rfl

/-- The chain of ROL from the lowest cell up: the number is doubled. -/
theorem exists_passUp {sites : List Site} {cells : List UInt16}
    (rotates : List.Forall₂ (Rotates .rol h) sites cells) (low : ∀ a ∈ cells, a < 0x2000)
    (apart : (cells.map (·.toNat % 0x0800)).Nodup) (debugger : Option Debugger) (s : Run)
    (same : s.hardware.register .x = h.register .x) :
    ∃ s', PassAll debugger sites s s' ∧
      littleEndian (s'.hardware.bytesAt cells) +
          256 ^ cells.length * (s'.hardware.flag .carry).toNat =
        2 * littleEndian (s.hardware.bytesAt cells) + (s.hardware.flag .carry).toNat ∧
      Hardware.Spares cells s.hardware s'.hardware := by
  have turns : List.Forall₂ (Turns .rotateLeft h) sites cells :=
    rotates.imp fun _ _ rotates => rotates.turnsLeft
  obtain ⟨s', passed, turned⟩ := exists_passAll turns low debugger s same
  refine ⟨s', passed, ?_, ?_⟩
  · rw [turned]
    exact s.hardware.rotateLeft_number low apart
  · rw [turned]
    exact s.hardware.spares_rotateCells .rotateLeft low

/-- The chain of ROR from the highest cell down: the number is halved. -/
theorem exists_passDown {sites : List Site} {cells : List UInt16}
    (rotates : List.Forall₂ (Rotates .ror h) sites cells) (low : ∀ a ∈ cells, a < 0x2000)
    (apart : (cells.map (·.toNat % 0x0800)).Nodup) (debugger : Option Debugger) (s : Run)
    (same : s.hardware.register .x = h.register .x) :
    ∃ s', PassAll debugger sites.reverse s s' ∧
      2 * littleEndian (s'.hardware.bytesAt cells) + (s'.hardware.flag .carry).toNat =
        littleEndian (s.hardware.bytesAt cells) +
          256 ^ cells.length * (s.hardware.flag .carry).toNat ∧
      Hardware.Spares cells s.hardware s'.hardware := by
  have reversed : cells.reverse ⊆ cells := fun _ => List.mem_reverse.mp
  have high : ∀ a ∈ cells.reverse, a < 0x2000 := fun a member => low a (reversed member)
  have turns : List.Forall₂ (Turns .rotateRight h) sites.reverse cells.reverse :=
    List.forall₂_reverse_iff.mpr (rotates.imp fun _ _ rotates => rotates.turnsRight)
  obtain ⟨s', passed, turned⟩ := exists_passAll turns high debugger s same
  refine ⟨s', passed, ?_, ?_⟩
  · rw [turned]
    exact s.hardware.rotateRight_number low apart
  · rw [turned]
    exact (s.hardware.spares_rotateCells .rotateRight high).mono reversed

end Site

section Numbers

variable {n x y : Nat} {c d : Bool}

theorem eq_of_doubled (nonzero : n ≠ 0) (bound : x < 256 ^ n) (bound' : y < 256 ^ n)
    (doubled : y + 256 ^ n * d.toNat = 2 * x + c.toNat) :
    y = (2 * x + c.toNat) % 256 ^ n ∧ d = x.testBit (8 * n - 1) := by
  constructor
  · rw [← doubled, Nat.add_mul_mod_self_left, Nat.mod_eq_of_lt bound']
  · have := c.toNat_lt
    rw [testBit_top nonzero bound]
    rw [pow_eq_double nonzero] at bound bound' doubled
    cases d with
    | false =>
      rw [Bool.toNat_false] at doubled
      refine (decide_eq_false ?_).symm
      omega
    | true =>
      rw [Bool.toNat_true] at doubled
      refine (decide_eq_true ?_).symm
      omega

theorem eq_of_halved (nonzero : n ≠ 0) (halved : 2 * y + d.toNat = x + 256 ^ n * c.toNat) :
    y = x / 2 + c.toNat * 2 ^ (8 * n - 1) ∧ d = x.testBit 0 := by
  rw [pow_eq_double nonzero, Nat.mul_assoc, Nat.mul_comm (2 ^ _)] at halved
  rw [Nat.testBit_zero]
  cases d with
  | false =>
    rw [Bool.toNat_false] at halved
    refine ⟨by omega, (decide_eq_false ?_).symm⟩
    omega
  | true =>
    rw [Bool.toNat_true] at halved
    refine ⟨by omega, (decide_eq_true ?_).symm⟩
    omega

theorem eq_of_lowest (same : 2 * y + d.toNat = 2 * x + c.toNat) : y = x ∧ d = c := by
  cases c <;> cases d <;> simp only [Bool.toNat_true, Bool.toNat_false] at same <;> grind

theorem eq_of_highest (bound : x < 256 ^ n) (bound' : y < 256 ^ n)
    (same : y + 256 ^ n * d.toNat = x + 256 ^ n * c.toNat) : y = x ∧ d = c := by
  cases c <;> cases d <;> simp only [Bool.toNat_true, Bool.toNat_false] at same <;> grind

end Numbers

/-- The number in the cells and the carry are turned by ROL from the lowest cell up and by ROR
from the highest down. Each undoes the other, and nothing else is touched but Z and N. -/
theorem rotate_chains (debugger : Option Debugger) (s : Run) (cells : List UInt16)
    (nonempty : cells ≠ []) (low : ∀ a ∈ cells, a < 0x2000)
    (apart : (cells.map (·.toNat % 0x0800)).Nodup) :
    let n := cells.length
    let X := littleEndian (s.hardware.bytesAt cells)
    let c := s.hardware.flag .carry
    (∀ lefts, List.Forall₂ (Site.Rotates .rol s.hardware) lefts cells →
      ∃ s', Site.PassAll debugger lefts s s' ∧
        littleEndian (s'.hardware.bytesAt cells) = (2 * X + c.toNat) % 256 ^ n ∧
        s'.hardware.flag .carry = X.testBit (8 * n - 1) ∧
        Hardware.Spares cells s.hardware s'.hardware) ∧
    (∀ rights, List.Forall₂ (Site.Rotates .ror s.hardware) rights cells →
      ∃ s', Site.PassAll debugger rights.reverse s s' ∧
        littleEndian (s'.hardware.bytesAt cells) = X / 2 + c.toNat * 2 ^ (8 * n - 1) ∧
        s'.hardware.flag .carry = X.testBit 0 ∧ Hardware.Spares cells s.hardware s'.hardware) ∧
    ∀ lefts rights, List.Forall₂ (Site.Rotates .rol s.hardware) lefts cells →
      List.Forall₂ (Site.Rotates .ror s.hardware) rights cells →
      (∃ s', Site.PassAll debugger (lefts ++ rights.reverse) s s' ∧
        s'.hardware.bus = s.hardware.bus ∧ s'.hardware.flag .carry = c ∧
        Hardware.Spares cells s.hardware s'.hardware) ∧
      ∃ s', Site.PassAll debugger (rights.reverse ++ lefts) s s' ∧
        s'.hardware.bus = s.hardware.bus ∧ s'.hardware.flag .carry = c ∧
        Hardware.Spares cells s.hardware s'.hardware := by
  intro n X c
  have more : n ≠ 0 := (List.length_pos_iff.mpr nonempty).ne'
  have number_lt (h : Hardware) : littleEndian (h.bytesAt cells) < 256 ^ n := by
    have bound := littleEndian_lt (h.bytesAt cells)
    rwa [Hardware.length_bytesAt] at bound
  refine ⟨?_, ?_, ?_⟩
  · intro lefts left
    obtain ⟨up, passed, doubled, spared⟩ := Site.exists_passUp left low apart debugger s rfl
    obtain ⟨number, carry⟩ := eq_of_doubled more (number_lt _) (number_lt _) doubled
    exact ⟨up, passed, number, carry, spared⟩
  · intro rights right
    obtain ⟨down, passed, halved, spared⟩ := Site.exists_passDown right low apart debugger s rfl
    obtain ⟨number, carry⟩ := eq_of_halved more halved
    exact ⟨down, passed, number, carry, spared⟩
  intro lefts rights left right
  constructor
  · obtain ⟨up, passedUp, doubled, sparedUp⟩ := Site.exists_passUp left low apart debugger s rfl
    obtain ⟨back, passedBack, undone, sparedBack⟩ :=
      Site.exists_passDown right low apart debugger up (sparedUp.register .x)
    obtain ⟨number, carry⟩ := eq_of_lowest (undone.trans doubled)
    have spared := sparedUp.trans sparedBack
    exact ⟨back, passedUp.append passedBack, spared.bus_eq_of_number low number, carry, spared⟩
  · obtain ⟨down, passedDown, halved, sparedDown⟩ :=
      Site.exists_passDown right low apart debugger s rfl
    obtain ⟨back, passedBack, undone, sparedBack⟩ :=
      Site.exists_passUp left low apart debugger down (sparedDown.register .x)
    obtain ⟨number, carry⟩ := eq_of_highest (number_lt _) (number_lt _) (undone.trans halved)
    have spared := sparedDown.trans sparedBack
    exact ⟨back, passedDown.append passedBack, spared.bus_eq_of_number low number, carry, spared⟩

/-- Two cells of a compiled routine, the one reached around the end of the zero page and the
other at a mirror. The number is turned up, and up and down again. -/
theorem rotate_chains_mirrored :
    ∃ r, Routine.discover [⟨0x8000,
        #[0x36, 0xF0, 0x2E, 0x01, 0x18, 0x76, 0xF0, 0x6E, 0x01, 0x18, 0x60]⟩] 0x8000 = .ok r ∧
      ∃ u, CodeUnit.generate (fun _ => none) 0x8000 r.lower = .ok u ∧
        ∃ lefts rights : List Site, (∀ site ∈ lefts ++ rights, site.unit = u) ∧
          let h := (((({} : Hardware).setRegister .x 0x20).setFlag .carry true).write
            0x0010 0x81).write 0x1801 0xC0
          (∃ s', Site.PassAll none lefts { hardware := h } s' ∧
            littleEndian (s'.hardware.bytesAt [0x0010, 0x0001]) = 0x8103 ∧
            s'.hardware.flag .carry = true) ∧
          ∃ s', Site.PassAll none (lefts ++ rights.reverse) { hardware := h } s' ∧
            s'.hardware.bus = h.bus ∧ s'.hardware.flag .carry = true := by
  let regions : List CodeRegion := [⟨0x8000,
    #[0x36, 0xF0, 0x2E, 0x01, 0x18, 0x76, 0xF0, 0x6E, 0x01, 0x18, 0x60]⟩]
  let indexed (a : UInt16) (opcode : UInt8) (m : Mnemonic) : Instruction := {
    address := a, opcode, mnemonic := m, mode := .zeroPageX, operand1 := some 0xF0
    operand2 := none, target := none, isBranch := false, cycles := 6 }
  let fixed (a : UInt16) (opcode : UInt8) (m : Mnemonic) : Instruction := {
    address := a, opcode, mnemonic := m, mode := .absolute, operand1 := some 0x01
    operand2 := some 0x18, target := none, isBranch := false, cycles := 6 }
  have first : decodeAt regions 0x8000 = .ok (indexed 0x8000 0x36 .rol) := by decide +kernel
  have second : decodeAt regions 0x8002 = .ok (fixed 0x8002 0x2E .rol) := by decide +kernel
  have third : decodeAt regions 0x8005 = .ok (indexed 0x8005 0x76 .ror) := by decide +kernel
  have fourth : decodeAt regions 0x8007 = .ok (fixed 0x8007 0x6E .ror) := by decide +kernel
  obtain ⟨r, u, discovered, generated, exact, linked⟩ :=
    @Routine.exists_linked regions 0x8000 (by decide +kernel)
  have at1 : Routine.Reach regions 0x8000 0x8002 := .next .entry first rfl
  have at2 : Routine.Reach regions 0x8000 0x8005 := .next at1 second rfl
  have at3 : Routine.Reach regions 0x8000 0x8007 := .next at2 third rfl
  let low := linked.site ((exact.mem_iff _).mpr ⟨_, .entry, first⟩)
  let high := linked.site ((exact.mem_iff _).mpr ⟨_, at1, second⟩)
  let low' := linked.site ((exact.mem_iff _).mpr ⟨_, at2, third⟩)
  let high' := linked.site ((exact.mem_iff _).mpr ⟨_, at3, fourth⟩)
  refine ⟨r, discovered, u, generated, [low, high], [low', high'], ?_, ?_⟩
  · simp only [List.cons_append, List.nil_append, List.mem_cons, List.not_mem_nil, or_false,
      forall_eq_or_imp, forall_eq]
    exact ⟨rfl, rfl, rfl, rfl⟩
  intro h
  have around {site : Site} {m : Mnemonic} (mnemonic : site.instruction.mnemonic = m)
      (mode : site.instruction.mode = .zeroPageX) (base : site.instruction.operandByte = 0xF0)
      (known : .zeroPageX ∈ m.modes) : Site.Rotates m h site 0x0010 := by
    refine ⟨mnemonic, mode ▸ known, by simp [mode], ?_⟩
    simp only [address, mode, base]
    decide
  have straight {site : Site} {m : Mnemonic} (mnemonic : site.instruction.mnemonic = m)
      (mode : site.instruction.mode = .absolute) (base : site.instruction.operandWord = 0x1801)
      (known : .absolute ∈ m.modes) : Site.Rotates m h site 0x1801 := by
    refine ⟨mnemonic, mode ▸ known, by simp [mode], ?_⟩
    simp only [address, mode, base]
    decide
  have lefts : List.Forall₂ (Site.Rotates .rol h) [low, high] [0x0010, 0x1801] :=
    .cons (around rfl rfl rfl (by decide)) (.cons (straight rfl rfl rfl (by decide)) .nil)
  have rights : List.Forall₂ (Site.Rotates .ror h) [low', high'] [0x0010, 0x1801] :=
    .cons (around rfl rfl rfl (by decide)) (.cons (straight rfl rfl rfl (by decide)) .nil)
  obtain ⟨up, -, both⟩ :=
    rotate_chains none { hardware := h } [0x0010, 0x1801] (by simp) (by simp) (by simp)
  obtain ⟨s', passed, number, carry, -⟩ := up _ lefts
  obtain ⟨⟨t, passed', bus, carry', -⟩, -⟩ := both _ _ lefts rights
  have held : h.bytesAt [0x0010, 0x1801] = [0x81, 0xC0] := by decide +kernel
  have on : h.flag .carry = true := by decide
  simp only [held, on] at number carry carry'
  refine ⟨⟨s', passed, number.trans (by simp), carry.trans (by decide)⟩,
    ⟨t, passed', bus, carry'⟩⟩

end NesRoutine

import NesRoutine.Proofs.Bus
import NesRoutine.Proofs.Flags

/-! The stack and what the transfers of control do with it: bytes pushed one after
another, and bytes popped. The stack pointer wraps, so what lies on the stack is
followed upward from wherever it stands. -/
namespace NesRoutine

namespace Cpu

theorem toNat_stackAddress (sp : UInt8) : (stackAddress sp).toNat = 0x0100 + sp.toNat := by
  have := sp.toNat_lt
  rw [stackAddress_eq, UInt16.toNat_add, UInt8.toNat_toUInt16]
  simp only [UInt16.reduceToNat]
  omega

theorem stackAddress_low (sp : UInt8) : stackAddress sp < 0x2000 := by
  have := sp.toNat_lt
  rw [UInt16.lt_iff_toNat_lt, toNat_stackAddress]
  simp only [UInt16.reduceToNat]
  omega

/-- The stack page has a cell of RAM for each stack pointer. -/
theorem stackCell_inj {s t : UInt8} :
    Memory.ramCell (stackAddress s) = Memory.ramCell (stackAddress t) ↔ s = t := by
  have := s.toNat_lt
  have := t.toNat_lt
  rw [← UInt8.toNat_inj, Fin.ext_iff]
  simp only [Memory.ramCell, Fin.ofNat, toNat_stackAddress]
  omega

end Cpu

namespace Hardware

/-- The byte on the stack page that a stack pointer stands at. -/
def stackByte (h : Hardware) (sp : UInt8) : UInt8 := h.bus.memory.read (Cpu.stackAddress sp)

/-- Pushes bytes, the last of the list first. -/
def pushed (h : Hardware) : List UInt8 → Hardware
  | [] => h
  | b :: bs => (h.pushed bs).push b

/-- Pops a number of bytes. -/
def popped (h : Hardware) : Nat → Hardware
  | 0 => h
  | n + 1 => (h.popped n).pop.2

section Bytes

variable (h : Hardware) (v sp : UInt8)

@[simp] theorem sp_setPc (pc : UInt16) : (h.setPc pc).register .sp = h.register .sp := rfl

@[simp] theorem stackByte_setPc (pc : UInt16) : (h.setPc pc).stackByte sp = h.stackByte sp := rfl

@[simp] theorem sp_setStatus (s : Status) : (h.setStatus s).register .sp = h.register .sp := rfl

@[simp] theorem stackByte_setStatus (s : Status) :
    (h.setStatus s).stackByte sp = h.stackByte sp := rfl

@[simp] theorem sp_readWord (a : UInt16) : (h.readWord a).2.register .sp = h.register .sp := rfl

@[simp] theorem stackByte_readWord (a : UInt16) :
    (h.readWord a).2.stackByte sp = h.stackByte sp := by
  simp only [stackByte, readWord, SystemBus.readWord_memory]

@[simp] theorem sp_push : (h.push v).register .sp = h.register .sp - 1 := rfl

theorem stackByte_push :
    (h.push v).stackByte sp = if h.register .sp = sp then v else h.stackByte sp := by
  have written : (h.push v).bus = Bus.write h.bus (Cpu.stackAddress (h.register .sp)) v := rfl
  rw [stackByte, written, SystemBus.write_low _ (Cpu.stackAddress_low _),
    Memory.read_write _ (Cpu.stackAddress_low _) (Cpu.stackAddress_low _)]
  simp only [Cpu.stackCell_inj, stackByte]

@[simp] theorem sp_pop : h.pop.2.register .sp = h.register .sp + 1 := rfl

theorem pop_eq : h.pop.1 = h.stackByte (h.register .sp + 1) := by
  have read : h.pop.1 = (Bus.read h.bus (Cpu.stackAddress (h.register .sp + 1))).1 := rfl
  rw [read, SystemBus.read_low _ (Cpu.stackAddress_low _), stackByte]

@[simp] theorem stackByte_pop : h.pop.2.stackByte sp = h.stackByte sp := by
  simp only [stackByte, pop, Cpu.pop, SystemBus.read_memory]

theorem sp_pushed (bs : List UInt8) :
    (h.pushed bs).register .sp + UInt8.ofNat bs.length = h.register .sp := by
  induction bs with
  | nil => simp [pushed]
  | cons b bs ih =>
    rw [pushed, sp_push, ← ih, List.length_cons, UInt8.ofNat_add, UInt8.add_comm (.ofNat _),
      ← UInt8.add_assoc]
    exact congrArg (· + _) (UInt8.sub_add_cancel _ 1)

theorem sp_popped (n : Nat) : (h.popped n).register .sp = h.register .sp + UInt8.ofNat n := by
  induction n with
  | zero => simp [popped]
  | succ n ih =>
    rw [popped, sp_pop, ih, UInt8.ofNat_add, UInt8.add_assoc]
    rfl

theorem stackByte_popped (n : Nat) : (h.popped n).stackByte sp = h.stackByte sp := by
  induction n with
  | zero => rfl
  | succ n ih => rw [popped, stackByte_pop, ih]

end Bytes

/-- The bytes lie one after another above a stack pointer. -/
def Holds (h : Hardware) : UInt8 → List UInt8 → Prop
  | _, [] => True
  | sp, b :: bs => h.stackByte (sp + 1) = b ∧ h.Holds (sp + 1) bs

namespace Holds

variable {h h' : Hardware} {sp b : UInt8} {bs cs : List UInt8}

theorem congr (same : ∀ sp, h'.stackByte sp = h.stackByte sp) (held : h.Holds sp bs) :
    h'.Holds sp bs := by
  induction bs generalizing sp with
  | nil => trivial
  | cons b bs ih => exact ⟨(same _).trans held.1, ih held.2⟩

theorem append : h.Holds sp (bs ++ cs) ↔
    h.Holds sp bs ∧ h.Holds (sp + UInt8.ofNat bs.length) cs := by
  induction bs generalizing sp with
  | nil => simp [Holds]
  | cons b bs ih =>
    have onward : sp + 1 + UInt8.ofNat bs.length = sp + UInt8.ofNat (b :: bs).length := by
      rw [List.length_cons, UInt8.ofNat_add, UInt8.add_assoc, UInt8.add_comm 1]
      rfl
    rw [List.cons_append, Holds, Holds, ih, onward, and_assoc]

/-- A push does not reach the bytes that are held, if there are fewer than 256 from
the stack pointer on. -/
theorem beside (v : UInt8) (held : h.Holds sp bs) (above : h.register .sp + UInt8.ofNat n = sp)
    (room : n + bs.length < 256) : (h.push v).Holds sp bs := by
  induction bs generalizing sp n with
  | nil => trivial
  | cons b bs ih =>
    rw [List.length_cons] at room
    have next : h.register .sp + UInt8.ofNat (n + 1) = sp + 1 := by
      rw [← above, UInt8.ofNat_add, UInt8.add_assoc]
      rfl
    have apart : h.register .sp ≠ sp + 1 := by
      intro same
      rw [← next, UInt8.left_eq_add] at same
      have wrapped := congrArg UInt8.toNat same
      simp only [UInt8.toNat_ofNat', UInt8.reduceToNat] at wrapped
      omega
    refine ⟨?_, ih held.2 next (by omega)⟩
    rw [stackByte_push, if_neg apart]
    exact held.1

theorem push (v : UInt8) (held : h.Holds (h.register .sp) bs) (room : bs.length < 256) :
    (h.push v).Holds ((h.push v).register .sp) (v :: bs) := by
  have back : (h.push v).register .sp + 1 = h.register .sp := by
    rw [sp_push, UInt8.sub_add_cancel]
  rw [Holds, back]
  refine ⟨?_, held.beside v (n := 0) (by simp) (by omega)⟩
  rw [stackByte_push, if_pos rfl]

theorem pushed (held : h.Holds (h.register .sp) cs) (room : bs.length + cs.length ≤ 256) :
    (h.pushed bs).Holds ((h.pushed bs).register .sp) (bs ++ cs) := by
  induction bs with
  | nil => exact held
  | cons b bs ih =>
    rw [List.length_cons] at room
    exact (ih (by omega)).push b (by rw [List.length_append]; omega)

theorem pop (held : h.Holds (h.register .sp) (b :: bs)) :
    h.pop.1 = b ∧ h.pop.2.Holds (h.pop.2.register .sp) bs :=
  ⟨h.pop_eq.trans held.1, held.2.congr h.stackByte_pop⟩

end Holds

/-- Nothing has happened to the stack: not to its pointer, nor to a byte of its page. -/
structure SameStack (h h' : Hardware) : Prop where
  sp : h'.register .sp = h.register .sp
  bytes : ∀ sp, h'.stackByte sp = h.stackByte sp

/-- A write leaves the stack alone unless it goes to page 1 or a mirror of it. -/
theorem write_sameStack (h : Hardware) {a : UInt16} (outside : a < 0x2000 → a.toNat / 256 % 8 ≠ 1)
    (v : UInt8) : h.SameStack (h.write a v) := by
  have written : (h.write a v).bus = Bus.write h.bus a v := rfl
  refine ⟨rfl, fun sp => ?_⟩
  by_cases low : a < 0x2000
  · have apart : Memory.ramCell a ≠ Memory.ramCell (Cpu.stackAddress sp) := by
      have := sp.toNat_lt
      have := outside low
      rw [Ne, Fin.ext_iff]
      simp only [Memory.ramCell, Fin.ofNat, Cpu.toNat_stackAddress]
      omega
    rw [stackByte, written, SystemBus.write_low _ low,
      Memory.read_write _ low (Cpu.stackAddress_low _), if_neg apart, stackByte]
  · rw [stackByte, written, SystemBus.write_high _ low, stackByte]

/-- An interrupt pushes where to resume and a status byte, and enters the vector with
interrupts disabled. -/
def enter (h : Hardware) (resume : UInt16) (status : UInt8) (vector : UInt16) : Hardware :=
  let saved := h.pushed [status, lowByte resume, highByte resume]
  let (pc, entered) := (saved.setFlag .interruptDisable true).readWord vector
  entered.setPc pc

/-- The status is restored before the address to continue at is taken. -/
def restoreStatus (h : Hardware) : Hardware := h.pop.2.setStatus (.ofPopped h.pop.1)

section Transfers

variable (h : Hardware)

theorem call_eq (target : UInt16) :
    h.call target = (h.pushed [lowByte (h.pc - 1), highByte (h.pc - 1)]).setPc target := by
  simp only [call, Cpu.pushWord, pushed, push, setPc]

theorem nmi_eq : h.nmi = h.enter h.pc h.status.pushedByHardware Cpu.nmiVector := by
  simp only [nmi, Cpu.nmi, Cpu.interrupt, Cpu.enter, Cpu.pushWord, enter, pushed, push, setFlag,
    setStatus, readWord, setPc, pc, status]

/-- A request that is not ignored is an interrupt. -/
theorem irq_eq : h.irq = if h.flag .interruptDisable then (false, h)
    else (true, h.enter h.pc h.status.pushedByHardware Cpu.irqVector) := by
  have disabled : h.cpu.registers.status.get .interruptDisable = h.flag .interruptDisable := rfl
  rw [irq, Cpu.irq, disabled]
  cases h.flag .interruptDisable with
  | true => rfl
  | false =>
    simp only [Bool.false_eq_true, if_false, Cpu.interrupt, Cpu.enter, Cpu.pushWord, enter, pushed,
      push, setFlag, setStatus, readWord, setPc, pc, status]

theorem irq_taken (taken : h.irq.1 = true) :
    h.irq.2 = h.enter h.pc h.status.pushedByHardware Cpu.irqVector := by
  rw [irq_eq] at taken ⊢
  cases disabled : h.flag .interruptDisable with
  | true => simp [disabled] at taken
  | false => rfl

theorem irq_ignored (ignored : h.irq.1 = false) : h.irq.2 = h := by
  rw [irq_eq] at ignored ⊢
  cases disabled : h.flag .interruptDisable with
  | true => rfl
  | false => simp [disabled] at ignored

theorem softwareInterrupt_eq :
    h.softwareInterrupt = h.enter (h.pc + 2) h.status.pushedBySoftware Cpu.irqVector := by
  simp only [softwareInterrupt, Cpu.enter, Cpu.pushWord, enter, pushed, push, setFlag, setStatus,
    readWord, setPc, status]

theorem returnFromSubroutine_eq :
    h.returnFromSubroutine = (h.popped 2).setPc (word h.pop.1 h.pop.2.pop.1 + 1) := by
  simp only [returnFromSubroutine, Cpu.popWord, popped, pop, setPc]

theorem returnFromInterrupt_eq :
    h.returnFromInterrupt = (h.restoreStatus.popped 2).setPc
      (word h.restoreStatus.pop.1 h.restoreStatus.pop.2.pop.1) := by
  simp only [returnFromInterrupt, Cpu.popWord, restoreStatus, popped, pop, setStatus, setPc]

theorem enter_sameStack (resume : UInt16) (status : UInt8) (vector : UInt16) :
    (h.pushed [status, lowByte resume, highByte resume]).SameStack
      (h.enter resume status vector) := by
  constructor
  · simp only [enter, sp_setPc, sp_readWord, setFlag, sp_setStatus]
  · intro sp
    simp only [enter, stackByte_setPc, stackByte_readWord, setFlag, stackByte_setStatus]

end Transfers

/-- The return lands past an address that lies on top of the stack. -/
theorem returnFromSubroutine_pc
    {h : Hardware} (held : h.Holds (h.register .sp) [lowByte a, highByte a]) :
    h.returnFromSubroutine.pc = a + 1 := by
  obtain ⟨low, held⟩ := held.pop
  obtain ⟨high, _⟩ := held.pop
  have landed : h.returnFromSubroutine.pc = word h.pop.1 h.pop.2.pop.1 + 1 := by
    rw [h.returnFromSubroutine_eq]
    rfl
  rw [landed, low, high, word_bytes]

theorem returnFromInterrupt_pc
    {h : Hardware} (held : h.Holds (h.register .sp) [b, lowByte a, highByte a]) :
    h.returnFromInterrupt.pc = a ∧ h.returnFromInterrupt.status = .ofPopped b := by
  obtain ⟨status, held⟩ := held.pop
  have restored : h.restoreStatus.Holds (h.restoreStatus.register .sp) [lowByte a, highByte a] :=
    held.congr fun sp => stackByte_setStatus _ sp _
  obtain ⟨low, rest⟩ := restored.pop
  obtain ⟨high, _⟩ := rest.pop
  rw [h.returnFromInterrupt_eq]
  constructor
  · rw [low, high, word_bytes]
    rfl
  · rw [← status]
    rfl

end Hardware
end NesRoutine

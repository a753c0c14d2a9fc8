import NesRoutine.Proofs.Frame

/-! The program image never changes. Nothing that goes over the bus writes to it,
and so neither do the operations of the hardware and the steps of the processor, if
the code that is supplied from outside leaves it alone. -/
namespace NesRoutine

namespace Hardware

def prg (h : Hardware) : Array UInt8 := h.bus.memory.prg

/-- A write to memory goes to RAM or nowhere. -/
theorem prg_outOfReach : OutOfReach prg where
  cpu _ _ := rfl
  read h a := congrArg Memory.prg (h.bus.read_memory a)
  write h a v := by
    have written : (h.write a v).bus = Bus.write h.bus a v := rfl
    by_cases low : a < 0x2000
    · rw [prg, written, SystemBus.write_low _ low, Memory.write, if_pos low, prg]
    · rw [prg, written, SystemBus.write_high _ low, prg]

/-- What can be done to the hardware, the steps of the processor apart. -/
inductive Operation where
  | read (a : UInt16)
  | write (a : UInt16) (value : UInt8)
  | readWord (a : UInt16)
  | restoreCpu (registers : Registers)
  | restorePpu (state : Ppu.State)
  | push (value : UInt8)
  | pop
  | call (target : UInt16)
  | returnFromSubroutine
  | returnFromInterrupt
  | softwareInterrupt
  | jumpIndirect (pointer : UInt16)
  | nmi
  | irq
  | skip
  | stepPpu
  | takeFrameComplete
  | holdButtons (player : Nat) (buttons : UInt8)
  | reset

def Operation.apply (h : Hardware) : Operation → Hardware
  | read a => (h.read a).2
  | write a value => h.write a value
  | readWord a => (h.readWord a).2
  | restoreCpu registers => h.restoreCpu registers
  | restorePpu state => h.restorePpu state
  | push value => h.push value
  | pop => h.pop.2
  | call target => h.call target
  | returnFromSubroutine => h.returnFromSubroutine
  | returnFromInterrupt => h.returnFromInterrupt
  | softwareInterrupt => h.softwareInterrupt
  | jumpIndirect pointer => h.jumpIndirect pointer
  | nmi => h.nmi
  | irq => h.irq.2
  | skip => h.skip
  | stepPpu => h.stepPpu.2
  | takeFrameComplete => h.takeFrameComplete.2
  | holdButtons player buttons => h.holdButtons player buttons
  | reset => h.reset

theorem Operation.apply_prg (h : Hardware) (op : Operation) : (op.apply h).prg = h.prg := by
  have far := prg_outOfReach
  cases op with
  | read a => exact far.read h a
  | write a value => exact far.write h a value
  | readWord a => exact far.readWord h a
  | restoreCpu | restorePpu | stepPpu | takeFrameComplete => rfl
  | push value => exact far.push h value
  | pop => exact far.pop h
  | call target => exact far.call h target
  | returnFromSubroutine => exact far.returnFromSubroutine h
  | returnFromInterrupt => exact far.returnFromInterrupt h
  | softwareInterrupt => exact far.softwareInterrupt h
  | jumpIndirect pointer => exact far.jumpIndirect h pointer
  | nmi => exact far.nmi h
  | irq => exact far.irq h
  | skip => exact far.skip h
  | holdButtons player buttons =>
    simp only [apply, Hardware.holdButtons]
    split <;> rfl
  | reset => simp [apply, prg, Hardware.reset, Cpu.reset, Memory.reset]

end Hardware

/-- The hardware that some use of it leads to, from the program image on. The
processor may take its steps with any compiler that was used in any way, as long as
what is supplied to that from outside leaves the image alone. -/
inductive Hardware.Reachable (image : Array UInt8) : Hardware → Prop where
  | start : Reachable image (.ofPrg image)
  | operate (reached : Reachable image h) (op : Operation) : Reachable image (op.apply h)
  | step (reached : Reachable image h) {d : Dispatcher}
      (used : d.compiler.Reachable regions customizer debugger budget)
      (host : ∀ d ∈ debugger, d.Keeps prg) (custom : customizer.generators.Keeps prg) :
      Reachable image (d.step h).2.2

theorem Hardware.Reachable.prg_eq (reached : Reachable image h) : h.prg = image := by
  induction reached with
  | start => rfl
  | operate _ op ih => exact (op.apply_prg _).trans ih
  | step _ used host custom ih =>
    exact (Dispatcher.step_keeps prg_outOfReach used host custom _).trans ih

end NesRoutine

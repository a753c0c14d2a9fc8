import NesRoutine.Proofs.Stack

/-! The stack discipline. Pushes, calls and interrupts may be nested to any depth, as
long as their bytes fit on the stack page; what closes one of them then finds the
bytes that opened it. -/
namespace NesRoutine

/-- An operation that puts bytes on the stack for another to take off. -/
inductive Opening where
  | push (v : UInt8)
  | call (target : UInt16)
  | nmi
  | irq
  | softwareInterrupt

namespace Opening

def apply (h : Hardware) : Opening → Hardware
  | push v => h.push v
  | call target => h.call target
  | nmi => h.nmi
  | irq => h.irq.2
  | softwareInterrupt => h.softwareInterrupt

/-- An interrupt request may be ignored; all else is done. -/
def Taken (h : Hardware) : Opening → Prop
  | irq => h.irq.1 = true
  | _ => True

/-- How many bytes it puts on the stack. -/
def size : Opening → Nat
  | push _ => 1
  | call _ => 2
  | nmi | irq | softwareInterrupt => 3

/-- The operation that takes the bytes off. -/
def close (h : Hardware) : Opening → Hardware
  | push _ => h.pop.2
  | call _ => h.returnFromSubroutine
  | nmi | irq | softwareInterrupt => h.returnFromInterrupt

theorem close_sameStack (o : Opening) (h : Hardware) : (h.popped o.size).SameStack (o.close h) := by
  cases o with
  | push v => exact ⟨rfl, fun _ => rfl⟩
  | call target =>
    rw [close, h.returnFromSubroutine_eq]
    exact ⟨rfl, fun _ => rfl⟩
  | nmi | irq | softwareInterrupt =>
    rw [close, h.returnFromInterrupt_eq]
    constructor
    · rw [Hardware.sp_setPc, Hardware.sp_popped, Hardware.restoreStatus, Hardware.sp_setStatus,
        Hardware.sp_pop, h.sp_popped, UInt8.add_assoc]
      rfl
    · intro sp
      rw [Hardware.stackByte_setPc, Hardware.stackByte_popped, Hardware.restoreStatus,
        Hardware.stackByte_setStatus, Hardware.stackByte_pop, h.stackByte_popped]

end Opening

/-- An opening operation that has not been closed yet, and the hardware before it. -/
structure Pending where
  opening : Opening
  before : Hardware

namespace Pending

/-- What lies on the stack for it, from the top down. -/
def bytes (p : Pending) : List UInt8 :=
  match p.opening with
  | .push v => [v]
  | .call _ => [lowByte (p.before.pc - 1), highByte (p.before.pc - 1)]
  | .nmi | .irq =>
    [p.before.status.pushedByHardware, lowByte p.before.pc, highByte p.before.pc]
  | .softwareInterrupt =>
    [p.before.status.pushedBySoftware, lowByte (p.before.pc + 2), highByte (p.before.pc + 2)]

/-- Closing it on this hardware brings back what there was before it. -/
def RestoredOn (p : Pending) (h : Hardware) : Prop :=
  let closed := p.opening.close h
  let status := (p.before.status.set .brk false).set .unused true
  closed.register .sp = p.before.register .sp ∧
    match p.opening with
    | .push v => h.pop.1 = v
    | .call _ => closed.pc = p.before.pc
    | .nmi | .irq => closed.pc = p.before.pc ∧ closed.status = status
    | .softwareInterrupt => closed.pc = p.before.pc + 2 ∧ closed.status = status

variable {p : Pending} {h : Hardware}

theorem length_bytes (p : Pending) : p.bytes.length = p.opening.size := by
  obtain ⟨opening, before⟩ := p
  cases opening <;> rfl

theorem open_sameStack {o : Opening} (taken : o.Taken h) :
    (h.pushed (bytes ⟨o, h⟩)).SameStack (o.apply h) := by
  cases o with
  | push v => exact ⟨rfl, fun _ => rfl⟩
  | call target =>
    rw [Opening.apply, h.call_eq]
    exact ⟨rfl, fun _ => rfl⟩
  | nmi =>
    rw [Opening.apply, h.nmi_eq]
    exact h.enter_sameStack _ _ _
  | irq =>
    rw [Opening.apply, h.irq_taken taken]
    exact h.enter_sameStack _ _ _
  | softwareInterrupt =>
    rw [Opening.apply, h.softwareInterrupt_eq]
    exact h.enter_sameStack _ _ _

/-- What is closed finds its bytes, and so all that they stand for. -/
theorem restoredOn (held : h.Holds (h.register .sp) p.bytes)
    (back : p.before.register .sp = h.register .sp + UInt8.ofNat p.opening.size) :
    p.RestoredOn h := by
  constructor
  · rw [back, (p.opening.close_sameStack h).sp, h.sp_popped]
  · obtain ⟨opening, before⟩ := p
    have status := before.status.ofPopped_pushed
    cases opening with
    | push v => exact held.pop.1
    | call target =>
      exact (Hardware.returnFromSubroutine_pc held).trans (UInt16.sub_add_cancel _ 1)
    | nmi | irq =>
      obtain ⟨pc, popped⟩ := Hardware.returnFromInterrupt_pc held
      exact ⟨pc, popped.trans status.1⟩
    | softwareInterrupt =>
      obtain ⟨pc, popped⟩ := Hardware.returnFromInterrupt_pc held
      exact ⟨pc, popped.trans status.2⟩

end Pending

/-- How many bytes on the stack wait to be taken off. -/
def openBytes (ps : List Pending) : Nat := (ps.map (·.opening.size)).sum

/-- A well-nested run has come to this hardware, with these operations pending, the
last first. At no time are more than 256 bytes open. What happens in between may
change anything but the stack. -/
inductive Nested (first : Hardware) : List Pending → Hardware → Prop where
  | start : Nested first [] first
  | opened (nested : Nested first ps h) (o : Opening) (taken : o.Taken h)
      (room : o.size + openBytes ps ≤ 256) : Nested first (⟨o, h⟩ :: ps) (o.apply h)
  | closed (nested : Nested first (p :: ps) h) : Nested first ps (p.opening.close h)
  | aside (nested : Nested first ps h) (same : h.SameStack h') : Nested first ps h'

namespace Nested

theorem length_bytes (ps : List Pending) : (ps.flatMap Pending.bytes).length = openBytes ps := by
  rw [List.length_flatMap, openBytes]
  exact congrArg List.sum (List.map_congr_left fun p _ => p.length_bytes)

/-- Each pending operation began where the one before it had left the stack pointer. -/
def Chained : UInt8 → List Pending → Prop
  | _, [] => True
  | sp, p :: ps =>
    p.before.register .sp = sp + UInt8.ofNat p.opening.size ∧ Chained (p.before.register .sp) ps

/-- The stack holds the bytes of all that is pending, one after another, and each
operation finds its own on top once those after it are closed. -/
structure Intact (ps : List Pending) (h : Hardware) : Prop where
  fits : openBytes ps ≤ 256
  held : h.Holds (h.register .sp) (ps.flatMap Pending.bytes)
  chained : Chained (h.register .sp) ps

namespace Intact

variable {p : Pending} {ps : List Pending} {h h' : Hardware}

theorem aside (intact : Intact ps h) (same : h.SameStack h') : Intact ps h' := by
  obtain ⟨fits, held, chained⟩ := intact
  constructor
  · exact fits
  · rw [same.sp]
    exact held.congr same.bytes
  · rw [same.sp]
    exact chained

theorem opened (intact : Intact ps h) {o : Opening} (taken : o.Taken h)
    (room : o.size + openBytes ps ≤ 256) : Intact (⟨o, h⟩ :: ps) (o.apply h) := by
  have size := Pending.length_bytes ⟨o, h⟩
  have space : (Pending.bytes ⟨o, h⟩).length + (ps.flatMap Pending.bytes).length ≤ 256 := by
    rw [size, length_bytes]
    exact room
  have sp := h.sp_pushed (Pending.bytes ⟨o, h⟩)
  rw [size] at sp
  refine aside ⟨room, ?_, ?_⟩ (Pending.open_sameStack taken)
  · exact intact.held.pushed space
  · exact ⟨sp.symm, intact.chained⟩

theorem closed (intact : Intact (p :: ps) h) : Intact ps (p.opening.close h) := by
  obtain ⟨fits, held, back, chained⟩ := intact
  have sp : (h.popped p.opening.size).register .sp = p.before.register .sp := by
    rw [h.sp_popped, back]
  obtain ⟨_, rest⟩ := Hardware.Holds.append.mp held
  rw [p.length_bytes, ← back] at rest
  refine aside ⟨?_, ?_, ?_⟩ (p.opening.close_sameStack h)
  · rw [openBytes, List.map_cons, List.sum_cons] at fits
    exact Nat.le_trans (Nat.le_add_left _ _) fits
  · rw [sp]
    exact rest.congr fun s => h.stackByte_popped s _
  · rw [sp]
    exact chained

end Intact

theorem intact (nested : Nested first ps h) : Intact ps h := by
  induction nested with
  | start => exact ⟨Nat.zero_le _, trivial, trivial⟩
  | opened _ o taken room ih => exact ih.opened taken room
  | closed _ ih => exact ih.closed
  | aside _ same ih => exact ih.aside same

/-- Whatever has been opened and closed since, closing an operation restores the
stack pointer that there was before it, and what it saved on the stack. -/
theorem closing_restores (nested : Nested first (p :: ps) h) : p.RestoredOn h := by
  obtain ⟨_, held, back, _⟩ := nested.intact
  exact Pending.restoredOn (Hardware.Holds.append.mp held).1 back

/-- An interrupt whose bytes wrap around the stack page, and in it a write to RAM, a
call and a push. -/
theorem closing_restores_wrapped :
    let first := ({} : Hardware).setRegister .sp 1
    let written := first.nmi.write 0x0A00 7
    let called := written.call 0x9000
    let pushed := called.push 0x42
    Nested first [⟨.push 0x42, called⟩, ⟨.call 0x9000, written⟩, ⟨.nmi, first⟩] pushed ∧
      Pending.RestoredOn ⟨.push 0x42, called⟩ pushed ∧
      Pending.RestoredOn ⟨.call 0x9000, written⟩ pushed.pop.2 ∧
      Pending.RestoredOn ⟨.nmi, first⟩ pushed.pop.2.returnFromSubroutine := by
  intro first written called pushed
  have begun : Nested first [] first := .start
  have interrupted := begun.opened .nmi trivial (by decide)
  have aside := interrupted.aside (first.nmi.write_sameStack (a := 0x0A00) (by decide) 7)
  have nested := aside.opened (.call 0x9000) trivial (by decide)
    |>.opened (.push 0x42) trivial (by decide)
  exact ⟨nested, nested.closing_restores, nested.closed.closing_restores,
    nested.closed.closed.closing_restores⟩

end Nested
end NesRoutine

import NesRoutine.Proofs.Coherence
import NesRoutine.Proofs.Image
import NesRoutine.Proofs.Refinement
import NesRoutine.Proofs.Stack

/-! The break bit and the unused bit exist only on the stack. In the processor the one
is always clear and the other set, whatever byte a status is pulled from; on the stack
the break bit tells who pushed the byte. -/
namespace NesRoutine

namespace Status

/-- The two bits as they are in the processor. -/
def IsLive (s : Status) : Prop := s.get .brk = false ∧ s.get .unused = true

/-- The two bits of a byte whose unused bit is set. -/
theorem stack_bits (b : UInt8) (brk : Bool) :
    b &&& 0x30 = (if brk then 0x30 else 0x20) ↔ get ⟨b⟩ .brk = brk ∧ get ⟨b⟩ .unused = true := by
  have masked (f : Flag) :
      get ⟨b &&& 0x30⟩ f = (get ⟨b⟩ f && (decide (f = .brk) || decide (f = .unused))) := by
    rw [get_and]
    cases f <;> rfl
  have chosen (f : Flag) :
      get ⟨if brk then 0x30 else 0x20⟩ f = (decide (f = .brk) && brk || decide (f = .unused)) := by
    cases brk <;> cases f <;> rfl
  constructor
  · intro same
    have flags (f : Flag) := congrArg (get ⟨·⟩ f) same
    simp only [masked, chosen] at flags
    exact ⟨by simpa using flags .brk, by simpa using flags .unused⟩
  · rintro ⟨first, second⟩
    refine mk.inj (ext_get fun f => ?_)
    rw [masked, chosen]
    cases f <;> simp [first, second]

/-- Hardware pushes the status without the break bit. -/
theorem pushedByHardware_bits (s : Status) : s.pushedByHardware &&& 0x30 = 0x20 := by
  refine (stack_bits _ false).mpr ?_
  rw [pushedByHardware_eq]
  constructor
  · simp
  · simp

theorem pushedBySoftware_bits (s : Status) : s.pushedBySoftware &&& 0x30 = 0x30 := by
  refine (stack_bits _ true).mpr ?_
  rw [pushedBySoftware_eq]
  constructor
  · simp
  · simp

namespace IsLive

variable {s : Status} {f : Flag}

theorem initial : Status.initial.IsLive := ⟨by decide, by decide⟩

theorem bits (live : s.IsLive) : s.bits &&& 0x30 = 0x20 := (stack_bits s.bits false).mpr live

/-- Every other flag may be set or cleared. -/
theorem set (live : s.IsLive) (notBreak : f ≠ .brk) (notUnused : f ≠ .unused) (on : Bool) :
    (s.set f on).IsLive := by
  obtain ⟨brk, unused⟩ := live
  constructor
  · rw [get_set, if_neg notBreak, brk]
  · rw [get_set, if_neg notUnused, unused]

theorem ofPopped (b : UInt8) : (Status.ofPopped b).IsLive := by
  rw [ofPopped_eq]
  constructor
  · simp
  · simp

end IsLive
end Status

namespace Interpreter

/-- The action leaves the two bits as they are in the processor. -/
def Machine.KeepsLive (m : Machine α) : Prop := ∀ h, h.status.IsLive → (m h).2.status.IsLive

namespace Machine.KeepsLive

variable {f : Flag}

theorem of_same {m : Machine α} (same : ∀ h, (m h).2.status = h.status) : KeepsLive m := by
  intro h live
  rw [same]
  exact live

theorem bind {m : Machine α} {k : α → Machine β} (first : KeepsLive m)
    (rest : ∀ a, KeepsLive (k a)) : KeepsLive (m >>= k) := by
  intro h live
  exact rest _ _ (first h live)

theorem pure (a : α) : KeepsLive (pure a : Machine α) := of_same fun _ => rfl

theorem read (a : UInt16) : KeepsLive (Machine.read a) := of_same fun _ => rfl

theorem write (a : UInt16) (v : UInt8) : KeepsLive (Machine.write a v) := of_same fun _ => rfl

theorem register (r : Register) : KeepsLive (Machine.register r) := of_same fun _ => rfl

theorem setRegister (r : Register) (v : UInt8) : KeepsLive (Machine.setRegister r v) :=
  of_same fun _ => by cases r <;> rfl

theorem flag (f : Flag) : KeepsLive (Machine.flag f) := of_same fun _ => rfl

theorem status : KeepsLive Machine.status := of_same fun _ => rfl

theorem pc : KeepsLive Machine.pc := of_same fun _ => rfl

theorem setPc (a : UInt16) : KeepsLive (Machine.setPc a) := of_same fun _ => rfl

theorem setFlag (notBreak : f ≠ .brk) (notUnused : f ≠ .unused) (on : Bool) :
    KeepsLive (Machine.setFlag f on) := by
  intro h live
  exact live.set notBreak notUnused on

theorem push (v : UInt8) : KeepsLive (Machine.push v) :=
  (register _).bind fun _ => (write _ _).bind fun _ => setRegister _ _

theorem pull : KeepsLive Machine.pull :=
  (register _).bind fun _ => (setRegister _ _).bind fun _ => read _

theorem pushWord (v : UInt16) : KeepsLive (Machine.pushWord v) := (push _).bind fun _ => push _

theorem pullWord : KeepsLive Machine.pullWord := pull.bind fun _ => pull.bind fun _ => .pure _

theorem describe (v : UInt8) : KeepsLive (Machine.describe v) :=
  (setFlag (by decide) (by decide) _).bind fun _ => setFlag (by decide) (by decide) _

theorem pointer (p : UInt8) : KeepsLive (Machine.pointer p) :=
  (read _).bind fun _ => (read _).bind fun _ => .pure _

end Machine.KeepsLive

open Machine (KeepsLive)
open Machine.KeepsLive

theorem keepsLive_address (i : Instruction) : KeepsLive (address i) := by
  simp only [address]
  split
  · exact .pure _
  · exact (register _).bind fun _ => .pure _
  · exact (register _).bind fun _ => .pure _
  · exact (register _).bind fun _ => .pure _
  · exact (register _).bind fun _ => .pure _
  · exact (register _).bind fun _ => pointer _
  · exact (register _).bind fun _ => (pointer _).bind fun _ => .pure _
  · exact .pure _

theorem keepsLive_operand (i : Instruction) : KeepsLive (operand i) := by
  simp only [operand]
  split
  · exact register _
  · exact register _
  · exact .pure _
  · exact .pure _
  · exact (keepsLive_address i).bind fun _ => read _

theorem keepsLive_load (r : Register) (v : UInt8) : KeepsLive (load r v) :=
  (setRegister _ _).bind fun _ => describe _

theorem keepsLive_store (i : Instruction) (v : UInt8) : KeepsLive (store i v) :=
  (keepsLive_address i).bind fun _ => write _ _

theorem keepsLive_update (i : Instruction) {f : UInt8 → Machine UInt8}
    (keeps : ∀ v, KeepsLive (f v)) : KeepsLive (update i f) := by
  simp only [update]
  split
  · exact (register _).bind fun _ => (keeps _).bind fun _ => setRegister _ _
  · exact (keepsLive_address i).bind fun _ => (read _).bind fun _ => (keeps _).bind fun _ =>
      write _ _

theorem keepsLive_add (m : UInt8) : KeepsLive (add m) :=
  (register _).bind fun _ => (flag _).bind fun _ => (setFlag (by decide) (by decide) _).bind
    fun _ => (setFlag (by decide) (by decide) _).bind fun _ => keepsLive_load _ _

theorem keepsLive_compare (value m : UInt8) : KeepsLive (compare value m) :=
  (setFlag (by decide) (by decide) _).bind fun _ => describe _

theorem keepsLive_bitTest (m : UInt8) : KeepsLive (bitTest m) :=
  (register _).bind fun _ => (setFlag (by decide) (by decide) _).bind fun _ =>
    (setFlag (by decide) (by decide) _).bind fun _ => setFlag (by decide) (by decide) _

theorem keepsLive_shiftUp (low : Bool) (v : UInt8) : KeepsLive (shiftUp low v) :=
  (setFlag (by decide) (by decide) _).bind fun _ => (describe _).bind fun _ => .pure _

theorem keepsLive_shiftDown (high : Bool) (v : UInt8) : KeepsLive (shiftDown high v) :=
  (setFlag (by decide) (by decide) _).bind fun _ => (describe _).bind fun _ => .pure _

theorem keepsLive_branch (i : Instruction) (f : Flag) (on : Bool) :
    KeepsLive (branch i f on) := by
  refine (flag f).bind fun set => ?_
  split
  · exact pc.bind fun _ => setPc _
  · exact .pure _

/-- Whatever the byte, what comes of it is live. -/
theorem keepsLive_pullStatus : KeepsLive pullStatus := by
  intro h _
  rw [pullStatus_eq]
  exact .ofPopped _

theorem keepsLive_execute (i : Instruction) : KeepsLive (execute i) := by
  have operand := keepsLive_operand i
  cases mnemonic : i.mnemonic <;> simp only [execute, mnemonic]
  case adc => exact operand.bind keepsLive_add
  case sbc =>
    exact operand.bind fun m => subtract_eq m ▸ keepsLive_add _
  case and | ora | eor =>
    exact (register _).bind fun _ => operand.bind fun _ => keepsLive_load _ _
  case asl => exact keepsLive_update i (keepsLive_shiftUp false)
  case lsr => exact keepsLive_update i (keepsLive_shiftDown false)
  case rol => exact keepsLive_update i fun _ => (flag _).bind fun _ => keepsLive_shiftUp _ _
  case ror => exact keepsLive_update i fun _ => (flag _).bind fun _ => keepsLive_shiftDown _ _
  case inc | dec => exact keepsLive_update i fun _ => (describe _).bind fun _ => .pure _
  case bit => exact operand.bind keepsLive_bitTest
  case bcc | bcs | bne | beq | bpl | bmi | bvc | bvs => exact keepsLive_branch i _ _
  case clc | sec | cld | sed | cli | sei | clv => exact setFlag (by decide) (by decide) _
  case cmp | cpx | cpy =>
    exact (register _).bind fun _ => operand.bind fun _ => keepsLive_compare _ _
  case inx | iny | dex | dey | tax | tay | txa | tya | tsx =>
    exact (register _).bind fun _ => keepsLive_load _ _
  case lda | ldx | ldy => exact operand.bind fun _ => keepsLive_load _ _
  case sta | stx | sty => exact (register _).bind fun _ => keepsLive_store i _
  case txs => exact (register _).bind fun _ => setRegister _ _
  case pha => exact (register _).bind fun _ => push _
  case php => exact status.bind fun _ => push _
  case pla => exact pull.bind fun _ => keepsLive_load _ _
  case plp => exact keepsLive_pullStatus
  case nop => exact .pure _
  case jmp =>
    split
    · exact (read _).bind fun _ => (read _).bind fun _ => setPc _
    · exact setPc _
  case jsr => exact pc.bind fun _ => (pushWord _).bind fun _ => setPc _
  case rts => exact pullWord.bind fun _ => setPc _
  case rti => exact keepsLive_pullStatus.bind fun _ => pullWord.bind fun _ => setPc _
  case brk =>
    exact pc.bind fun _ => (pushWord _).bind fun _ => status.bind fun _ => (push _).bind fun _ =>
      (setFlag (by decide) (by decide) _).bind fun _ => (read _).bind fun _ =>
      (read _).bind fun _ => setPc _

theorem step_live {regions : List CodeRegion} {h : Hardware} (live : h.status.IsLive) :
    match step regions h with
    | .running h' | .stopped h' => h'.status.IsLive
    | .undecodable _ => True := by
  rw [step]
  cases decodeAt regions h.pc with
  | error cause => trivial
  | ok i =>
    have kept := keepsLive_execute i (h.setPc i.next) live
    dsimp only
    cases leaves i with
    | true => exact kept
    | false => exact kept

theorem run_live {regions : List CodeRegion} {h h' : Hardware} (live : h.status.IsLive)
    (stopped : run regions n h = .stopped h') : h'.status.IsLive := by
  induction n generalizing h with
  | zero => cases stopped
  | succ n ih =>
    have kept := @step_live regions h live
    rw [run] at stopped
    cases stepped : step regions h with
    | running next =>
      rw [stepped] at kept stopped
      exact ih kept stopped
    | stopped last =>
      rw [stepped] at kept stopped
      cases stopped
      exact kept
    | undecodable cause =>
      rw [stepped] at stopped
      cases stopped

end Interpreter

namespace CodeUnit.IsCompiled

variable {regions : List CodeRegion} {a : UInt16} {u : CodeUnit} {debugger : Option Debugger}

/-- What a run that comes to its end leaves, the interpreter leaves too. -/
theorem interpreted (compiled : IsCompiled regions a u) {h : Hardware}
    (ended : (u.invoke debugger fuel h).1 ≠ .exhausted) :
    ∃ n, Interpreter.run regions n (h.setPc a) =
      .stopped (u.invoke debugger fuel h).2.hardware := by
  obtain ⟨r, discovered, generated⟩ := compiled
  have exact := Routine.discover_exact discovered
  obtain ⟨u', generated', linked⟩ := exact.linked
  cases generated.symm.trans generated'
  have start : r.position a = 0 := exact.entry_eq ▸ linked.start
  rw [invoke, ← start] at ended ⊢
  obtain ⟨s, n, exits, stops⟩ := Routine.runFrom_outcome exact linked .entry _ fuel ended
  rw [exits]
  exact ⟨n, stops⟩

theorem invoke_live (compiled : IsCompiled regions a u) {h : Hardware} (live : h.status.IsLive)
    (ended : (u.invoke debugger fuel h).1 ≠ .exhausted) :
    (u.invoke debugger fuel h).2.hardware.status.IsLive := by
  obtain ⟨n, stops⟩ := compiled.interpreted ended
  exact Interpreter.run_live (h := h.setPc a) live stops

end CodeUnit.IsCompiled

namespace Hardware

section Operations

variable {h : Hardware}

theorem enter_live (live : h.status.IsLive) (resume : UInt16) (status : UInt8) (vector : UInt16) :
    (h.enter resume status vector).status.IsLive := by
  have set : (h.enter resume status vector).status = h.status.set .interruptDisable true := rfl
  rw [set]
  exact live.set (by decide) (by decide) true

/-- The processor's registers apart, nothing can be done to the hardware that makes
its status another than a live one. -/
theorem Operation.apply_live (op : Operation) (own : ∀ registers, op ≠ .restoreCpu registers)
    (live : h.status.IsLive) : (op.apply h).status.IsLive := by
  cases op with
  | restoreCpu registers => exact absurd rfl (own registers)
  | read | write | readWord | restorePpu | push | pop | call | returnFromSubroutine
  | jumpIndirect | skip | stepPpu | takeFrameComplete => exact live
  | returnFromInterrupt =>
    rw [apply, h.returnFromInterrupt_eq]
    exact .ofPopped h.pop.1
  | softwareInterrupt =>
    rw [apply, h.softwareInterrupt_eq]
    exact enter_live live _ _ _
  | nmi =>
    rw [apply, h.nmi_eq]
    exact enter_live live _ _ _
  | irq =>
    cases taken : h.irq.1 with
    | true =>
      rw [apply, h.irq_taken taken]
      exact enter_live live _ _ _
    | false =>
      rw [apply, h.irq_ignored taken]
      exact live
  | holdButtons player buttons =>
    have same : (h.holdButtons player buttons).status = h.status := by
      simp only [Hardware.holdButtons]
      split <;> rfl
    rw [apply, same]
    exact live
  | reset =>
    have same : h.reset.status = .initial := rfl
    rw [apply, same]
    exact .initial

end Operations

/-- The hardware after some use of it in which nobody but the processor writes the
status register. Units may come from any regions, and are run to their end. -/
inductive Operated : Hardware → Prop where
  | start (image : Array UInt8) : Operated (.ofPrg image)
  | operate (before : Operated h) (op : Operation) (own : ∀ registers, op ≠ .restoreCpu registers) :
      Operated (op.apply h)
  | setPc (before : Operated h) (a : UInt16) : Operated (h.setPc a)
  | setRegister (before : Operated h) (r : Register) (v : UInt8) : Operated (h.setRegister r v)
  | invoke (before : Operated h) (compiled : CodeUnit.IsCompiled regions a u)
      (ended : (u.invoke debugger fuel h).1 ≠ .exhausted) :
      Operated (u.invoke debugger fuel h).2.hardware

theorem Operated.live (operated : Operated h) : h.status.IsLive := by
  induction operated with
  | start image => exact .initial
  | operate _ op own ih => exact op.apply_live own ih
  | setPc _ a ih => exact ih
  | setRegister _ r v ih => cases r <;> exact ih
  | invoke _ compiled ended ih => exact compiled.invoke_live ih ended

/-- The byte that was pushed last. -/
def top (h : Hardware) : UInt8 := h.stackByte (h.register .sp + 1)

theorem top_push (h : Hardware) (v : UInt8) : (h.push v).top = v := by
  rw [top, sp_push, UInt8.sub_add_cancel, stackByte_push, if_pos rfl]

theorem SameStack.top {h h' : Hardware} (same : h.SameStack h') : h'.top = h.top := by
  rw [Hardware.top, same.sp, same.bytes, Hardware.top]

theorem top_enter (h : Hardware) (resume : UInt16) (status : UInt8) (vector : UInt16) :
    (h.enter resume status vector).top = status :=
  (h.enter_sameStack resume status vector).top.trans (top_push _ _)

theorem top_nmi (h : Hardware) : h.nmi.top &&& 0x30 = 0x20 := by
  rw [h.nmi_eq, top_enter]
  exact h.status.pushedByHardware_bits

theorem top_irq (h : Hardware) (taken : h.irq.1 = true) : h.irq.2.top &&& 0x30 = 0x20 := by
  rw [h.irq_taken taken, top_enter]
  exact h.status.pushedByHardware_bits

theorem top_softwareInterrupt (h : Hardware) : h.softwareInterrupt.top &&& 0x30 = 0x30 := by
  rw [h.softwareInterrupt_eq, top_enter]
  exact h.status.pushedBySoftware_bits

end Hardware

namespace Routine
open Interpreter.Machine

variable {regions : List CodeRegion} {entry : UInt16} {r : Routine} {u : CodeUnit}
  {debugger : Option Debugger} {i : Instruction}

/-- A run that comes to a `PHP` comes past it, with the status on the stack. -/
theorem advances_php (exact : Exact regions entry r) (linked : r.Linked u)
    (member : i ∈ r.instructions) (php : i.mnemonic = .php) (s : Run) :
    ∃ b s', r.Advances u debugger i.address s b s' ∧
      s'.hardware.register .sp = s.hardware.register .sp - 1 ∧
      s'.hardware.top &&& 0x30 = 0x30 := by
  obtain ⟨reached, decoded⟩ := exact.decoded member
  have stays : Interpreter.leaves i = false := by simp only [Interpreter.leaves, php]
  have executed : Interpreter.execute i = (do push ((← status) ||| 0x30)) := by
    simp only [Interpreter.execute, php]
  have stepped : Interpreter.step regions (s.hardware.setPc i.address) =
      .running ((s.hardware.setPc i.next).push s.hardware.status.pushedBySoftware) := by
    rw [Interpreter.step_ok decoded, stays, executed, if_neg Bool.false_ne_true, bind_apply,
      status_apply, Interpreter.push_eq]
    rfl
  rcases @step_simulated regions entry r u debugger i.address exact linked reached s with
    ⟨_, _, stops⟩ | ⟨b, s', _, advances, runs⟩
  · cases stepped.symm.trans stops
  · have pushed := Interpreter.Progress.running.inj (runs.symm.trans stepped)
    have top : s'.hardware.top = s.hardware.status.pushedBySoftware :=
      (congrArg Hardware.top pushed).trans (Hardware.top_push _ _)
    refine ⟨b, s', advances, congrArg (·.register .sp) pushed, ?_⟩
    rw [top]
    exact s.hardware.status.pushedBySoftware_bits

/-- A run that comes to a `BRK` leaves the unit, with the status on the stack. -/
theorem exits_brk (exact : Exact regions entry r) (linked : r.Linked u)
    (member : i ∈ r.instructions) (brk : i.mnemonic = .brk) (s : Run) :
    ∃ s', (∀ fuel, u.runFrom debugger (fuel + 1) (r.position i.address) s = (.exited, s')) ∧
      s'.hardware.top &&& 0x30 = 0x30 := by
  obtain ⟨reached, decoded⟩ := exact.decoded member
  have stops : Interpreter.leaves i = true := by simp only [Interpreter.leaves, brk]
  have executed : Interpreter.execute i = Interpreter.softwareInterrupt := by
    simp only [Interpreter.execute, brk]
  have interrupted := Interpreter.softwareInterrupt_eq (i.next - 1) s.hardware
  have stepped : Interpreter.step regions (s.hardware.setPc i.address) =
      .stopped (s.hardware.setPc (i.next - 1)).softwareInterrupt := by
    rw [UInt16.sub_add_cancel] at interrupted
    rw [Interpreter.step_ok decoded, stops, executed, if_pos rfl, interrupted]
  rcases @step_simulated regions entry r u debugger i.address exact linked reached s with
    ⟨s', exits, left⟩ | ⟨_, _, _, _, runs⟩
  · refine ⟨s', exits, ?_⟩
    rw [Interpreter.Progress.stopped.inj (left.symm.trans stepped)]
    exact Hardware.top_softwareInterrupt _
  · cases stepped.symm.trans runs

end Routine

/-- The break bit is clear and the unused bit set in the processor, after any use of the
hardware. A status byte on the stack has the unused bit set, and the break bit if it was
pushed by an instruction: where a run of a unit comes to a `PHP` or a `BRK`, the byte is
on top of the stack when it has passed it. -/
theorem status_bits :
    (∀ h, Hardware.Operated h → h.status.bits &&& 0x30 = 0x20) ∧
      (∀ h : Hardware, h.nmi.top &&& 0x30 = 0x20 ∧
        (h.irq.1 = true → h.irq.2.top &&& 0x30 = 0x20) ∧
        h.softwareInterrupt.top &&& 0x30 = 0x30) ∧
      ∀ regions entry r u, Routine.discover regions entry = .ok r →
        CodeUnit.generate (fun _ => none) entry r.lower = .ok u →
        ∀ i ∈ r.instructions, ∀ (debugger : Option Debugger) (s : Run),
          (i.mnemonic = .php → ∃ b s', r.Advances u debugger i.address s b s' ∧
            s'.hardware.register .sp = s.hardware.register .sp - 1 ∧
            s'.hardware.top &&& 0x30 = 0x30) ∧
          (i.mnemonic = .brk → ∃ s',
            (∀ fuel, u.runFrom debugger (fuel + 1) (r.position i.address) s = (.exited, s')) ∧
            s'.hardware.top &&& 0x30 = 0x30) := by
  refine ⟨?_, ?_, ?_⟩
  · intro h operated
    exact operated.live.bits
  · intro h
    exact ⟨h.top_nmi, h.top_irq, h.top_softwareInterrupt⟩
  · intro regions entry r u discovered generated i member debugger s
    have exact := Routine.discover_exact discovered
    obtain ⟨u', generated', linked⟩ := exact.linked
    cases generated.symm.trans generated'
    exact ⟨fun php => Routine.advances_php exact linked member php s,
      fun brk => Routine.exits_brk exact linked member brk s⟩

/-- A return from interrupt that takes its status from a byte with all bits set. -/
theorem status_bits_pulled :
    ∃ u, CodeUnit.IsCompiled [⟨0x8000, #[0x40]⟩] 0x8000 u ∧
      let ending := u.invoke none 1 ((Hardware.ofPrg #[]).push 0xFF)
      ending.1 = .exited ∧ ending.2.hardware.status.bits &&& 0x30 = 0x20 := by
  have operated := Hardware.Operated.start #[] |>.operate (.push 0xFF) (by simp)
  rw [Hardware.Operation.apply] at operated
  generalize (Hardware.ofPrg #[]).push 0xFF = h at operated ⊢
  have ok : (Routine.discover [⟨0x8000, #[0x40]⟩] 0x8000).toBool = true := by decide +kernel
  cases discovered : Routine.discover [⟨0x8000, #[0x40]⟩] 0x8000 with
  | error e =>
    rw [discovered] at ok
    cases ok
  | ok r =>
    have exact := Routine.discover_exact discovered
    obtain ⟨u, generated, linked⟩ := exact.linked
    have start : r.position 0x8000 = 0 := exact.entry_eq ▸ linked.start
    have leaves : (decodeAt [⟨0x8000, #[0x40]⟩] 0x8000).toOption.map Interpreter.leaves =
        some true := by decide +kernel
    cases decoded : decodeAt [⟨0x8000, #[0x40]⟩] 0x8000 with
    | error e => simp [decoded, Except.toOption] at leaves
    | ok i =>
      rw [decoded] at leaves
      have stepped := Interpreter.step_ok (h := h) decoded
      rw [Option.some.inj leaves, if_pos rfl] at stepped
      rcases @Routine.step_simulated _ _ _ _ none _ exact linked .entry { hardware := h } with
        ⟨s, exits, _⟩ | ⟨_, _, _, _, runs⟩
      · rw [start] at exits
        have compiled : CodeUnit.IsCompiled _ 0x8000 u := ⟨r, discovered, generated⟩
        have ended : (u.invoke none 1 h).1 = .exited := congrArg Prod.fst (exits 0)
        have bits := status_bits.1 _ (operated.invoke compiled (by rw [ended]; decide))
        exact ⟨u, compiled, ended, bits⟩
      · cases stepped.symm.trans runs

end NesRoutine

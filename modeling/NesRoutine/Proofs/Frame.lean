import NesRoutine.Dispatcher
import NesRoutine.Proofs.Growth
import NesRoutine.Proofs.Layout.Linkable
import NesRoutine.Proofs.Stack

/-! What the processor cannot change. A view of the hardware that bears neither on the
processor nor on anything that a read or a write over the bus changes is the same after
the transfers of control, the operations of units, the units, and the steps of the
processor, if the code that is supplied from outside leaves it alone. -/
namespace NesRoutine

/-- The view shows nothing of the processor, and nothing that goes over the bus
changes it. -/
structure Hardware.OutOfReach (view : Hardware → α) : Prop where
  cpu : ∀ (h : Hardware) (cpu : Cpu), view { h with cpu } = view h
  read : ∀ (h : Hardware) (a : UInt16), view (h.read a).2 = view h
  write : ∀ (h : Hardware) (a : UInt16) (v : UInt8), view (h.write a v) = view h

namespace Hardware.OutOfReach

variable {view : Hardware → α} (far : OutOfReach view) (h : Hardware)
include far

theorem setPc (pc : UInt16) : view (h.setPc pc) = view h := far.cpu h _

theorem push (v : UInt8) : view (h.push v) = view h :=
  (far.cpu (h.write _ v) _).trans (far.write h _ v)

theorem pop : view h.pop.2 = view h := (far.cpu (h.read _).2 _).trans (far.read h _)

theorem pushed (bs : List UInt8) : view (h.pushed bs) = view h := by
  induction bs with
  | nil => rfl
  | cons b bs ih => exact (far.push _ b).trans ih

theorem popped (n : Nat) : view (h.popped n) = view h := by
  induction n with
  | zero => rfl
  | succ n ih => exact (far.pop _).trans ih

theorem readWord (a : UInt16) : view (h.readWord a).2 = view h :=
  (far.read (h.read a).2 _).trans (far.read h a)

theorem enter (resume : UInt16) (status : UInt8) (vector : UInt16) :
    view (h.enter resume status vector) = view h := by
  rw [Hardware.enter, far.setPc, far.readWord, Hardware.setFlag, Hardware.setStatus, far.cpu,
    far.pushed]

theorem call (target : UInt16) : view (h.call target) = view h := by
  rw [h.call_eq, far.setPc, far.pushed]

theorem returnFromSubroutine : view h.returnFromSubroutine = view h := by
  rw [h.returnFromSubroutine_eq, far.setPc, far.popped]

theorem returnFromInterrupt : view h.returnFromInterrupt = view h := by
  rw [h.returnFromInterrupt_eq, far.setPc, far.popped, restoreStatus, Hardware.setStatus, far.cpu,
    far.pop]

theorem softwareInterrupt : view h.softwareInterrupt = view h := by
  rw [h.softwareInterrupt_eq, far.enter]

theorem jumpIndirect (pointer : UInt16) : view (h.jumpIndirect pointer) = view h := by
  rw [Hardware.jumpIndirect, far.setPc, far.read, far.read]

theorem nmi : view h.nmi = view h := by
  rw [h.nmi_eq, far.enter]

theorem irq : view h.irq.2 = view h := by
  cases taken : h.irq.1 with
  | true => rw [h.irq_taken taken, far.enter]
  | false => rw [h.irq_ignored taken]

theorem skip : view h.skip = view h := (far.cpu (h.read _).2 _).trans (far.read h _)

end Hardware.OutOfReach

/-- Whether it succeeds or not, the step leaves the view as it was. -/
def Exec.Keeps (view : Hardware → α) (x : Exec β) : Prop :=
  ∀ r, match x r with
    | .ok _ r' | .error _ r' => view r'.hardware = view r.hardware

namespace Exec.Keeps

variable {view : Hardware → α}

theorem pure (b : β) : Keeps view (pure b) := fun _ => rfl

theorem bind {x : Exec β} {k : β → Exec γ} (first : x.Keeps view)
    (rest : ∀ b, (k b).Keeps view) : (x >>= k).Keeps view := by
  intro r
  have kept := first r
  simp only [Bind.bind, EStateM.bind]
  cases step : x r with
  | error fault r' =>
    rw [step] at kept
    exact kept
  | ok b r' =>
    rw [step] at kept
    have kept' := rest b r'
    dsimp only at kept ⊢
    rw [← kept]
    exact kept'

theorem change {f : Hardware → Hardware} (keeps : ∀ h, view (f h) = view h) :
    (Exec.change f).Keeps view := fun r => keeps r.hardware

theorem inspect (f : Hardware → β) : (Exec.inspect f).Keeps view := fun _ => rfl

theorem readScratch (slot : UInt8) : (Exec.readScratch slot).Keeps view := by
  intro r
  simp only [Exec.readScratch]
  cases r.scratch[Scratch.cell slot] with
  | none => rfl
  | some value => rfl

theorem offset (index : Option Register) : (Exec.offset index).Keeps view := by
  cases index with
  | none => exact .pure 0
  | some register => exact inspect (·.register register)

theorem memoryAddress (base : UInt16) (index : Option Register) (zeroPage : Bool) :
    (Exec.memoryAddress base index zeroPage).Keeps view :=
  (offset index).bind fun _ => .pure _

variable (far : Hardware.OutOfReach view)
include far

theorem readBus (a : UInt16) : (Exec.readBus a).Keeps view := fun r => far.read r.hardware a

theorem pointee (pointer : UInt8) : (Exec.pointee pointer).Keeps view :=
  (readBus far _).bind fun _ => (readBus far _).bind fun _ => .pure _

theorem indirectAddress (pointer : UInt8) (index : Option Register) (preIndexed : Bool) :
    (Exec.indirectAddress pointer index preIndexed).Keeps view := by
  refine (offset index).bind fun _ => ?_
  cases preIndexed with
  | true => exact pointee far _
  | false => exact (pointee far _).bind fun _ => .pure _

theorem read (v : Value) : v.read.Keeps view := by
  cases v with
  | constant v => exact .pure v
  | register | flag | status => exact fun _ => rfl
  | memory base index zeroPage => exact (memoryAddress _ _ _).bind fun _ => readBus far _
  | indirect pointer index preIndexed =>
    exact (indirectAddress far _ _ _).bind fun _ => readBus far _
  | scratch slot => exact readScratch slot

theorem write (v : Value) (value : UInt8) : (v.write value).Keeps view := by
  cases v with
  | constant => exact .pure ()
  | register | flag | status => exact fun r => far.cpu r.hardware _
  | memory base index zeroPage =>
    exact (memoryAddress _ _ _).bind fun _ => .change fun h => far.write h _ _
  | indirect pointer index preIndexed =>
    exact (indirectAddress far _ _ _).bind fun _ => .change fun h => far.write h _ _
  | scratch slot => exact fun _ => rfl

end Exec.Keeps

def Debugger.Keeps (view : Hardware → α) (d : Debugger) : Prop :=
  ∀ visits tag h, view (d.onHook visits tag h).1 = view h

/-- What custom generators make leaves the view as it was. -/
def Generators.Keeps (view : Hardware → α) (generators : Generators) : Prop :=
  ∀ kind make m action, generators kind = some make → make m = .ok action →
    Exec.Keeps view action

section Units

open Exec (Keeps)

variable {view : Hardware → α} {debugger : Option Debugger} {generators : Generators}
  (far : Hardware.OutOfReach view)
include far

theorem Effect.keeps (host : ∀ d ∈ debugger, d.Keeps view) (e : Effect) :
    (e.perform debugger).Keeps view := by
  cases e with
  | copy source destination => exact (Keeps.read far _).bind fun _ => .write far _ _
  | complement source destination => exact (Keeps.read far _).bind fun _ => .write far _ _
  | binary op left right destination =>
    exact (Keeps.read far _).bind fun _ => (Keeps.read far _).bind fun _ => .write far _ _
  | addWithCarry operand => exact (Keeps.read far _).bind fun _ => .change fun h => far.cpu h _
  | compare left right =>
    exact (Keeps.read far _).bind fun _ => (Keeps.read far _).bind fun _ =>
      .change fun h => far.cpu h _
  | shift kind target =>
    exact (Keeps.read far _).bind fun _ => (Keeps.inspect _).bind fun _ =>
      (Keeps.write far _ _).bind fun _ => .change fun h => far.cpu h _
  | bitTest operand => exact (Keeps.read far _).bind fun _ => .change fun h => far.cpu h _
  | setZeroNegative value => exact (Keeps.read far _).bind fun _ => .change fun h => far.cpu h _
  | push value => exact (Keeps.read far _).bind fun v => .change fun h => far.push h v
  | pop destination =>
    refine Keeps.bind ?_ fun _ => .write far _ _
    intro r
    exact far.pop r.hardware
  | hook tag =>
    intro r
    cases debugger with
    | none => rfl
    | some d =>
      have kept := host d rfl r.visits tag r.hardware
      simp only [perform, performHook]
      rcases acted : d.onHook r.visits tag r.hardware with ⟨h, _ | fault⟩
      · rw [acted] at kept
        exact kept
      · rw [acted] at kept
        exact kept

theorem Exit.perform_keeps (e : Exit) (h : Hardware) : view (e.perform h) = view h := by
  cases e with
  | call target returnAddress => exact (far.call _ target).trans (far.setPc h _)
  | jump address => exact far.setPc h address
  | jumpIndirect pointer => exact far.jumpIndirect h pointer
  | returnFromSubroutine => exact far.returnFromSubroutine h
  | returnFromInterrupt => exact far.returnFromInterrupt h
  | softwareInterrupt address => exact (far.softwareInterrupt _).trans (far.setPc h _)

/-- An operation that was not supplied from outside leaves the view as it was. -/
theorem Op.keeps (host : ∀ d ∈ debugger, d.Keeps view) (op : Op)
    (custom : ∀ action, op = .custom action → Exec.Keeps view action) :
    (op.perform debugger).Keeps view := by
  cases op with
  | effect e => exact (Effect.keeps far host e).bind fun _ => .pure _
  | goto target => exact .pure _
  | branch onZero condition target => exact (Keeps.read far _).bind fun _ => .pure _
  | exit e => exact (Keeps.change (e.perform_keeps far)).bind fun _ => .pure _
  | custom action => exact custom action rfl

omit far in
theorem CodeUnit.runFrom_keeps {u : CodeUnit}
    (keeps : ∀ op ∈ u.ops, (op.perform debugger).Keeps view) (fuel n : Nat) (r : Run) :
    view (u.runFrom debugger fuel n r).2.hardware = view r.hardware := by
  induction fuel generalizing n r with
  | zero => rfl
  | succ fuel ih =>
    rw [runFrom]
    cases found : u.ops[n]? with
    | none => rfl
    | some op =>
      have kept := keeps op (Array.mem_of_getElem? found) r
      dsimp only
      split at kept
      · rename_i flow r' step
        rw [step]
        cases flow with
        | next => exact (ih _ _).trans kept
        | goto target => exact (ih _ _).trans kept
        | exit => exact kept
      · rename_i fault r' step
        rw [step]
        exact kept

omit far in
/-- The only built-in action is that of a label. -/
theorem Layout.generateDefault_custom {layout : Layout}
    (generated : layout.generateDefault m = .ok (.custom action)) : action = pure .next := by
  cases m with
  | effect e => cases eq_of_generateEffect generated
  | label l =>
    cases generated
    rfl
  | exit e => cases generated
  | goto target | branch onZero condition target =>
    rw [generateDefault] at generated
    cases resolved : layout.resolve target with
    | error e => simp [resolved, Except.map] at generated
    | ok n => simp [resolved, Except.map] at generated

theorem Layout.generateSlot_keeps (host : ∀ d ∈ debugger, d.Keeps view)
    (custom : generators.Keeps view) {layout : Layout}
    (generated : layout.generateSlot generators slot = .ok op) :
    (op.perform debugger).Keeps view := by
  refine Op.keeps far host op ?_
  rintro action rfl
  unfold generateSlot at generated
  split at generated
  · rename_i m
    split at generated
    next make known =>
      cases made : make m with
      | error e => simp [made, Except.map] at generated
      | ok action' =>
        simp only [made, Except.map] at generated
        cases generated
        exact custom _ _ _ _ known made
    next =>
      rw [generateDefault_custom generated]
      exact .pure _
  · split at generated
    · cases generated
    · cases generated

theorem CodeUnit.Regenerates.keeps {u : CodeUnit} (regenerates : u.Regenerates generators a)
    (host : ∀ d ∈ debugger, d.Keeps view) (custom : generators.Keeps view) :
    ∀ op ∈ u.ops, (op.perform debugger).Keeps view := by
  intro op member
  obtain ⟨layout, _, _, _, ops⟩ := generate_ok regenerates.2
  obtain ⟨n, inside, rfl⟩ := List.mem_iff_getElem.mp (Array.mem_toList_iff.mpr member)
  have bound : n < layout.slots.toList.length := ops.length_eq ▸ inside
  exact Layout.generateSlot_keeps far host custom (ops.get bound inside)

end Units

section Steps

variable {view : Hardware → α} {regions : List CodeRegion} {customizer : Customizer}
  {debugger : Option Debugger} {budget : Nat} {c : Compiler} {d : Dispatcher}
  (far : Hardware.OutOfReach view)
include far

theorem Compiler.run_keeps (used : c.Reachable regions customizer debugger budget)
    (host : ∀ d ∈ debugger, d.Keeps view) (custom : customizer.generators.Keeps view)
    (a : UInt16) (h : Hardware) : view (c.run a h).2.2 = view h := by
  obtain ⟨_, grows⟩ := (used.getOrCompile a).grows
  have same : (c.getOrCompile a).2.debugger = debugger := grows.settings.2.2.1
  rw [run]
  rcases compiled : c.getOrCompile a with ⟨result, after⟩
  rw [compiled] at same
  cases result with
  | error e => rfl
  | ok u =>
    have regenerates : u.Regenerates customizer.generators a :=
      used.answer_regenerates (congrArg Prod.fst compiled)
    have settings : ({ after with invocations := after.invocations + 1 }.noteEntered a h).debugger =
        debugger := by
      rw [← same, noteEntered]
      split
      · rfl
      · rfl
    dsimp only
    rw [settings]
    exact CodeUnit.runFrom_keeps (regenerates.keeps far host custom) _ 0 _

theorem Dispatcher.dispatch_keeps (used : d.compiler.Reachable regions customizer debugger budget)
    (host : ∀ d ∈ debugger, d.Keeps view) (custom : customizer.generators.Keeps view)
    (a : UInt16) (h : Hardware) : view (d.dispatch a h).2.2 = view h := by
  have kept := Compiler.run_keeps far used host custom a h
  rw [dispatch]
  split
  · rfl
  · rcases ran : d.compiler.run a h with ⟨result, after, h'⟩
    rw [ran] at kept
    cases result with
    | ok _ => exact kept
    | error e =>
      dsimp only
      split
      · exact kept
      · exact kept

theorem Dispatcher.step_keeps (used : d.compiler.Reachable regions customizer debugger budget)
    (host : ∀ d ∈ debugger, d.Keeps view) (custom : customizer.generators.Keeps view)
    (h : Hardware) : view (d.step h).2.2 = view h := by
  have kept := dispatch_keeps far used host custom h.pc h
  rw [step]
  rcases ran : d.dispatch h.pc h with ⟨result, after, h'⟩
  rw [ran] at kept
  match result with
  | .error e => exact kept
  | .ok true => exact kept
  | .ok false => exact (far.skip h').trans kept

omit far

/-- An address known to be absent is not tried; any other is run. -/
theorem Dispatcher.dispatch_compiler (d : Dispatcher) (a : UInt16) (h : Hardware) :
    (d.isAbsent a = true ∧ (d.dispatch a h).2.1.compiler = d.compiler) ∨
    (d.isAbsent a = false ∧ ((d.dispatch a h).2.1.compiler = (d.compiler.run a h).2.1 ∨
      ∃ r, (d.dispatch a h).2.1.compiler = (d.compiler.run a h).2.1.log r)) := by
  rw [dispatch]
  split
  next absent => exact .inl ⟨absent, rfl⟩
  next present =>
    refine .inr ⟨by simpa using present, ?_⟩
    rcases d.compiler.run a h with ⟨result, ran, h'⟩
    cases result with
    | ok _ => exact .inl rfl
    | error e =>
      dsimp only
      split
      · exact .inl rfl
      · exact .inr ⟨_, rfl⟩

/-- The compiler of a dispatcher is used by its steps as anyone may use it. -/
theorem Dispatcher.dispatch_used (used : d.compiler.Reachable regions customizer debugger budget)
    (a : UInt16) (h : Hardware) :
    (d.dispatch a h).2.1.compiler.Reachable regions customizer debugger budget := by
  rcases d.dispatch_compiler a h with ⟨_, same⟩ | ⟨_, same | ⟨r, same⟩⟩
  · rw [same]
    exact used
  · rw [same]
    exact used.run a h
  · rw [same]
    exact (used.run a h).log r

theorem Dispatcher.step_used (used : d.compiler.Reachable regions customizer debugger budget)
    (h : Hardware) : (d.step h).2.1.compiler.Reachable regions customizer debugger budget := by
  have dispatched := dispatch_used used h.pc h
  rw [step]
  rcases ran : d.dispatch h.pc h with ⟨result, after, h'⟩
  rw [ran] at dispatched
  match result with
  | .error e => exact dispatched
  | .ok true => exact dispatched
  | .ok false => exact dispatched

end Steps
end NesRoutine

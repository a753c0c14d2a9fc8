import NesRoutine.CodeUnit.Layout
import NesRoutine.Proofs.Execution

/-! Scratch bytes are written before they are read. What an operation reads and
writes is seen from its text; a unit in which every path writes a byte before it
reads it never faults. -/
namespace NesRoutine

/-- The scratch byte that a value is, if it is one. -/
def Value.slots : Value → List UInt8
  | scratch slot => [slot]
  | _ => []

namespace Effect

def reads : Effect → List UInt8
  | copy v _ | complement v _ | addWithCarry v | shift _ v | bitTest v | setZeroNegative v
  | push v => v.slots
  | binary _ l r _ | compare l r => l.slots ++ r.slots
  | pop _ | hook _ => []

def writes (e : Effect) : List UInt8 :=
  match e.destination? with
  | some d => d.slots
  | none => []

/-- The effect writes to what can be written, and no debugger takes part in it. -/
def Plain : Effect → Prop
  | hook _ => False
  | e => ∀ d ∈ e.destination?, d.isWritable = true

/-- Plain effects that read the scratch bytes in `w` and those written by the
effects before them. -/
def Scoped (w : List UInt8) : List Effect → Prop
  | [] => True
  | e :: es => e.Plain ∧ e.reads ⊆ w ∧ Scoped (e.writes ++ w) es

end Effect

/-- The scratch bytes in `w` have been written. -/
def Run.Defines (r : Run) (w : List UInt8) : Prop :=
  ∀ slot ∈ w, ∃ value, r.scratch.get (Scratch.cell slot) = some value

namespace Exec

/-- The action succeeds once the bytes in `w` are written, and leaves those in `w'` written. -/
def Total (w : List UInt8) (e : Exec α) (w' : List UInt8) : Prop :=
  ∀ r : Run, r.Defines w → ∃ a r', e r = .ok a r' ∧ r'.Defines w'

theorem total_lift (w : List UInt8) (m : Interpreter.Machine α) : Total w (lift m) w :=
  fun _ defined => ⟨_, _, rfl, defined⟩

theorem total_change (w : List UInt8) (f : Hardware → Hardware) : Total w (change f) w :=
  fun _ defined => ⟨_, _, rfl, defined⟩

theorem total_inspect (w : List UInt8) (f : Hardware → α) : Total w (inspect f) w :=
  fun _ defined => ⟨_, _, rfl, defined⟩

theorem total_pure (w : List UInt8) (a : α) : Total w (pure a) w :=
  fun _ defined => ⟨_, _, rfl, defined⟩

theorem Total.bind {e : Exec α} {f : α → Exec β} (first : Total w e w')
    (rest : ∀ a, Total w' (f a) w'') : Total w (e >>= f) w'' := by
  intro r defined
  obtain ⟨a, r', step, defined'⟩ := first r defined
  obtain ⟨b, r'', steps, defined''⟩ := rest a r' defined'
  refine ⟨b, r'', ?_, defined''⟩
  simp only [Bind.bind, EStateM.bind, step]
  exact steps

theorem total_readScratch (member : slot ∈ w) : Total w (readScratch slot) w := by
  intro r defined
  obtain ⟨value, written⟩ := defined slot member
  have read : r.scratch[Scratch.cell slot] = some value := written
  exact ⟨value, r, by simp only [readScratch, read], defined⟩

theorem total_writeScratch (w : List UInt8) (slot value : UInt8) :
    Total w (writeScratch slot value) (slot :: w) := by
  intro r defined
  refine ⟨(), _, rfl, ?_⟩
  intro other member
  change ∃ v, (r.scratch.set (Scratch.cell slot) (some value))[Scratch.cell other] = some v
  simp only [Fin.getElem_fin, Vector.getElem_set]
  split
  · exact ⟨value, rfl⟩
  · rename_i differs
    rcases List.mem_cons.mp member with rfl | old
    · exact absurd rfl differs
    · exact defined other old

theorem total_offset (w : List UInt8) (index : Option Register) : Total w (offset index) w := by
  cases index with
  | none => exact total_pure w 0
  | some register => exact total_inspect w (·.register register)

theorem total_pointee (w : List UInt8) (pointer : UInt8) : Total w (pointee pointer) w :=
  total_lift w (.pointer pointer)

theorem total_memoryAddress (w : List UInt8) (base : UInt16) (index : Option Register)
    (zeroPage : Bool) : Total w (memoryAddress base index zeroPage) w :=
  (total_offset w index).bind fun _ => total_pure w _

theorem total_indirectAddress (w : List UInt8) (pointer : UInt8) (index : Option Register)
    (preIndexed : Bool) : Total w (indirectAddress pointer index preIndexed) w := by
  refine (total_offset w index).bind fun _ => ?_
  cases preIndexed with
  | false => exact (total_pointee w pointer).bind fun _ => total_pure w _
  | true => exact total_pointee w _

end Exec

open Exec

theorem Value.total_read {v : Value} (known : v.slots ⊆ w) : Total w v.read w := by
  cases v with
  | constant v => exact total_pure w v
  | register r => exact total_inspect w (·.register r)
  | flag f => exact total_inspect w fun h => if h.flag f then 1 else 0
  | status => exact total_inspect w (·.status.bits)
  | memory base index zeroPage =>
    exact (total_memoryAddress w base index zeroPage).bind fun a => total_lift w (.read a)
  | indirect pointer index preIndexed =>
    exact (total_indirectAddress w pointer index preIndexed).bind fun a => total_lift w (.read a)
  | scratch slot => exact total_readScratch (known List.mem_cons_self)

theorem Value.total_write (w : List UInt8) (v : Value) (x : UInt8) :
    Total w (v.write x) (v.slots ++ w) := by
  cases v with
  | constant v => exact total_pure w ()
  | register r => exact total_change w (·.setRegister r x)
  | flag f => exact total_change w (·.setFlag f (x != 0))
  | status => exact total_change w (·.setStatus ⟨x⟩)
  | memory base index zeroPage =>
    exact (total_memoryAddress w base index zeroPage).bind fun _ => total_change w _
  | indirect pointer index preIndexed =>
    exact (total_indirectAddress w pointer index preIndexed).bind fun _ => total_change w _
  | scratch slot => exact total_writeScratch w slot x

theorem Effect.total_perform (debugger : Option Debugger) {e : Effect} (plain : e.Plain)
    (known : e.reads ⊆ w) : Total w (e.perform debugger) (e.writes ++ w) := by
  cases e with
  | copy v d => exact (Value.total_read known).bind fun _ => d.total_write w _
  | complement v d => exact (Value.total_read known).bind fun _ => d.total_write w _
  | binary op l r d =>
    obtain ⟨left, right⟩ := List.append_subset.mp known
    exact (Value.total_read left).bind fun _ => (Value.total_read right).bind fun _ =>
      d.total_write w _
  | addWithCarry v => exact (Value.total_read known).bind fun _ => total_change w _
  | compare l r =>
    obtain ⟨left, right⟩ := List.append_subset.mp known
    exact (Value.total_read left).bind fun _ => (Value.total_read right).bind fun _ =>
      total_change w _
  | shift kind v =>
    exact (Value.total_read known).bind fun _ => (total_inspect w _).bind fun _ =>
      (v.total_write w _).bind fun _ => total_change _ _
  | bitTest v => exact (Value.total_read known).bind fun _ => total_change w _
  | setZeroNegative v => exact (Value.total_read known).bind fun _ => total_change w _
  | push v => exact (Value.total_read known).bind fun _ => total_change w _
  | pop d => exact (total_lift w (modifyGet Hardware.pop)).bind fun _ => d.total_write w _
  | hook tag => exact plain.elim

/-- Where control can go after an operation, whatever the state of the run. A
custom operation can do anything, so nothing is known of it. -/
def Op.flows : Op → List Flow
  | effect _ => [.next]
  | goto target => [.goto target]
  | branch _ _ target => [.goto target, .next]
  | exit _ => [.exit]
  | custom _ => []

def Op.writes : Op → List UInt8
  | effect e => e.writes
  | _ => []

/-- The operation is a built-in one, and reads no scratch bytes but those in `w`. -/
def Op.Ready (w : List UInt8) : Op → Prop
  | effect e => e.Plain ∧ e.reads ⊆ w
  | branch _ condition _ => condition.slots ⊆ w
  | goto _ | exit _ => True
  | custom _ => False

theorem Op.Ready.perform {op : Op} (ready : op.Ready w) (debugger : Option Debugger) {r : Run}
    (defined : r.Defines w) :
    ∃ flow r', op.perform debugger r = .ok flow r' ∧ flow ∈ op.flows ∧
      r'.Defines (op.writes ++ w) := by
  cases op with
  | effect e =>
    obtain ⟨_, r', step, defined'⟩ := Effect.total_perform debugger ready.1 ready.2 r defined
    exact ⟨.next, r', by simp [Op.perform, bind, EStateM.bind, step, pure, EStateM.pure],
      List.mem_singleton_self _, defined'⟩
  | goto target => exact ⟨.goto target, r, rfl, List.mem_singleton_self _, defined⟩
  | branch onZero condition target =>
    obtain ⟨value, r', step, defined'⟩ := Value.total_read ready r defined
    refine ⟨_, r', by simp only [Op.perform, bind, EStateM.bind, step]; rfl, ?_, defined'⟩
    cases (value == 0) == onZero <;> simp [flows]
  | exit e => exact ⟨.exit, _, rfl, List.mem_singleton_self _, defined⟩
  | custom action => exact ready.elim

namespace CodeUnit

/-- A path through the unit, taking either way at a branch, leads to this index
and writes these scratch bytes on the way. -/
inductive Path (u : CodeUnit) : Nat → List UInt8 → Prop where
  | start : Path u 0 []
  | next {n w op} : Path u n w → u.ops[n]? = some op → .next ∈ op.flows →
      Path u (n + 1) (op.writes ++ w)
  | goto {n w op target} : Path u n w → u.ops[n]? = some op → .goto target ∈ op.flows →
      Path u target (op.writes ++ w)

/-- Every path leads to an operation, and no path reads a scratch byte that it
has not written. -/
def Safe (u : CodeUnit) : Prop := ∀ n w, u.Path n w → ∃ op, u.ops[n]? = some op ∧ op.Ready w

theorem Safe.runFrom {u : CodeUnit} (safe : u.Safe) (debugger : Option Debugger) (fuel : Nat)
    (path : u.Path n w) {r : Run} (defined : r.Defines w) :
    (u.runFrom debugger fuel n r).1 = .exited ∨ (u.runFrom debugger fuel n r).1 = .exhausted := by
  induction fuel generalizing n w r with
  | zero => exact Or.inr rfl
  | succ fuel ih =>
    obtain ⟨op, found, ready⟩ := safe n w path
    obtain ⟨flow, r', step, possible, defined'⟩ := ready.perform debugger defined
    simp only [CodeUnit.runFrom, found, step]
    cases flow with
    | next => exact ih (path.next found possible) defined'
    | goto target => exact ih (path.goto found possible) defined'
    | exit => exact Or.inl rfl

theorem Safe.invoke {u : CodeUnit} (safe : u.Safe) (debugger : Option Debugger) (fuel : Nat)
    (h : Hardware) (fault : Fault) : (u.invoke debugger fuel h).1 ≠ .faulted fault := by
  intro faulted
  have ends := safe.runFrom debugger fuel .start (r := { hardware := h }) (by simp [Run.Defines])
  rw [CodeUnit.invoke] at faulted
  simp [faulted] at ends

end CodeUnit
end NesRoutine

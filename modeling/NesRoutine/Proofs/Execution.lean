import NesRoutine.CodeUnit.Execution
import NesRoutine.Proofs.Interpreter

/-! Operations of a unit as actions on the hardware. What an operation does to
the console is an action of the interpreter, up to the scratch bytes it leaves
behind. -/
namespace NesRoutine

open Interpreter (Machine)

namespace Exec

/-- An action on the hardware as a step of a run. -/
def lift (m : Machine α) : Exec α := fun r =>
  .ok (m r.hardware).1 { r with hardware := (m r.hardware).2 }

theorem lift_pure (a : α) : lift (pure a) = pure a := rfl

theorem lift_bind (m : Machine α) (f : α → Machine β) :
    lift (m >>= f) = lift m >>= fun a => lift (f a) := rfl

theorem lift_map (f : α → β) (m : Machine α) : lift (f <$> m) = f <$> lift m := rfl

theorem readBus_eq (address : UInt16) : readBus address = lift (Machine.read address) := rfl

theorem change_eq (f : Hardware → Hardware) : change f = lift (modify f) := rfl

theorem inspect_flag (f : Flag) : inspect (·.flag f) = lift (.flag f) := rfl

theorem offset_eq (r : Register) : offset (some r) = lift (.register r) := rfl

theorem pointee_eq (p : UInt8) : pointee p = lift (Machine.pointer p) := rfl

/-- What was written to a scratch byte is there after any action on the hardware. -/
theorem writeScratch_lift_read (slot value : UInt8) (m : Machine α) (k : α → UInt8 → Exec β) :
    (do writeScratch slot value; let a ← lift m; let v ← readScratch slot; k a v) =
      (do writeScratch slot value; let a ← lift m; k a value) := by
  funext r
  have written : (r.scratch.set (Scratch.cell slot) (some value))[Scratch.cell slot] =
      some value := by
    simp
  simp only [bind, EStateM.bind, writeScratch, lift, readScratch, written]

theorem writeScratch_read (slot value : UInt8) (k : UInt8 → Exec β) :
    (do writeScratch slot value; let v ← readScratch slot; k v) =
      (do writeScratch slot value; k value) :=
  writeScratch_lift_read slot value (pure ()) fun _ => k

/-- `e` does to the hardware what `m` does, and nothing else but to write scratch bytes. -/
def Implements (e : Exec α) (m : Machine α) : Prop :=
  ∀ r : Run, ∃ scratch, e r = lift m { r with scratch }

theorem implements_lift (m : Machine α) : Implements (lift m) m := fun r => ⟨r.scratch, rfl⟩

theorem Implements.writeScratch {e : Exec α} {m : Machine α} (rest : Implements e m)
    (slot value : UInt8) : Implements (do writeScratch slot value; e) m := by
  intro r
  obtain ⟨scratch, step⟩ :=
    rest { r with scratch := r.scratch.set (Scratch.cell slot) (some value) }
  exact ⟨scratch, step⟩

theorem Implements.bind {e : Exec α} {m : Machine α} {f : α → Exec β} {g : α → Machine β}
    (first : Implements e m) (rest : ∀ a, Implements (f a) (g a)) :
    Implements (e >>= f) (m >>= g) := by
  intro r
  obtain ⟨scratch, step⟩ := first r
  obtain ⟨scratch', steps⟩ := rest (m r.hardware).1 { r with
    hardware := (m r.hardware).2
    scratch }
  refine ⟨scratch', ?_⟩
  simp only [Bind.bind, EStateM.bind, step, lift] at steps ⊢
  exact steps

end Exec
end NesRoutine

import NesRoutine.Proofs.FrameTiming
import NesRoutine.Proofs.Transparency

/-! Steps that fail. The processor can fail only where nothing can be decoded, and then it
fails before it has touched anything. Where failures are marked, it steps over one byte
instead, and the address stays marked for ever. -/
namespace NesRoutine

namespace Dispatcher

variable {regions : List CodeRegion} {onFailure : FailurePolicy} {debugger : Option Debugger}
  {budget : Nat} {d : Dispatcher} {a : UInt16} {h : Hardware}

theorem Sound.dispatch_aborts (sound : d.Sound regions .abort debugger budget)
    (unknown : Routine.discover regions a = .error cause) (h : Hardware) :
    d.dispatch a h = (.error (.decode a cause), d, h) := by
  have unmarked : ¬ d.isAbsent a = true := by
    intro marked
    cases (sound.absent a marked).1
  rw [Dispatcher.dispatch, if_neg unmarked]
  rcases sound.coherent.run a h with ⟨cause', unknown', ran⟩ | ⟨_, _, ⟨_, found, _⟩, _⟩
  · cases unknown.symm.trans unknown'
    simp only [ran]
    split
    · rfl
    next marks => cases sound.policy_eq.symm.trans marks
  · cases unknown.symm.trans found

/-- A unit that comes to an end ran, and did not fail. -/
theorem Sound.dispatch_runs (sound : d.Sound regions onFailure debugger budget)
    (found : Routine.discover regions a = .ok r)
    (ends : (d.compiler.run a h).1 ≠ .error (.exhausted a)) :
    ∃ after h', d.dispatch a h = (.ok true, after, h') := by
  have unmarked : ¬ d.isAbsent a = true := by
    intro marked
    obtain ⟨_, unknown⟩ := (sound.absent a marked).2
    cases unknown.symm.trans found
  rw [Dispatcher.dispatch, if_neg unmarked]
  rcases sound.coherent.run_ended ends with ⟨_, unknown, _⟩ | ⟨_, after, h', _, _, ran⟩
  · cases unknown.symm.trans found
  · rw [ran]
    exact ⟨_, _, rfl⟩

theorem isAbsent_dispatch (marked : d.isAbsent b = true) (a : UInt16) (h : Hardware) :
    (d.dispatch a h).2.1.isAbsent b = true := by
  rw [dispatch]
  split
  · exact marked
  · split
    · exact marked
    · split
      · exact marked
      · rw [isAbsent, Std.TreeSet.contains_insert, Bool.or_eq_true]
        exact .inr marked

end Dispatcher

namespace Emulator

/-- No unit has been made or loaded, and no address marked. -/
def New (regions : List CodeRegion) (e : Emulator) : Prop :=
  ∃ debugger budget journal, e.dispatcher =
    { compiler := { regions, debugger, budget, journal }, policy := e.config.failurePolicy }

theorem ofCartridge_new {cartridge : Cartridge} {config : Config} {journal : Journal}
    (made : (ofCartridge cartridge config none journal).1 = .ok e) :
    New cartridge.codeRegions e := by
  rw [ofCartridge] at made
  split at made
  · cases made
  · cases made
    exact ⟨none, _, _, rfl⟩

/-- The unit at PC, if there is one, comes to an end. -/
def UnitEnds (e : Emulator) : Prop :=
  (e.dispatcher.compiler.run e.hardware.pc e.hardware).1 ≠ .error (.exhausted e.hardware.pc)

/-- What becomes of an emulator by steps, whether they fail or not, resets and buttons. -/
inductive Leads (first : Emulator) : Emulator → Prop where
  | refl : Leads first first
  | step (led : Leads first e) (ends : e.UnitEnds) : Leads first e.step.2
  | reset (led : Leads first e) : Leads first e.reset
  | hold (led : Leads first e) (player : Nat) (buttons : UInt8) :
      Leads first { e with hardware := e.hardware.holdButtons player buttons }

variable {regions : List CodeRegion} {e first : Emulator}

theorem Leads.sound (led : first.Leads e)
    (sound : first.dispatcher.Sound regions onFailure debugger budget) :
    e.dispatcher.Sound regions onFailure debugger budget := by
  induction led with
  | refl => exact sound
  | step _ ends ih =>
    rw [step_dispatcher]
    exact ih.dispatch ends
  | reset _ ih => exact ih
  | hold _ player buttons ih => exact ih

/-- What is marked stays marked. -/
theorem Leads.absent (led : first.Leads e) (marked : first.dispatcher.isAbsent a = true) :
    e.dispatcher.isAbsent a = true := by
  induction led with
  | refl => exact marked
  | step _ _ ih =>
    rw [step_dispatcher]
    exact Dispatcher.isAbsent_dispatch ih _ _
  | reset _ ih => exact ih
  | hold _ player buttons ih => exact ih

theorem New.sound (new : New regions first) : ∃ debugger budget,
    first.dispatcher.Sound regions first.config.failurePolicy debugger budget := by
  obtain ⟨debugger, budget, journal, fresh⟩ := new
  refine ⟨debugger, budget, ?_⟩
  rw [fresh]
  exact ⟨.start journal, rfl, by simp [Dispatcher.isAbsent]⟩

theorem step_aborts (sound : e.dispatcher.Sound regions .abort debugger budget)
    (unknown : Routine.discover regions e.hardware.pc = .error cause) :
    e.step = (.error (.decode e.hardware.pc cause), e) := by
  simp only [step, Dispatcher.step, sound.dispatch_aborts unknown e.hardware]

theorem step_runs (sound : e.dispatcher.Sound regions onFailure debugger budget)
    (found : Routine.discover regions e.hardware.pc = .ok r) (ends : e.UnitEnds) :
    e.step.1 = .ok () := by
  obtain ⟨after, h', ran⟩ := sound.dispatch_runs found ends
  simp only [step, Dispatcher.step, ran]

theorem step_declines (sound : e.dispatcher.Sound regions .markAbsent debugger budget)
    (unknown : Routine.discover regions e.hardware.pc = .error cause) :
    ∃ journal absent, e.step.2 = Emulator.count (Emulator.dots { e with
      hardware := e.hardware.skip
      dispatcher := { e.dispatcher with
        compiler := { e.dispatcher.compiler with journal }, absent } }) ∧
      ∀ a, absent.contains a = (e.hardware.pc == a || e.dispatcher.isAbsent a) := by
  obtain ⟨journal, absent, declined, marked⟩ :=
    Dispatcher.dispatch_declines sound.coherent sound.policy_eq unknown e.hardware
  refine ⟨journal, absent, ?_, marked⟩
  simp only [step, Dispatcher.step, declined]

/-- A step under the policy to pass errors on fails exactly where nothing can be decoded,
and changes nothing then. Where failures are marked no step fails: if nothing can be decoded
at PC, this is marked, the processor reads the byte there and goes past it, and the step
goes on as any other. What is marked could not be decoded, and stays marked. -/
theorem failing_step_atomic (new : New regions first) (led : first.Leads e) (ends : e.UnitEnds) :
    let pc := e.hardware.pc
    match first.config.failurePolicy with
    | .abort =>
      ((∃ error, e.step.1 = .error error) ↔
        ∃ cause, Routine.discover regions pc = .error cause) ∧
      ∀ cause, Routine.discover regions pc = .error cause →
        e.step = (.error (.decode pc cause), e)
    | .markAbsent =>
      e.step.1 = .ok () ∧
      (∀ cause, Routine.discover regions pc = .error cause →
        e.step.2.dispatcher.isAbsent pc = true ∧
        let past := (e.hardware.read pc).2.setPc (pc + 1)
        ∃ journal absent, e.step.2 = Emulator.count (Emulator.dots { e with
          hardware := { past with cpu := { past.cpu with skipped := e.hardware.cpu.skipped + 1 } }
          dispatcher := { e.dispatcher with
            compiler := { e.dispatcher.compiler with journal }, absent } }) ∧
          ∀ a, absent.contains a = (pc == a || e.dispatcher.isAbsent a)) ∧
      (∀ a, e.dispatcher.isAbsent a = true →
        ∃ cause, Routine.discover regions a = .error cause) ∧
      ∀ e', e.Leads e' → ∀ a, e.dispatcher.isAbsent a = true →
        e'.dispatcher.isAbsent a = true := by
  intro pc
  obtain ⟨debugger, budget, start⟩ := new.sound
  have sound := led.sound start
  generalize first.config.failurePolicy = onFailure at sound ⊢
  cases onFailure with
  | abort =>
    refine ⟨?_, fun cause unknown => step_aborts sound unknown⟩
    constructor
    · rintro ⟨error, failed⟩
      cases discovered : Routine.discover regions pc with
      | error cause => exact ⟨cause, rfl⟩
      | ok r => cases failed.symm.trans (step_runs sound discovered ends)
    · rintro ⟨cause, unknown⟩
      rw [step_aborts sound unknown]
      exact ⟨_, rfl⟩
  | markAbsent =>
    refine ⟨?_, ?_, fun a marked => (sound.absent a marked).2, fun e' led a => led.absent⟩
    · obtain ⟨_, ok⟩ := step_markAbsent sound.policy_eq
      rw [ok]
    · intro cause unknown
      obtain ⟨journal, absent, stepped, marked⟩ := step_declines sound unknown
      refine ⟨?_, journal, absent, stepped, marked⟩
      rw [stepped, count_dispatcher, dots_dispatcher]
      exact (marked pc).trans (by simp [pc])

/-- Where nothing can be decoded there is no unit. -/
theorem New.unitEnds (new : New regions e)
    (unknown : Routine.discover regions e.hardware.pc = .error cause) : e.UnitEnds := by
  obtain ⟨debugger, budget, sound⟩ := new.sound
  rcases sound.coherent.run e.hardware.pc e.hardware with
    ⟨_, _, ran⟩ | ⟨_, _, ⟨_, found, _⟩, _⟩
  · rw [UnitEnds, ran]
    simp
  · cases unknown.symm.trans found

/-- A program image too short for a reset vector, so that PC is outside of it, under each of
the policies. -/
theorem failing_step_atomic_unmapped :
    (∃ e cause, (ofCartridge (.ofPrg #[0x60]) { failurePolicy := .abort } none).1 = .ok e ∧
      e.hardware.pc = 0 ∧ e.step = (.error (.decode 0 cause), e)) ∧
    ∃ e, (ofCartridge (.ofPrg #[0x60]) { failurePolicy := .markAbsent } none).1 = .ok e ∧
      e.step.1 = .ok () ∧ e.step.2.dispatcher.isAbsent 0 = true := by
  have start (onFailure : FailurePolicy) : ∃ e,
      (ofCartridge (.ofPrg #[0x60]) { failurePolicy := onFailure } none).1 = .ok e ∧
        e.hardware.pc = 0 ∧ e.config.failurePolicy = onFailure := by
    have pc : (Hardware.ofPrg #[0x60]).reset.pc = 0 := by decide +kernel
    exact ⟨_, rfl, pc, rfl⟩
  have unmapped : (Routine.discover (Cartridge.ofPrg #[0x60]).codeRegions 0).toBool = false := by
    decide +kernel
  cases unknown : Routine.discover (Cartridge.ofPrg #[0x60]).codeRegions 0 with
  | ok r => simp [unknown, Except.toBool] at unmapped
  | error cause =>
    constructor
    · obtain ⟨e, made, pc, policy⟩ := start .abort
      have new := ofCartridge_new made
      have atomic := failing_step_atomic new .refl (new.unitEnds (pc ▸ unknown))
      simp only [policy, pc] at atomic
      exact ⟨e, cause, made, pc, atomic.2 cause unknown⟩
    · obtain ⟨e, made, pc, policy⟩ := start .markAbsent
      have new := ofCartridge_new made
      have clean := failing_step_atomic new .refl (new.unitEnds (pc ▸ unknown))
      simp only [policy, pc] at clean
      exact ⟨e, made, clean.1, (clean.2.1 cause unknown).1⟩

end Emulator
end NesRoutine

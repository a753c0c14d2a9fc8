import NesRoutine.Proofs.Moves

/-! A unit runs as the interpreter does. When control is at the beginning of an
instruction, the hardware of the run and of the interpreter are the same up to
PC, which a unit does not keep. One step of the interpreter is then a number of
moves of the unit. That number can be zero, but only on the way down the list of
instructions, so neither side can run on while the other stands still. -/
namespace NesRoutine

open Exec Interpreter

namespace Interpreter

theorem step_ok {regions : List CodeRegion} {h : Hardware} {a : UInt16}
    (decoded : decodeAt regions a = .ok i) :
    step regions (h.setPc a) =
      if leaves i then .stopped (execute i (h.setPc i.next)).2
      else .running (execute i (h.setPc i.next)).2 := by
  have pc : (h.setPc a).pc = a := rfl
  simp only [step, pc, decoded]
  rfl

end Interpreter

namespace Routine

variable {regions : List CodeRegion} {entry : UInt16} {r : Routine} {u : CodeUnit}
  {debugger : Option Debugger}

/-- The unit takes control on from one instruction to another. -/
def Advances (r : Routine) (u : CodeUnit) (debugger : Option Debugger) (a : UInt16) (s : Run)
    (b : UInt16) (s' : Run) : Prop :=
  ∃ k, u.Moves debugger k (r.position a) s (r.position b) s' ∧
    (k = 0 → r.remaining b < r.remaining a)

/-- Control that has passed an instruction comes to the next one. -/
theorem Linked.advances (linked : r.Linked u) (member : i ∈ r.instructions)
    (falls : (i.lowerBody r.targets).getLast?.any MicroOp.endsFlow = false)
    (continues : i.endsPath = false)
    (moves : u.Moves debugger (i.lowerBody r.targets).length (r.position i.address) s
      (r.position i.address + (i.lowerBody r.targets).length) s') :
    r.Advances u debugger i.address s i.next s' := by
  rcases linked.onward i member falls continues with ⟨follows, fewer⟩ | fallThrough
  · exact ⟨_, follows ▸ moves, fun _ => fewer⟩
  · refine ⟨_, moves.trans (.goto fallThrough rfl .refl), ?_⟩
    intro none
    omega

theorem perform_branch (debugger : Option Debugger) (s : Run) (f : Flag) (onZero : Bool)
    (target : Nat) :
    (Op.branch onZero (.flag f) target).perform debugger s =
      .ok (if s.hardware.flag f = !onZero then .goto target else .next) s := by
  simp only [Op.perform, Value.read, inspect, bind, EStateM.bind, pure, EStateM.pure]
  cases s.hardware.flag f <;> cases onZero <;> rfl

/-- One instruction of the interpreter, and what the unit does meanwhile. -/
theorem step_simulated (exact : Exact regions entry r) (linked : r.Linked u)
    (reached : Reach regions entry a) (s : Run) :
    (∃ s', (∀ fuel, u.runFrom debugger (fuel + 1) (r.position a) s = (.exited, s')) ∧
      step regions (s.hardware.setPc a) = .stopped s'.hardware) ∨
    ∃ b s', Reach regions entry b ∧ r.Advances u debugger a s b s' ∧
      step regions (s.hardware.setPc a) = .running (s'.hardware.setPc b) := by
  obtain ⟨i, member, rfl⟩ := exact.covers a reached
  obtain ⟨_, decoded⟩ := exact.decoded member
  have continues := (decodeAt_documented decoded).leaves_eq
  have body := linked.body i member
  have onward {s' : Run} := @Linked.advances r u debugger i s s' linked member
  have shape := exact.shape member
  rw [step_ok decoded]
  generalize execute i = m, leaves i = leaving, i.lowerBody r.targets = ops at *
  cases shape with
  | @straight es m realize =>
    right
    obtain ⟨scratch, performed⟩ := realize.implements debugger s
    have standing (k : Nat) (e : Effect) (found : es[k]? = some e) :
        u.ops[r.position i.address + k]? = some (.effect e) := body k (.effect e) (by simp [found])
    have moves := CodeUnit.moves_effects standing performed
    rw [← List.length_map MicroOp.effect] at moves
    refine ⟨i.next, _, reached.next decoded continues.symm,
      onward (endsFlow_effects es) continues.symm moves, ?_⟩
    rw [realize.blind]
    rfl
  | @branch m f onZero target known effect =>
    right
    rw [effect]
    have op := body 0 _ rfl
    have step := perform_branch debugger s f onZero (r.position target)
    by_cases taken : s.hardware.flag f = !onZero
    · rw [if_pos taken] at step ⊢
      exact ⟨target, s, reached.target decoded known, ⟨1, .goto op step .refl, by simp⟩, rfl⟩
    · rw [if_neg taken] at step ⊢
      exact ⟨i.next, s, reached.next decoded continues.symm,
        onward rfl continues.symm (.next op step .refl), rfl⟩
  | @jump m target known effect =>
    right
    refine ⟨target, s, reached.target decoded known,
      ⟨1, .goto (body 0 _ rfl) rfl .refl, by simp⟩, ?_⟩
    simp [effect]
  | @exit m e effect =>
    left
    refine ⟨{ s with hardware := e.perform s.hardware }, ?_, by simp [effect]⟩
    intro fuel
    have op : u.ops[r.position i.address]? = some (.exit e) := body 0 _ rfl
    simp only [CodeUnit.runFrom, op]
    rfl

/-- The interpreter does not get stuck, and when it stops the unit exits. -/
theorem run_outcome (exact : Exact regions entry r) (linked : r.Linked u)
    (reached : Reach regions entry a) (s : Run) (n : Nat) :
    (∃ h, run regions n (s.hardware.setPc a) = .running h) ∨
      ∃ fuel s', u.runFrom debugger fuel (r.position a) s = (.exited, s') ∧
        run regions n (s.hardware.setPc a) = .stopped s'.hardware := by
  induction n generalizing a s with
  | zero => exact Or.inl ⟨_, rfl⟩
  | succ n ih =>
    rcases step_simulated exact linked reached s with
      ⟨s', exits, stops⟩ | ⟨b, s', reached', ⟨k, moves, _⟩, runs⟩
    · exact Or.inr ⟨1, s', exits 0, by rw [run, stops]⟩
    · rw [run, runs]
      rcases ih reached' s' with running | ⟨fuel, s'', exits, stops⟩
      · exact Or.inl running
      · exact Or.inr ⟨k + fuel, s'', (moves.runFrom fuel).trans exits, stops⟩

/-- A run of the unit that is not cut off exits, and then the interpreter stops. -/
theorem runFrom_outcome (exact : Exact regions entry r) (linked : r.Linked u)
    (reached : Reach regions entry a) (s : Run) (fuel : Nat)
    (ended : (u.runFrom debugger fuel (r.position a) s).1 ≠ .exhausted) :
    ∃ s' n, u.runFrom debugger fuel (r.position a) s = (.exited, s') ∧
      run regions n (s.hardware.setPc a) = .stopped s'.hardware := by
  -- either the moves spend fuel, or there is less of the list left
  induction fuel using Nat.strongRecOn generalizing a s with
  | ind fuel ihFuel =>
    induction left : r.remaining a using Nat.strongRecOn generalizing a s with
    | ind left' ihLeft =>
      rcases step_simulated exact linked reached s with
        ⟨s', exits, stops⟩ | ⟨b, s', reached', ⟨k, moves, fewer⟩, runs⟩
      · cases fuel with
        | zero => exact absurd rfl ended
        | succ fuel => exact ⟨s', 1, exits fuel, by rw [run, stops]⟩
      · have enough : k ≤ fuel := by
          by_contra few
          exact ended (moves.exhausted (Nat.lt_of_not_le few))
        obtain ⟨fuel', rfl⟩ := Nat.exists_eq_add_of_le enough
        rw [moves.runFrom] at ended ⊢
        have rest : ∃ s'' n, u.runFrom debugger fuel' (r.position b) s' = (.exited, s'') ∧
            run regions n (s'.hardware.setPc b) = .stopped s''.hardware := by
          by_cases still : k = 0
          · subst still
            rw [Nat.zero_add] at ihFuel ihLeft
            exact ihLeft _ (left ▸ fewer rfl) reached' s' ended rfl
          · exact ihFuel fuel' (by omega) reached' s' ended
        obtain ⟨s'', n, exits, stops⟩ := rest
        exact ⟨s'', n + 1, exits, by rw [run, runs]; exact stops⟩

/-- The unit of a routine exits with some hardware if and only if the interpreter,
started at the entry, stops with it; and the one runs for ever exactly when the
other does. -/
theorem unit_refines_interpreter (discovered : discover regions entry = .ok r) :
    ∃ u, CodeUnit.generate (fun _ => none) entry r.lower = .ok u ∧
      ∀ (debugger : Option Debugger) (h : Hardware),
        (∀ h', (∃ fuel s, u.invoke debugger fuel h = (.exited, s) ∧ s.hardware = h') ↔
          ∃ n, Interpreter.run regions n (h.setPc entry) = .stopped h') ∧
        ((∀ fuel, (u.invoke debugger fuel h).1 = .exhausted) ↔
          ∀ n, ∃ h', Interpreter.run regions n (h.setPc entry) = .running h') := by
  have exact := discover_exact discovered
  obtain ⟨u, generated, linked⟩ := exact.linked
  refine ⟨u, generated, ?_⟩
  intro debugger h
  have start : r.position entry = 0 := exact.entry_eq ▸ linked.start
  have forward :=
    @run_outcome regions entry r u debugger entry exact linked .entry { hardware := h }
  have backward :=
    @runFrom_outcome regions entry r u debugger entry exact linked .entry { hardware := h }
  simp only [start] at forward backward
  constructor
  · intro h'
    constructor
    · rintro ⟨fuel, s, exits, rfl⟩
      obtain ⟨s', n, exits', stops⟩ := backward fuel (by
        rw [CodeUnit.invoke] at exits
        simp [exits])
      cases exits.symm.trans exits'
      exact ⟨n, stops⟩
    · rintro ⟨n, stops⟩
      rcases forward n with ⟨_, runs⟩ | ⟨fuel, s, exits, stops'⟩
      · cases runs.symm.trans stops
      · cases stops.symm.trans stops'
        exact ⟨fuel, s, exits, rfl⟩
  · constructor
    · intro endless n
      rcases forward n with runs | ⟨fuel, s, exits, _⟩
      · exact runs
      · have cut := endless fuel
        rw [CodeUnit.invoke, exits] at cut
        cases cut
    · intro endless fuel
      by_contra ended
      obtain ⟨_, n, _, stops⟩ := backward fuel ended
      obtain ⟨_, runs⟩ := endless n
      cases runs.symm.trans stops

/-- The theorem at a loop that counts X down and then returns. -/
theorem unit_refines_interpreter_countdown :
    ∃ r, discover [⟨0x8000, #[0xCA, 0xD0, 0xFD, 0x60]⟩] 0x8000 = .ok r ∧
      ∃ u, CodeUnit.generate (fun _ => none) 0x8000 r.lower = .ok u ∧
        ∀ (debugger : Option Debugger) (h : Hardware) (h' : Hardware),
          (∃ fuel s, u.invoke debugger fuel h = (.exited, s) ∧ s.hardware = h') ↔
            ∃ n, Interpreter.run [⟨0x8000, #[0xCA, 0xD0, 0xFD, 0x60]⟩] n (h.setPc 0x8000) =
              .stopped h' := by
  have ok : (discover [⟨0x8000, #[0xCA, 0xD0, 0xFD, 0x60]⟩] 0x8000).toBool = true := by
    decide +kernel
  cases discovered : discover [⟨0x8000, #[0xCA, 0xD0, 0xFD, 0x60]⟩] 0x8000 with
  | error e =>
    rw [discovered] at ok
    cases ok
  | ok r =>
    obtain ⟨u, generated, refines⟩ := unit_refines_interpreter discovered
    exact ⟨r, rfl, u, generated, fun debugger h => (refines debugger h).1⟩

end Routine
end NesRoutine

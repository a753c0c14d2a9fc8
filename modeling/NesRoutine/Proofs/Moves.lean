import NesRoutine.Proofs.Linking

/-! Runs of a unit as sequences of moves. A number of moves from one index to
another is spent from the number of operations that a run may take. -/
namespace NesRoutine

open Exec

namespace CodeUnit

variable {debugger : Option Debugger} {u : CodeUnit}

/-- Control passes from an index to another in this many operations. -/
inductive Moves (debugger : Option Debugger) (u : CodeUnit) :
    Nat → Nat → Run → Nat → Run → Prop where
  | refl {n r} : Moves debugger u 0 n r n r
  | next {n r op r₁ k n' r'} : u.ops[n]? = some op → op.perform debugger r = .ok .next r₁ →
      Moves debugger u k (n + 1) r₁ n' r' → Moves debugger u (k + 1) n r n' r'
  | goto {n r op target r₁ k n' r'} : u.ops[n]? = some op →
      op.perform debugger r = .ok (.goto target) r₁ →
      Moves debugger u k target r₁ n' r' → Moves debugger u (k + 1) n r n' r'

theorem Moves.trans (first : Moves debugger u k n r n' r')
    (second : Moves debugger u k' n' r' n'' r'') : Moves debugger u (k + k') n r n'' r'' := by
  induction first with
  | refl =>
    rw [Nat.zero_add]
    exact second
  | next found step _ ih =>
    rw [Nat.succ_add]
    exact .next found step (ih second)
  | goto found step _ ih =>
    rw [Nat.succ_add]
    exact .goto found step (ih second)

theorem Moves.runFrom (moves : Moves debugger u k n r n' r') (fuel : Nat) :
    u.runFrom debugger (k + fuel) n r = u.runFrom debugger fuel n' r' := by
  induction moves with
  | refl => rw [Nat.zero_add]
  | next found step _ ih => simp only [Nat.succ_add, CodeUnit.runFrom, found, step, ih]
  | goto found step _ ih => simp only [Nat.succ_add, CodeUnit.runFrom, found, step, ih]

/-- A run that may take fewer operations than there are moves is cut off. -/
theorem Moves.exhausted (moves : Moves debugger u k n r n' r') (fewer : fuel < k) :
    (u.runFrom debugger fuel n r).1 = .exhausted := by
  induction moves generalizing fuel with
  | refl => exact absurd fewer (Nat.not_lt_zero _)
  | next found step _ ih =>
    cases fuel with
    | zero => rfl
    | succ fuel =>
      simp only [CodeUnit.runFrom, found, step]
      exact ih (Nat.lt_of_succ_lt_succ fewer)
  | goto found step _ ih =>
    cases fuel with
    | zero => rfl
    | succ fuel =>
      simp only [CodeUnit.runFrom, found, step]
      exact ih (Nat.lt_of_succ_lt_succ fewer)

/-- A list of effects that stands in the unit is performed in as many moves. -/
theorem moves_effects (standing : ∀ (k : Nat) e, es[k]? = some e → u.ops[n + k]? = some (.effect e))
    (performed : Effect.performAll debugger es r = .ok () r') :
    Moves debugger u es.length n r (n + es.length) r' := by
  induction es generalizing n r with
  | nil =>
    cases performed
    exact .refl
  | cons e es ih =>
    rw [Effect.performAll] at performed
    simp only [bind, EStateM.bind] at performed
    cases step : e.perform debugger r with
    | error fault r₁ => simp [step] at performed
    | ok _ r₁ =>
      have rest : ∀ (k : Nat) e, es[k]? = some e → u.ops[n + 1 + k]? = some (.effect e) := by
        intro k e found
        rw [Nat.add_assoc, Nat.add_comm 1 k]
        exact standing (k + 1) e found
      have first : (Op.effect e).perform debugger r = .ok .next r₁ := by
        simp only [Op.perform, bind, EStateM.bind, step, pure, EStateM.pure]
      have moves := ih rest (by simpa [step] using performed)
      rw [Nat.add_assoc, Nat.add_comm 1] at moves
      exact .next (standing 0 e rfl) first moves

end CodeUnit
end NesRoutine

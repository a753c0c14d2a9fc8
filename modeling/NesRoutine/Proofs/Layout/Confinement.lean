import NesRoutine.Proofs.Growth
import NesRoutine.Proofs.Layout.Independence
import NesRoutine.Proofs.Moves

/-! A unit keeps control within itself, whatever it was generated from: addresses
may come twice, in any order and around the end of memory, and instructions may be
empty or end in a label. A run of the unit that stops has come to an exit, to a
scratch byte that nothing was written to, or to a hook that fails. -/
namespace NesRoutine

namespace Exec

/-- The action fails only for a scratch byte that nothing was written to. -/
def FailsUnwritten (e : Exec α) : Prop :=
  ∀ r fault r', e r = .error fault r' →
    ∃ slot, fault = .undefinedVariable slot ∧ r'.scratch.get (Scratch.cell slot) = none

namespace FailsUnwritten

theorem of_total {e : Exec α} (total : Total [] e w) : FailsUnwritten e := by
  intro r fault r' failed
  obtain ⟨a, r₁, succeeds, _⟩ := total r (by simp [Run.Defines])
  cases failed.symm.trans succeeds

theorem bind {e : Exec α} {f : α → Exec β} (first : FailsUnwritten e)
    (rest : ∀ a, FailsUnwritten (f a)) : FailsUnwritten (e >>= f) := by
  intro r fault r' failed
  simp only [Bind.bind, EStateM.bind] at failed
  split at failed
  · exact rest _ _ _ _ failed
  · rename_i step
    cases failed
    exact first _ _ _ step

theorem readScratch (slot : UInt8) : FailsUnwritten (Exec.readScratch slot) := by
  intro r fault r' failed
  simp only [Exec.readScratch] at failed
  split at failed
  · cases failed
  · rename_i unwritten
    cases failed
    exact ⟨slot, rfl, unwritten⟩

theorem read (v : Value) : FailsUnwritten v.read := by
  cases v with
  | scratch slot => exact readScratch slot
  | constant | register | flag | status | memory | indirect =>
    exact of_total (Value.total_read (List.nil_subset []))

theorem write (v : Value) (x : UInt8) : FailsUnwritten (v.write x) :=
  of_total (v.total_write [] x)

theorem change (f : Hardware → Hardware) : FailsUnwritten (Exec.change f) :=
  of_total (total_change [] f)

end FailsUnwritten
end Exec

open Exec (FailsUnwritten)

/-- An effect other than a hook fails only for an unwritten scratch byte. -/
theorem Effect.failsUnwritten (debugger : Option Debugger) {e : Effect}
    (unhooked : ∀ tag, e ≠ .hook tag) : FailsUnwritten (e.perform debugger) := by
  cases e with
  | copy v d => exact (FailsUnwritten.read v).bind fun _ => .write d _
  | complement v d => exact (FailsUnwritten.read v).bind fun _ => .write d _
  | binary op l r d =>
    exact (FailsUnwritten.read l).bind fun _ => (FailsUnwritten.read r).bind fun _ => .write d _
  | addWithCarry v => exact (FailsUnwritten.read v).bind fun _ => .change _
  | compare l r =>
    exact (FailsUnwritten.read l).bind fun _ => (FailsUnwritten.read r).bind fun _ => .change _
  | shift kind v =>
    exact (FailsUnwritten.read v).bind fun _ =>
      (FailsUnwritten.of_total (Exec.total_inspect [] _)).bind fun _ =>
      (FailsUnwritten.write v _).bind fun _ => .change _
  | bitTest v => exact (FailsUnwritten.read v).bind fun _ => .change _
  | setZeroNegative v => exact (FailsUnwritten.read v).bind fun _ => .change _
  | push v => exact (FailsUnwritten.read v).bind fun _ => .change _
  | pop d =>
    exact (FailsUnwritten.of_total (Exec.total_lift [] (modifyGet Hardware.pop))).bind
      fun _ => .write d _
  | hook tag => exact absurd rfl (unhooked tag)

theorem Effect.performHook_failed (failed : performHook debugger tag r = .error fault r') :
    ∃ d ∈ debugger, ∃ h, d.onHook r.visits tag r.hardware = (h, some fault) ∧
      r' = { r with hardware := h, visits := ⟨tag, r.hardware⟩ :: r.visits } := by
  cases debugger with
  | none => cases failed
  | some d =>
    refine ⟨d, rfl, ?_⟩
    simp only [performHook] at failed
    split at failed
    · cases failed
    · rename_i acted
      cases failed
      exact ⟨_, acted, rfl⟩

/-- How a run stops at an operation, and what it leaves. -/
inductive Op.Stops (debugger : Option Debugger) : Op → Run → Ending → Run → Prop where
  | exit {e r} :
      Stops debugger (.exit e) r .exited { r with hardware := e.perform r.hardware }
  | unwritten {op r slot r'} : op.perform debugger r = .error (.undefinedVariable slot) r' →
      r'.scratch.get (Scratch.cell slot) = none →
      Stops debugger op r (.faulted (.undefinedVariable slot)) r'
  | hook {d tag r h fault} : d ∈ debugger → d.onHook r.visits tag r.hardware = (h, some fault) →
      Stops debugger (.effect (.hook tag)) r (.faulted fault)
        { r with hardware := h, visits := ⟨tag, r.hardware⟩ :: r.visits }

/-- The operation was not supplied from outside. -/
def Op.IsBuiltIn : Op → Prop
  | custom _ => False
  | _ => True

theorem Op.IsBuiltIn.stops_of_error {op : Op} (builtIn : op.IsBuiltIn)
    (failed : op.perform debugger r = .error fault r') :
    op.Stops debugger r (.faulted fault) r' := by
  have unwritten (fails : FailsUnwritten (op.perform debugger)) :
      op.Stops debugger r (.faulted fault) r' := by
    obtain ⟨slot, rfl, empty⟩ := fails r fault r' failed
    exact .unwritten failed empty
  cases op with
  | effect e =>
    by_cases hooked : ∃ tag, e = .hook tag
    · obtain ⟨tag, rfl⟩ := hooked
      have raised : Effect.performHook debugger tag r = .error fault r' := by
        simp only [perform, Effect.perform, bind, EStateM.bind] at failed
        split at failed
        · cases failed
        · rename_i raised
          cases failed
          exact raised
      obtain ⟨d, given, h, acted, rfl⟩ := Effect.performHook_failed raised
      exact .hook given acted
    · refine unwritten ((Effect.failsUnwritten debugger ?_).bind fun _ => ?_)
      · exact not_exists.mp hooked
      · exact .of_total (Exec.total_pure [] _)
  | goto target => cases failed
  | branch onZero condition target =>
    exact unwritten ((FailsUnwritten.read condition).bind fun _ => .of_total (Exec.total_pure [] _))
  | exit e => cases failed
  | custom action => exact builtIn.elim

/-- A built-in operation sends control only where its text says. -/
theorem Op.IsBuiltIn.flow_mem {op : Op} (builtIn : op.IsBuiltIn)
    (step : op.perform debugger r = .ok flow r') : flow ∈ op.flows := by
  cases op with
  | effect e =>
    simp only [perform, bind, EStateM.bind] at step
    split at step
    · cases step
      exact List.mem_singleton_self _
    · cases step
  | goto target =>
    cases step
    exact List.mem_singleton_self _
  | branch onZero condition target =>
    simp only [perform, bind, EStateM.bind] at step
    split at step
    · rename_i value _ _
      cases step
      cases (value == 0) == onZero <;> simp [flows]
    · cases step
  | exit e =>
    cases step
    exact List.mem_singleton_self _
  | custom action => exact builtIn.elim

/-- Only at an exit does control leave. -/
theorem Op.IsBuiltIn.stops_of_exit {op : Op} (builtIn : op.IsBuiltIn)
    (left : op.perform debugger r = .ok .exit r') : op.Stops debugger r .exited r' := by
  have possible := builtIn.flow_mem left
  cases op with
  | exit e =>
    cases left
    exact .exit
  | effect | goto | branch | custom => simp [flows] at possible

/-- Control can stand at the index. -/
def Layout.Standing (xs : List Lowered) (n : Nat) : Prop :=
  ∃ x left later, Stands xs n x left later

namespace CodeUnit

variable {u : CodeUnit} {debugger : Option Debugger}

/-- Every path through the unit leads to an operation that is built in. -/
def Confined (u : CodeUnit) : Prop :=
  ∀ n w, u.Path n w → ∃ op, u.ops[n]? = some op ∧ op.IsBuiltIn

/-- Wherever a run has moved to, a path leads there as well. -/
theorem Confined.path_of_moves (confined : u.Confined) (path : u.Path n w)
    (moves : u.Moves debugger k n r n' r') : ∃ w', u.Path n' w' := by
  induction moves generalizing w with
  | refl => exact ⟨w, path⟩
  | next found step _ ih =>
    obtain ⟨op, found', builtIn⟩ := confined _ w path
    cases found.symm.trans found'
    exact ih (path.next found (builtIn.flow_mem step))
  | goto found step _ ih =>
    obtain ⟨op, found', builtIn⟩ := confined _ w path
    cases found.symm.trans found'
    exact ih (path.goto found (builtIn.flow_mem step))

/-- A run moves on until it is cut off, or stops at an operation. -/
theorem Confined.runFrom_stops (confined : u.Confined) (path : u.Path n w)
    (ran : u.runFrom debugger fuel n r = (ending, r')) :
    (ending = .exhausted ∧ ∃ n', u.Moves debugger fuel n r n' r') ∨
      ∃ k < fuel, ∃ n' s op, u.Moves debugger k n r n' s ∧ u.ops[n']? = some op ∧
        op.Stops debugger s ending r' := by
  induction fuel generalizing n w r with
  | zero =>
    cases ran
    exact .inl ⟨rfl, n, .refl⟩
  | succ fuel ih =>
    obtain ⟨op, found, builtIn⟩ := confined n w path
    have stops (stop : op.Stops debugger r ending r') :
        ∃ k < fuel + 1, ∃ n' s op, u.Moves debugger k n r n' s ∧ u.ops[n']? = some op ∧
          op.Stops debugger s ending r' :=
      ⟨0, Nat.succ_pos fuel, n, r, op, .refl, found, stop⟩
    have onward {t : Nat} {r₁ : Run} {w' : List UInt8} (path : u.Path t w')
        (move : ∀ {k n' s}, u.Moves debugger k t r₁ n' s → u.Moves debugger (k + 1) n r n' s)
        (ran : u.runFrom debugger fuel t r₁ = (ending, r')) :
        (ending = .exhausted ∧ ∃ n', u.Moves debugger (fuel + 1) n r n' r') ∨
          ∃ k < fuel + 1, ∃ n' s op, u.Moves debugger k n r n' s ∧ u.ops[n']? = some op ∧
            op.Stops debugger s ending r' := by
      rcases ih path ran with ⟨cut, n', moves⟩ | ⟨k, fewer, n', s, op', moves, stop⟩
      · exact .inl ⟨cut, n', move moves⟩
      · exact .inr ⟨k + 1, Nat.succ_lt_succ fewer, n', s, op', move moves, stop⟩
    simp only [runFrom, found] at ran
    cases step : op.perform debugger r with
    | error fault r₁ =>
      simp only [step] at ran
      cases ran
      exact .inr (stops (builtIn.stops_of_error step))
    | ok flow r₁ =>
      have possible := builtIn.flow_mem step
      simp only [step] at ran
      cases flow with
      | next => exact onward (path.next found possible) (.next found step) ran
      | goto target => exact onward (path.goto found possible) (.goto found step) ran
      | exit =>
        cases ran
        exact .inr (stops (builtIn.stops_of_exit step))

namespace LaysOut
open Layout

variable {xs : List Lowered} {layout : Layout}

/-- The operation of a micro-operation passes control on only if that does not end
the flow, and sends it only to labels. -/
theorem flows (lays : u.LaysOut xs layout) (unlabelled : ∀ l, m ≠ .label l)
    (generated : layout.generateDefault m = .ok op) :
    op.IsBuiltIn ∧ (.next ∈ op.flows → m.endsFlow = false) ∧
      ∀ k, .goto k ∈ op.flows → ∃ target, (target, k) ∈ (spans 0 xs).flatMap (·.marks) := by
  cases m with
  | effect e =>
    cases eq_of_generateEffect generated
    exact ⟨trivial, fun _ => rfl, by simp [Op.flows]⟩
  | label l => exact absurd rfl (unlabelled l)
  | exit e =>
    cases generated
    exact ⟨trivial, by simp [Op.flows], by simp [Op.flows]⟩
  | goto target =>
    obtain ⟨k, marked, rfl⟩ := lays.resolved generated
    refine ⟨trivial, by simp [Op.flows], ?_⟩
    intro k' flow
    have same : k' = k := by simpa [Op.flows] using flow
    exact ⟨target, same ▸ marked⟩
  | branch onZero condition target =>
    obtain ⟨k, marked, rfl⟩ := lays.resolved generated
    refine ⟨trivial, fun _ => rfl, ?_⟩
    intro k' flow
    have same : k' = k := by simpa [Op.flows] using flow
    exact ⟨target, same ▸ marked⟩

/-- Where control stands there is an operation, and wherever that sends it control
stands again. -/
theorem within (lays : u.LaysOut xs layout) (standing : Standing xs n) :
    ∃ op, u.ops[n]? = some op ∧ op.IsBuiltIn ∧ (.next ∈ op.flows → Standing xs (n + 1)) ∧
      ∀ k, .goto k ∈ op.flows → Standing xs k := by
  obtain ⟨x, left, later, stands⟩ := standing
  obtain ⟨y, rest, later', _, stands, settled⟩ := stands.settles
  rcases settled with ⟨rfl, slot⟩ | ⟨m, rest', rfl, unlabelled, slot⟩
  · rcases lays.onward slot with ⟨k, z, later'', found, _, there⟩ | ⟨found, _⟩
    · have standing : Standing xs k := ⟨z, _, later'', there⟩
      exact ⟨_, found, trivial, by simp [Op.flows], by simpa [Op.flows] using standing⟩
    · exact ⟨_, found, trivial, by simp [Op.flows], by simp [Op.flows]⟩
  · obtain ⟨op, generated, found⟩ := lays.made slot
    obtain ⟨builtIn, passes, marked⟩ := lays.flows unlabelled generated
    refine ⟨op, found, builtIn, ?_, ?_⟩
    · intro flow
      have there := stands.advance (passes flow)
      rw [opSlots_cons unlabelled] at there
      exact ⟨y, rest', later', there⟩
    · intro k flow
      obtain ⟨target, marked⟩ := marked k flow
      obtain ⟨z, _, left, later'', _, there⟩ := Stands.ofMark marked
      exact ⟨z, left, later'', there⟩

/-- Control stands at the end of every path from where it stood first. -/
theorem confined (lays : u.LaysOut xs layout) (nonempty : xs ≠ []) : u.Confined := by
  have standing {n w} (path : u.Path n w) : Standing xs n := by
    induction path with
    | start =>
      obtain ⟨x, xs, rfl⟩ := List.exists_cons_of_ne_nil nonempty
      obtain ⟨later, stands⟩ := Stands.first x xs
      exact ⟨x, _, later, stands⟩
    | next _ found flow ih =>
      obtain ⟨op, found', _, next, _⟩ := lays.within ih
      cases found.symm.trans found'
      exact next flow
    | goto _ found flow ih =>
      obtain ⟨op, found', _, _, goto⟩ := lays.within ih
      cases found.symm.trans found'
      exact goto _ flow
  intro n w path
  obtain ⟨op, found, builtIn, _⟩ := lays.within (standing path)
  exact ⟨op, found, builtIn⟩

end LaysOut
end CodeUnit

namespace Compiler
open CodeUnit

/-- Without custom generators, every path through a unit that a compiler generates
stays within it. A run takes such a path until it is cut off, or stops at an exit, at
a scratch byte that nothing was written to, or at a hook that fails. It is said to have
run off the end only if the hook that it stands at fails with just that. -/
theorem generate_confined (c : Compiler) (plain : c.customizer.generators = fun _ => none)
    (a : UInt16) (xs : List Lowered) (u : CodeUnit) (generated : (c.generate a xs).1 = .ok u) :
    (∀ n w, u.Path n w → n < u.ops.size) ∧
    ∀ debugger h,
      (∀ k n r, u.Moves debugger k 0 { hardware := h } n r → n < u.ops.size) ∧
      ∀ fuel ending r', u.invoke debugger fuel h = (ending, r') →
        ((ending = .exhausted ∧ ∃ n, u.Moves debugger fuel 0 { hardware := h } n r') ∨
          ∃ k < fuel, ∃ n r op, u.Moves debugger k 0 { hardware := h } n r ∧
            u.ops[n]? = some op ∧ op.Stops debugger r ending r') ∧
        ∀ entry, ending = .faulted (.ranOffEnd entry) →
          ∃ d ∈ debugger, ∃ k < fuel, ∃ n r tag, u.Moves debugger k 0 { hardware := h } n r ∧
            u.ops[n]? = some (.effect (.hook tag)) ∧
            (d.onHook r.visits tag r.hardware).2 = some (.ranOffEnd entry) := by
  have confined : u.Confined := by
    rcases c.generate_cases a xs with ⟨u', ⟨nonempty, generates⟩, rfl, made⟩ | ⟨e, failed⟩
    · rw [made] at generated
      cases generated
      rw [plain] at generates
      obtain ⟨layout, lays⟩ := laysOut_of_generate generates
      exact lays.confined nonempty
    · rw [failed] at generated
      cases generated
  have inside (n : Nat) (w : List UInt8) (path : u.Path n w) : n < u.ops.size := by
    obtain ⟨op, found, _⟩ := confined n w path
    exact (Array.getElem?_eq_some_iff.mp found).1
  refine ⟨inside, ?_⟩
  intro debugger h
  constructor
  · intro k n r moves
    obtain ⟨w, path⟩ := confined.path_of_moves .start moves
    exact inside n w path
  · intro fuel ending r' ran
    have stops := confined.runFrom_stops .start ran
    refine ⟨stops, ?_⟩
    rintro entry rfl
    rcases stops with ⟨cut, _⟩ | ⟨k, fewer, n, r, op, moves, found, stop⟩
    · cases cut
    · cases stop with
      | hook given acted =>
        exact ⟨_, given, k, fewer, n, r, _, moves, found, congrArg Prod.snd acted⟩

/-- Instructions at addresses that come twice, out of order and at the end of memory,
one of them empty and one with nothing but labels. -/
def scattered : List Lowered :=
  [⟨{ (default : Instruction) with address := 0x8000 },
      [.effect (.hook 1), .branch true .x (.inner 0x8000 0)]⟩,
    ⟨{ (default : Instruction) with address := 0xFFFF }, []⟩,
    ⟨{ (default : Instruction) with address := 0x8001 }, [.goto (.inner 0x8000 1)]⟩,
    ⟨{ (default : Instruction) with address := 0x8001 },
      [.label (.inner 0x8000 0), .label (.inner 0x8000 1)]⟩]

theorem generate_scattered : ∃ u,
    CodeUnit.generate (fun _ => none) 0x8000 scattered = .ok u ∧
      (Compiler.generate { regions := [] } 0x8000 scattered).1 = .ok u := by
  obtain ⟨u, generates⟩ : ∃ u, CodeUnit.generate (fun _ => none) 0x8000 scattered = .ok u :=
    generate_ok_iff.mpr (by decide)
  refine ⟨u, generates, ?_⟩
  rw [Compiler.generate, if_neg (by decide), generates]

/-- Both labels lead to the last operation, which the layout has put behind them. -/
theorem generate_confined_scattered : ∃ u,
    (Compiler.generate { regions := [] } 0x8000 scattered).1 = .ok u ∧ u.ops.size = 6 ∧
      ∀ debugger h, (∀ k n r, u.Moves debugger k 0 { hardware := h } n r → n < 6) ∧
        ((∀ d ∈ debugger, ∀ visits tag h entry,
            (d.onHook visits tag h).2 ≠ some (.ranOffEnd entry)) →
          ∀ fuel entry, (u.invoke debugger fuel h).1 ≠ .faulted (.ranOffEnd entry)) := by
  obtain ⟨u, generates, generated⟩ := generate_scattered
  have size : u.ops.size = 6 := generate_size generates
  obtain ⟨-, runs⟩ := generate_confined _ rfl _ _ u generated
  refine ⟨u, generated, size, ?_⟩
  intro debugger h
  constructor
  · exact size ▸ (runs debugger h).1
  · intro honest fuel entry faulted
    obtain ⟨-, hooked⟩ := (runs debugger h).2 fuel _ _ rfl
    obtain ⟨d, given, _, _, _, r, tag, _, _, failed⟩ := hooked entry faulted
    exact honest d given r.visits tag r.hardware entry failed

/-- A debugger that fails every run as if it had run off the end of the unit. -/
def posing (entry : UInt16) : Debugger where
  onHook _ _ h := (h, some (.ranOffEnd entry))

/-- What a hook fails with is passed on, so the run of a unit that stays within itself
can end as if it had not. -/
theorem ranOffEnd_of_posing : ∃ u,
    (Compiler.generate { regions := [] } 0x8000 scattered).1 = .ok u ∧
      ∀ fuel h, (u.invoke (some (posing 0x8000)) (fuel + 1) h).1 =
        .faulted (.ranOffEnd 0x8000) := by
  obtain ⟨u, generates, generated⟩ := generate_scattered
  obtain ⟨layout, lays⟩ := laysOut_of_generate generates
  have first : (Layout.slotsOf scattered)[0]? = some (.op (.effect (.hook 1))) := rfl
  obtain ⟨op, made, found⟩ := lays.made first
  cases Layout.eq_of_generateEffect (e := .hook 1) made
  refine ⟨u, generated, ?_⟩
  intro fuel h
  rw [CodeUnit.invoke, CodeUnit.runFrom, found]
  rfl

end Compiler
end NesRoutine

import NesRoutine.Proofs.CallClosure
import NesRoutine.Proofs.Moves
import NesRoutine.Proofs.Nesting

/-! Whatever a unit calls when it runs was taken up when it was compiled ahead. A run leaves
its unit by the exit of one instruction; where that leads to, at once and after the matching
return, is known from the instruction alone. -/
namespace NesRoutine

namespace Hardware

/-- The bytes on top of the stack are the same, wherever the stack pointers stand. -/
def SameTop (n : Nat) (h h' : Hardware) : Prop :=
  ∀ bs, bs.length = n → h.Holds (h.register .sp) bs → h'.Holds (h'.register .sp) bs

variable {h later : Hardware}

theorem SameTop.refl (n : Nat) (h : Hardware) : h.SameTop n h := fun _ _ held => held

/-- What was opened finds its bytes on a stack with the same top. -/
theorem SameTop.bytes {o : Opening} (same : (o.apply h).SameTop o.size later) (taken : o.Taken h) :
    later.Holds (later.register .sp) (Pending.bytes ⟨o, h⟩) := by
  have opened := Pending.open_sameStack taken
  refine same _ (Pending.length_bytes ⟨o, h⟩) ?_
  have small : o.size ≤ 256 := by cases o <;> simp [Opening.size]
  have held : (h.pushed (Pending.bytes ⟨o, h⟩)).Holds _ (Pending.bytes ⟨o, h⟩ ++ []) :=
    Holds.pushed trivial (by simpa [Pending.length_bytes] using small)
  rw [List.append_nil, ← opened.sp] at held
  exact held.congr opened.bytes

/-- The matching return continues where PC stood at the call. -/
theorem SameTop.returnFromSubroutine_pc (same : (h.call target).SameTop 2 later) :
    later.returnFromSubroutine.pc = h.pc := by
  have held := SameTop.bytes (o := .call target) same trivial
  exact (Hardware.returnFromSubroutine_pc held).trans (UInt16.sub_add_cancel _ 1)

theorem SameTop.returnFromInterrupt_pc (same : h.softwareInterrupt.SameTop 3 later) :
    later.returnFromInterrupt.pc = h.pc + 2 := by
  have held := SameTop.bytes (o := .softwareInterrupt) same trivial
  exact (Hardware.returnFromInterrupt_pc held).1

end Hardware

namespace CodeUnit

variable {u : CodeUnit} {debugger : Option Debugger} {h : Hardware}

/-- A run of the unit on the hardware comes to this exit in this state. -/
def ComesTo (debugger : Option Debugger) (u : CodeUnit) (h : Hardware) (e : Exit) (s : Run) :
    Prop :=
  ∃ k n, u.Moves debugger k 0 { hardware := h } n s ∧ u.ops[n]? = some (.exit e)

/-- The exit that a run comes to is one that the instruction was lowered to. -/
def LeavesThrough (debugger : Option Debugger) (u : CodeUnit) (h : Hardware) (i : Instruction) :
    Prop :=
  ∃ x ∈ u.instructions, x.instruction = i ∧ ∃ e s, .exit e ∈ x.body ∧ u.ComesTo debugger h e s

theorem ComesTo.invoke (comes : u.ComesTo debugger h e s)
    (ended : (u.invoke debugger fuel h).1 ≠ .exhausted) :
    u.invoke debugger fuel h = (.exited, { s with hardware := e.perform s.hardware }) := by
  obtain ⟨k, n, moves, found⟩ := comes
  rw [CodeUnit.invoke] at ended ⊢
  have enough : k ≤ fuel := by
    by_contra few
    exact ended (moves.exhausted (Nat.lt_of_not_le few))
  obtain ⟨rest, rfl⟩ := Nat.exists_eq_add_of_le enough
  rw [moves.runFrom] at ended ⊢
  cases rest with
  | zero => exact absurd rfl ended
  | succ rest =>
    simp only [runFrom, found]
    rfl

/-- A run that is not cut off comes to an exit, along a path through the unit. -/
theorem Safe.exits (safe : u.Safe) (path : u.Path n w) {s : Run} (defined : s.Defines w)
    (ended : (u.runFrom debugger fuel n s).1 ≠ .exhausted) :
    ∃ k n' w' s' e, u.Moves debugger k n s n' s' ∧ u.Path n' w' ∧
      u.ops[n']? = some (.exit e) := by
  induction fuel generalizing n w s with
  | zero => exact absurd rfl ended
  | succ fuel ih =>
    obtain ⟨op, found, ready⟩ := safe n w path
    obtain ⟨flow, s', step, possible, defined'⟩ := ready.perform debugger defined
    simp only [CodeUnit.runFrom, found, step] at ended
    cases flow with
    | next =>
      obtain ⟨k, n', w', s'', e, moves, rest⟩ := ih (path.next found possible) defined' ended
      exact ⟨k + 1, n', w', s'', e, .next found step moves, rest⟩
    | goto target =>
      obtain ⟨k, n', w', s'', e, moves, rest⟩ := ih (path.goto found possible) defined' ended
      exact ⟨k + 1, n', w', s'', e, .goto found step moves, rest⟩
    | exit =>
      -- of the built-in operations only an exit lets control out
      cases op with
      | exit e => exact ⟨0, n, w, s, e, .refl, path, found⟩
      | effect e => simp [Op.flows] at possible
      | goto target => simp [Op.flows] at possible
      | branch onZero condition target => simp [Op.flows] at possible
      | custom action => exact ready.elim

end CodeUnit

open Routine (CallEdge Called)
open CodeUnit (IsCompiled)

namespace CodeUnit.IsCompiled

variable {regions : List CodeRegion} {u : CodeUnit} {debugger : Option Debugger} {h : Hardware}

theorem leavesThrough (compiled : IsCompiled regions a u)
    (ended : (u.invoke debugger fuel h).1 ≠ .exhausted) : ∃ i, u.LeavesThrough debugger h i := by
  obtain ⟨r, discovered, generated⟩ := compiled
  have exact := Routine.discover_exact discovered
  obtain ⟨u', generated', linked⟩ := exact.linked
  cases generated.symm.trans generated'
  obtain ⟨_, _, _, instructions, _⟩ := CodeUnit.generate_ok generated
  obtain ⟨k, n, w, s, e, moves, path, found⟩ :=
    (exact.safe linked).exits .start (s := { hardware := h }) (by simp [Run.Defines]) ended
  obtain ⟨i, member, lowered⟩ := exact.exit_lowered linked path found
  have listed : (⟨i, i.lower r.targets⟩ : Lowered) ∈ u.instructions := by
    rw [instructions]
    exact List.mem_map_of_mem (r.ordered_perm.mem_iff.mpr member)
  exact ⟨i, _, listed, rfl, e, s, List.mem_append_right _ lowered, k, n, moves, found⟩

/-- What a run leaves behind is what the exit of the instruction makes of some hardware. -/
theorem left_eq (compiled : IsCompiled regions a u)
    (ended : (u.invoke debugger fuel h).1 ≠ .exhausted) (leaves : u.LeavesThrough debugger h i) :
    ∃ r e before, Routine.discover regions a = .ok r ∧ i ∈ r.instructions ∧
      .exit e ∈ i.lowerBody r.targets ∧
      (u.invoke debugger fuel h).2.hardware = e.perform before := by
  obtain ⟨r, discovered, generated⟩ := compiled
  obtain ⟨_, _, _, instructions, _⟩ := CodeUnit.generate_ok generated
  obtain ⟨x, listed, rfl, e, s, lowered, comes⟩ := leaves
  rw [instructions] at listed
  obtain ⟨i, member, rfl⟩ := List.mem_map.mp listed
  refine ⟨r, e, s.hardware, discovered, r.ordered_perm.mem_iff.mp member, ?_, ?_⟩
  · rcases List.mem_append.mp lowered with labelled | lowered
    · split at labelled <;> simp at labelled
    · exact lowered
  · rw [comes.invoke ended]

/-- A run that leaves through a call is at its target, and comes back behind it. -/
theorem left_jsr (compiled : IsCompiled regions a u)
    (ended : (u.invoke debugger fuel h).1 ≠ .exhausted) (leaves : u.LeavesThrough debugger h i)
    (jsr : i.mnemonic = .jsr) :
    let left := (u.invoke debugger fuel h).2.hardware
    CallEdge regions a left.pc ∧
      ∀ later, left.SameTop 2 later → CallEdge regions a later.returnFromSubroutine.pc := by
  obtain ⟨r, e, before, discovered, member, lowered, left⟩ := compiled.left_eq ended leaves
  have call : e = .call i.operandWord (i.address + 3) := by
    simpa [Instruction.lowerBody, jsr] using lowered
  rw [call, Exit.perform] at left
  intro after
  rw [show after = _ from left]
  constructor
  · rw [Hardware.call_eq]
    exact .target discovered member jsr
  · intro later same
    rw [same.returnFromSubroutine_pc]
    exact .back discovered member jsr

theorem left_brk (compiled : IsCompiled regions a u)
    (ended : (u.invoke debugger fuel h).1 ≠ .exhausted) (leaves : u.LeavesThrough debugger h i)
    (brk : i.mnemonic = .brk) (same : (u.invoke debugger fuel h).2.hardware.SameTop 3 later) :
    CallEdge regions a later.returnFromInterrupt.pc := by
  obtain ⟨r, e, before, discovered, member, lowered, left⟩ := compiled.left_eq ended leaves
  have interrupt : e = .softwareInterrupt i.address := by
    simpa [Instruction.lowerBody, brk] using lowered
  rw [left, interrupt, Exit.perform] at same
  rw [same.returnFromInterrupt_pc]
  exact .resume discovered member brk

end CodeUnit.IsCompiled

namespace Compiler

variable {regions : List CodeRegion} {c : Compiler}

/-- When the unit of an address that was compiled ahead runs to its end, it leaves through
one of its instructions. If that is a call, then where it goes and where the matching
return comes back to were reported; if it is a software interrupt, where that resumes. -/
theorem precompile_covers_calls (driven : Driven regions {} c) (entries : List UInt16)
    (compiled : a ∈ (c.precompile entries).1.compiled) :
    let report := (c.precompile entries).1
    ∃ u, (c.precompile entries).2.get? a = some u ∧
      ∀ (debugger : Option Debugger) fuel h, (u.invoke debugger fuel h).1 ≠ .exhausted →
        let left := (u.invoke debugger fuel h).2.hardware
        (u.invoke debugger fuel h).1 = .exited ∧ (∃ i, u.LeavesThrough debugger h i) ∧
        ∀ i, u.LeavesThrough debugger h i →
          (i.mnemonic = .jsr → left.pc ∈ report.addresses ∧
            ∀ later, left.SameTop 2 later → later.returnFromSubroutine.pc ∈ report.addresses) ∧
          (i.mnemonic = .brk →
            ∀ later, left.SameTop 3 later → later.returnFromInterrupt.pc ∈ report.addresses) := by
  intro report
  have ahead : CompiledAhead regions entries c report _ := driven.compiledAhead entries
  obtain ⟨called, r, discovered⟩ := ahead.mem_compiled.mp compiled
  obtain ⟨u, generated, _⟩ := (Routine.discover_exact discovered).linked
  have made : IsCompiled regions a u := ⟨r, discovered, generated⟩
  have followed {b : UInt16} (edge : CallEdge regions a b) : b ∈ report.addresses :=
    (ahead.reported b).mpr (called.onward edge)
  refine ⟨u, (ahead.kept a u).mpr (.inr ⟨compiled, made⟩), ?_⟩
  intro debugger fuel h ended left
  obtain ⟨i, leaves⟩ := made.leavesThrough ended
  have exited : (u.invoke debugger fuel h).1 = .exited := by
    obtain ⟨_, _, _, _, _, _, comes⟩ := leaves
    rw [comes.invoke ended]
  refine ⟨exited, ⟨i, leaves⟩, ?_⟩
  intro i leaves
  constructor
  · intro jsr
    obtain ⟨target, back⟩ := made.left_jsr ended leaves jsr
    exact ⟨followed target, fun later same => followed (back later same)⟩
  · exact fun brk later same => followed (made.left_brk ended leaves brk same)

/-- A call in the last three bytes of memory. -/
def callingLast : Compiler where
  regions := [⟨0xFFFD, #[0x20, 0x00, 0x80]⟩]

/-- The call returns to the first address of memory, where there is no code. -/
theorem precompile_covers_calls_wrapped :
    let report := (callingLast.precompile [0xFFFD]).1
    report.addresses = [0xFFFD, 0x8000, 0x0000] ∧ 0xFFFD ∈ report.compiled ∧
    ∃ u, (callingLast.precompile [0xFFFD]).2.get? 0xFFFD = some u ∧ ∀ h,
      let left := (u.invoke none 1 h).2.hardware
      (u.invoke none 1 h).1 = .exited ∧ left.pc ∈ report.addresses ∧
        left.returnFromSubroutine.pc ∈ report.addresses := by
  have addresses : (callingLast.precompile [0xFFFD]).1.addresses = [0xFFFD, 0x8000, 0x0000] :=
    precompile_view (·.1.addresses) 4 (by decide) (by decide +kernel)
  have compiled : (callingLast.precompile [0xFFFD]).1.compiled = #[0xFFFD] :=
    precompile_view (·.1.compiled) 4 (by decide) (by decide +kernel)
  have member : 0xFFFD ∈ (callingLast.precompile [0xFFFD]).1.compiled := by simp [compiled]
  have shape : ((callingLast.precompile [0xFFFD]).2.get? 0xFFFD).map
      (fun u => (u.ops.toList.map Op.flows, u.instructions.map (·.instruction.mnemonic))) =
      some ([[.exit]], [.jsr]) :=
    precompile_view (fun ahead => (ahead.2.get? 0xFFFD).map
      fun u => (u.ops.toList.map Op.flows, u.instructions.map (·.instruction.mnemonic)))
      4 (by decide) (by decide +kernel)
  have driven : Driven callingLast.regions {} callingLast := .fresh none _ {}
  obtain ⟨u, found, covers⟩ := precompile_covers_calls driven [0xFFFD] member
  rw [found, Option.map_some, Option.some.injEq, Prod.mk.injEq] at shape
  obtain ⟨flows, mnemonics⟩ := shape
  obtain ⟨op, ops, leaves⟩ := List.map_eq_singleton_iff.mp flows
  refine ⟨addresses, member, u, found, ?_⟩
  intro h
  have ends : (u.invoke none 1 h).1 = .exited := by
    have first : u.ops[0]? = some op := by
      rw [← Array.getElem?_toList, ops]
      rfl
    rw [CodeUnit.invoke, CodeUnit.runFrom, first]
    cases op with
    | exit e => rfl
    | effect | goto | branch | custom => simp [Op.flows] at leaves
  obtain ⟨exited, ⟨i, leaves⟩, covers⟩ := covers none 1 h (by simp [ends])
  have jsr : i.mnemonic = .jsr := by
    obtain ⟨x, listed, rfl, _⟩ := leaves
    have known := List.mem_map_of_mem (f := (·.instruction.mnemonic)) listed
    rwa [mnemonics, List.mem_singleton] at known
  obtain ⟨target, back⟩ := (covers i leaves).1 jsr
  exact ⟨exited, target, back _ (.refl 2 _)⟩

end Compiler
end NesRoutine

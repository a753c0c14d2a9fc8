import NesRoutine.Compiler
import NesRoutine.Proofs.Linking

/-! Nothing but decoding can go wrong in compiling, and nothing can go wrong in
running what was compiled. Every path through the unit of a routine stays within
the unit and writes a scratch byte before it reads it. -/
namespace NesRoutine

open Interpreter

theorem Effect.Scoped.mono (inScope : Effect.Scoped w es) (fewer : w ⊆ w') :
    Effect.Scoped w' es := by
  induction es generalizing w w' with
  | nil => trivial
  | cons e es ih =>
    obtain ⟨plain, reads, rest⟩ := inScope
    refine ⟨plain, List.Subset.trans reads fewer, ih rest ?_⟩
    exact List.append_subset.mpr ⟨List.subset_append_left _ _,
      List.Subset.trans fewer (List.subset_append_right _ _)⟩

namespace Routine

variable {regions : List CodeRegion} {entry : UInt16} {r : Routine} {u : CodeUnit}

/-- Control can pass the end of the instruction. -/
def Passes (r : Routine) (i : Instruction) : Prop :=
  (i.lowerBody r.targets).getLast?.any MicroOp.endsFlow = false ∧ i.endsPath = false

/-- What is left of a lowered instruction when the scratch bytes in `w` are written. -/
inductive Rest (r : Routine) (i : Instruction) (w : List UInt8) : List MicroOp → Prop where
  | effects {es} : r.Passes i → Effect.Scoped w es → Rest r i w (es.map .effect)
  | branch {f onZero target} : r.Passes i → i.target = some target →
      Rest r i w [.branch onZero (.flag f) (.instruction target)]
  | jump {target} : i.target = some target → Rest r i w [.goto (.instruction target)]
  | exit {e} : Rest r i w [.exit e]

/-- The index stands in an instruction, where this much of it is left. -/
structure Inside (r : Routine) (n : Nat) (w : List UInt8) (i : Instruction)
    (left : List MicroOp) : Prop where
  member : i ∈ r.instructions
  rest : r.Rest i w left
  split : ∃ before, i.lowerBody r.targets = before ++ left ∧
    n = r.position i.address + before.length

theorem Inside.head (inside : r.Inside n w i (m :: left)) (linked : r.Linked u) :
    u.ops[n]? = some (m.link r.position) := by
  obtain ⟨before, body, rfl⟩ := inside.split
  exact linked.body i inside.member before.length m (by simp [body])

theorem Inside.tail (inside : r.Inside n w i (m :: left)) (rest : r.Rest i w' left) :
    r.Inside (n + 1) w' i left := by
  obtain ⟨before, body, rfl⟩ := inside.split
  exact ⟨inside.member, rest, before ++ [m], by simp [body], by simp [Nat.add_assoc]⟩

theorem Exact.rest (exact : Exact regions entry r) (member : i ∈ r.instructions)
    (w : List UInt8) : r.Rest i w (i.lowerBody r.targets) := by
  obtain ⟨_, decoded⟩ := exact.decoded member
  have continues := (decodeAt_documented decoded).leaves_eq
  have shape := exact.shape member
  have passes : (i.lowerBody r.targets).getLast?.any MicroOp.endsFlow = false →
      leaves i = false → r.Passes i := fun falls stays => ⟨falls, continues ▸ stays⟩
  generalize execute i = m, leaves i = leaving, i.lowerBody r.targets = body at shape passes ⊢
  cases shape with
  | straight realize =>
    exact .effects (passes (endsFlow_effects _) rfl) (realize.inScope.mono (List.nil_subset w))
  | branch target => exact .branch (passes rfl rfl) target
  | jump target => exact .jump target
  | exit => exact .exit

theorem Exact.inside (exact : Exact regions entry r) (reached : Reach regions entry a)
    (w : List UInt8) :
    ∃ i, i.address = a ∧ r.Inside (r.position a) w i (i.lowerBody r.targets) := by
  obtain ⟨i, member, rfl⟩ := exact.covers a reached
  exact ⟨i, rfl, member, exact.rest member w, [], rfl, rfl⟩

/-- Wherever control stands there is an operation, it can be performed, and
control stands within the routine after it, or leaves by an exit of an instruction. -/
theorem Inside.progress (exact : Exact regions entry r) (linked : r.Linked u)
    (inside : r.Inside n w i left) :
    ∃ op, u.ops[n]? = some op ∧ op.Ready w ∧
      (.next ∈ op.flows → ∃ i left, r.Inside (n + 1) (op.writes ++ w) i left) ∧
      (∀ target, .goto target ∈ op.flows → ∃ i left, r.Inside target (op.writes ++ w) i left) ∧
      ∀ e, op = .exit e → ∃ i ∈ r.instructions, .exit e ∈ i.lowerBody r.targets := by
  -- at the end of an instruction there may be no operation to go on; then the
  -- next instruction begins here, and there is less of the list left
  induction remaining : r.remaining i.address using Nat.strongRecOn generalizing i left with
  | ind _ ih =>
    have member := inside.member
    obtain ⟨reached, decoded⟩ := exact.decoded member
    have arrives {t : UInt16} (w : List UInt8) (reached : Reach regions entry t) :
        ∃ i left, r.Inside (r.position t) w i left := by
      obtain ⟨i, _, inside⟩ := exact.inside reached w
      exact ⟨i, _, inside⟩
    have rest := inside.rest
    cases rest with
    | @effects es passes inScope =>
      cases es with
      | cons e es =>
        refine ⟨_, inside.head linked, ⟨inScope.1, inScope.2.1⟩, ?_,
          by simp [Op.flows, MicroOp.link], by simp [MicroOp.link]⟩
        intro _
        exact ⟨i, _, inside.tail (.effects passes inScope.2.2)⟩
      | nil =>
        have next := reached.next decoded passes.2
        obtain ⟨before, body, rfl⟩ := inside.split
        have length : before.length = (i.lowerBody r.targets).length := by simp [body]
        rcases linked.onward i member passes.1 passes.2 with ⟨follows, fewer⟩ | goto
        · obtain ⟨j, address, inside'⟩ := exact.inside next w
          rw [follows, ← length] at inside'
          exact ih _ (by rw [address, ← remaining]; exact fewer) inside' rfl
        · rw [← length] at goto
          refine ⟨_, goto, trivial, by simp [Op.flows], ?_, by simp⟩
          intro target flow
          cases List.mem_singleton.mp flow
          exact arrives _ next
    | @branch f onZero target passes known =>
      refine ⟨_, inside.head linked, by simp [Op.Ready, MicroOp.link, Value.slots], ?_, ?_,
        by simp [MicroOp.link]⟩
      · intro _
        exact ⟨i, [], inside.tail (@Rest.effects r i _ [] passes trivial)⟩
      · intro index flow
        have same : index = r.position target := by simpa [Op.flows, MicroOp.link] using flow
        rw [same]
        exact arrives _ (reached.target decoded known)
    | @jump target known =>
      refine ⟨_, inside.head linked, trivial, by simp [Op.flows, MicroOp.link], ?_,
        by simp [MicroOp.link]⟩
      intro index flow
      have same : index = r.position target := by simpa [Op.flows, MicroOp.link] using flow
      rw [same]
      exact arrives _ (reached.target decoded known)
    | @exit e =>
      refine ⟨_, inside.head linked, trivial, by simp [Op.flows, MicroOp.link],
        by simp [Op.flows, MicroOp.link], ?_⟩
      rintro _ ⟨⟩
      obtain ⟨before, body, _⟩ := inside.split
      exact ⟨i, member, by simp [body]⟩

theorem Exact.within (exact : Exact regions entry r) (linked : r.Linked u) (path : u.Path n w) :
    ∃ i left, r.Inside n w i left := by
  induction path with
  | start =>
    obtain ⟨i, _, inside⟩ := exact.inside .entry []
    have start : r.position entry = 0 := exact.entry_eq ▸ linked.start
    exact ⟨i, _, start ▸ inside⟩
  | next _ found flow ih =>
    obtain ⟨i, left, inside⟩ := ih
    obtain ⟨op, found', _, next, _⟩ := inside.progress exact linked
    cases found.symm.trans found'
    exact next flow
  | goto _ found flow ih =>
    obtain ⟨i, left, inside⟩ := ih
    obtain ⟨op, found', _, _, goto, _⟩ := inside.progress exact linked
    cases found.symm.trans found'
    exact goto _ flow

theorem Exact.safe (exact : Exact regions entry r) (linked : r.Linked u) : u.Safe := by
  intro n w path
  obtain ⟨i, left, inside⟩ := exact.within linked path
  obtain ⟨op, found, ready, _⟩ := inside.progress exact linked
  exact ⟨op, found, ready⟩

/-- An exit that a path leads to is one that an instruction was lowered to. -/
theorem Exact.exit_lowered (exact : Exact regions entry r) (linked : r.Linked u)
    (path : u.Path n w) (found : u.ops[n]? = some (.exit e)) :
    ∃ i ∈ r.instructions, .exit e ∈ i.lowerBody r.targets := by
  obtain ⟨i, left, inside⟩ := exact.within linked path
  obtain ⟨op, found', _, _, _, lowered⟩ := inside.progress exact linked
  cases found.symm.trans found'
  exact lowered e rfl

theorem Exact.lower_nonempty (exact : Exact regions entry r) :
    r.instructions.isEmpty = false ∧ r.lower.isEmpty = false := by
  obtain ⟨i, member, _⟩ := exact.covers entry .entry
  have listed : (⟨i, i.lower r.targets⟩ : Lowered) ∈ r.lower :=
    List.mem_map_of_mem (r.ordered_perm.mem_iff.mpr member)
  exact ⟨List.isEmpty_eq_false_iff.mpr (List.ne_nil_of_mem member),
    List.isEmpty_eq_false_iff.mpr (List.ne_nil_of_mem listed)⟩

end Routine

namespace Compiler

variable {c : Compiler}

theorem compile_of_error (failed : Routine.discover c.regions a = .error cause) :
    c.compile a = (.error (.decode a cause), c) := by
  simp only [compile, failed]

/-- Without a customizer, a unit is generated from every routine. -/
theorem generate_of_ok {regions : List CodeRegion} (plain : c.customizer = {})
    (discovered : Routine.discover regions a = .ok r) :
    ∃ u, CodeUnit.generate (fun _ => none) a r.lower = .ok u ∧ r.Linked u ∧
      c.generate a r.lower = (.ok u, { c with compilations := c.compilations + 1 }) := by
  have exact := Routine.discover_exact discovered
  obtain ⟨u, generated, linked⟩ := exact.linked
  refine ⟨u, generated, linked, ?_⟩
  simp only [generate, exact.lower_nonempty.2, plain, generated]
  rfl

theorem compile_of_ok (plain : c.customizer = {})
    (discovered : Routine.discover c.regions a = .ok r) :
    ∃ u journal, CodeUnit.generate (fun _ => none) a r.lower = .ok u ∧ r.Linked u ∧
      c.compile a = (.ok u, { c with compilations := c.compilations + 1, journal }) := by
  have found := (Routine.discover_exact discovered).lower_nonempty.1
  let noted := c.log (.discovered a r.instructions.length r.targets.size)
  obtain ⟨u, generated, linked, made⟩ := @generate_of_ok noted a r _ plain discovered
  refine ⟨u, (noted.log (.compiled a u.instructions.length u.ops.size)).journal, generated,
    linked, ?_⟩
  simp only [noted, log, plain] at made
  simp [compile, discovered, found, log, plain, made, noted]

/-- Without a customizer, a new compiler fails only where discovery does, and with
the same cause. The unit it returns otherwise stays within itself on every path,
reads no scratch byte before it is written, and never faults. -/
theorem getOrCompile_fails_only_decoding (regions : List CodeRegion) (debugger : Option Debugger)
    (budget : Nat) (journal : Journal) (a : UInt16) :
    let c : Compiler := { regions, debugger, budget, journal }
    match Routine.discover regions a with
    | .error cause => (c.getOrCompile a).1 = .error (.decode a cause)
    | .ok _ => ∃ u, (c.getOrCompile a).1 = .ok u ∧ u.Safe ∧
        ∀ debugger fuel h fault, (u.invoke debugger fuel h).1 ≠ .faulted fault := by
  intro c
  have fresh : c.units[a]? = none := by simp [c]
  cases discovered : Routine.discover regions a with
  | error cause =>
    have failed := @compile_of_error c a cause discovered
    simp only [getOrCompile, fresh, failed]
  | ok r =>
    obtain ⟨u, _, _, linked, compiled⟩ := @compile_of_ok c a r rfl discovered
    have safe := (Routine.discover_exact discovered).safe linked
    refine ⟨u, ?_, safe, safe.invoke⟩
    simp only [getOrCompile, fresh, compiled]

end Compiler
end NesRoutine

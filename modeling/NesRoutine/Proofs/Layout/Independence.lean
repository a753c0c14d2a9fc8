import Mathlib.Data.List.Nodup
import NesRoutine.CodeUnit.Execution
import NesRoutine.Proofs.Layout.Linkable

/-! What a unit does does not depend on the order in which its instructions are
laid out. The instructions have a meaning of their own, in which control passes
from one to the next by address and to labels wherever these stand; every layout
of them comes to the ends that this meaning gives, and to no other. -/
namespace NesRoutine

/-- Where a micro-operation sends control. -/
inductive Turn where
  | onward
  | jump (target : Label)
  | out
  deriving DecidableEq, Repr

/-- A micro-operation as a step of a run. A label does nothing. -/
def MicroOp.perform (debugger : Option Debugger) : MicroOp → Exec Turn
  | effect e => do
    e.perform debugger
    return .onward
  | label _ => return .onward
  | goto target => return .jump target
  | branch onZero condition target => do
    let value ← condition.read
    return if (value == 0) == onZero then .jump target else .onward
  | exit e => do
    Exec.change e.perform
    return .out

/-- Control passes a micro-operation only if that does not end the flow. -/
theorem MicroOp.endsFlow_of_onward {m : MicroOp}
    (performed : m.perform debugger r = .ok .onward r') : m.endsFlow = false := by
  cases m with
  | effect | label | branch => rfl
  | goto target => cases performed
  | exit e => cases performed

/-- Control that has `left` to do of the instruction `x` comes to this end. Only
that `code` has an instruction matters, and not where it has it. -/
inductive Ends (code : List Lowered) (debugger : Option Debugger) :
    Lowered → List MicroOp → Run → Ending → Run → Prop where
  | fault {x m left r fault r'} : m.perform debugger r = .error fault r' →
      Ends code debugger x (m :: left) r (.faulted fault) r'
  | out {x m left r r'} : m.perform debugger r = .ok .out r' →
      Ends code debugger x (m :: left) r .exited r'
  | onward {x m left r r₁ ending r'} : m.perform debugger r = .ok .onward r₁ →
      Ends code debugger x left r₁ ending r' → Ends code debugger x (m :: left) r ending r'
  | jump {x m left r target r₁ y done rest ending r'} :
      m.perform debugger r = .ok (.jump target) r₁ → y ∈ code →
      y.body = done ++ .label target :: rest → Ends code debugger y rest r₁ ending r' →
      Ends code debugger x (m :: left) r ending r'
  | next {x r y ending r'} : y ∈ code → y.instruction.address = x.instruction.next →
      Ends code debugger y y.body r ending r' → Ends code debugger x [] r ending r'
  | leave {x r} : (∀ y ∈ code, y.instruction.address ≠ x.instruction.next) →
      Ends code debugger x [] r .exited
        { r with hardware := r.hardware.setPc x.instruction.next }

/-- Lists with the same instructions mean the same. -/
theorem Ends.congr (same : ∀ x, x ∈ xs ↔ x ∈ ys) (ends : Ends xs debugger x left r ending r') :
    Ends ys debugger x left r ending r' := by
  induction ends with
  | fault performed => exact .fault performed
  | out performed => exact .out performed
  | onward performed _ ih => exact .onward performed ih
  | jump performed listed body _ ih => exact .jump performed ((same _).mp listed) body ih
  | next listed address _ ih => exact .next ((same _).mp listed) address ih
  | leave absent => exact .leave fun y listed => absent y ((same y).mpr listed)

theorem Ends.of_drifts (drifts : Layout.Drifts xs x left y rest)
    (ends : Ends xs debugger y rest r ending r') : Ends xs debugger x left r ending r' := by
  induction drifts with
  | refl => exact ends
  | label _ ih => exact .onward rfl (ih ends)
  | next listed address _ ih => exact .next listed address (ih ends)

namespace CodeUnit
open Layout

/-- The unit has the operations of a layout of these instructions. -/
structure LaysOut (u : CodeUnit) (xs : List Lowered) (layout : Layout) : Prop where
  placed : placeAll {} xs = .ok layout
  generated : layout.Generates (fun _ => none) u.ops

variable {u : CodeUnit} {entry : UInt16} {xs : List Lowered} {layout : Layout} {n : Nat}
  {debugger : Option Debugger}

theorem laysOut_of_generate (generated : generate (fun _ => none) entry xs = .ok u) :
    ∃ layout, u.LaysOut xs layout := by
  obtain ⟨layout, placed, _, _, ops⟩ := generate_ok generated
  exact ⟨layout, placed, ops⟩

namespace LaysOut

theorem made (lays : u.LaysOut xs layout) (found : (slotsOf xs)[n]? = some slot) :
    ∃ op, layout.generateSlot (fun _ => none) slot = .ok op ∧ u.ops[n]? = some op := by
  rw [← placed_slots lays.placed] at found
  exact lays.generated.made found

theorem label_unique (lays : u.LaysOut xs layout) {l : Label} {k k' : Nat}
    (marked : (l, k) ∈ (spans 0 xs).flatMap (·.marks))
    (marked' : (l, k') ∈ (spans 0 xs).flatMap (·.marks)) : k = k' := by
  have known := (placed_labels lays.placed l k).mpr marked
  have known' := (placed_labels lays.placed l k').mpr marked'
  exact Except.ok.inj (known.symm.trans known')

/-- What is to be known of an operation: it does what the micro-operation does, and
goes to the index of its label. -/
def Performs (xs : List Lowered) (debugger : Option Debugger) (m : MicroOp) (op : Op) (r : Run) :
    Prop :=
  match m.perform debugger r with
  | .error fault r' => op.perform debugger r = .error fault r'
  | .ok .onward r' => op.perform debugger r = .ok .next r'
  | .ok .out r' => op.perform debugger r = .ok .exit r'
  | .ok (.jump target) r' => ∃ k, (target, k) ∈ (spans 0 xs).flatMap (·.marks) ∧
      op.perform debugger r = .ok (.goto k) r'

/-- An operation that is made for a label has the index of that label. -/
theorem resolved (lays : u.LaysOut xs layout) {target : Label} {make : Nat → Op}
    (mapped : (layout.resolve target).map make = .ok op) :
    ∃ k, (target, k) ∈ (spans 0 xs).flatMap (·.marks) ∧ make k = op := by
  cases known : layout.resolve target with
  | error e => simp [known, Except.map] at mapped
  | ok k =>
    rw [known] at mapped
    exact ⟨k, (placed_labels lays.placed target k).mp known, Except.ok.inj mapped⟩

theorem performs (lays : u.LaysOut xs layout) (debugger : Option Debugger) (r : Run)
    (generated : layout.generateDefault m = .ok op) : Performs xs debugger m op r := by
  unfold Performs
  cases m with
  | effect e =>
    cases eq_of_generateEffect generated
    simp only [MicroOp.perform, Op.perform, bind, EStateM.bind, pure, EStateM.pure]
    cases e.perform debugger r with
    | error fault r' => rfl
    | ok _ r' => rfl
  | label l =>
    cases generated
    rfl
  | goto target =>
    obtain ⟨k, marked, rfl⟩ := lays.resolved generated
    exact ⟨k, marked, rfl⟩
  | branch onZero condition target =>
    obtain ⟨k, marked, rfl⟩ := lays.resolved generated
    simp only [MicroOp.perform, Op.perform, bind, EStateM.bind, pure, EStateM.pure]
    cases condition.read r with
    | error fault r' => rfl
    | ok value r' =>
      by_cases taken : ((value == 0) == onZero) = true
      · simp only [taken, if_true]
        exact ⟨k, marked, rfl⟩
      · simp only [taken]
        rfl
  | exit e =>
    cases generated
    rfl

/-- An operation that leads onward goes to an instruction at the address, or leaves
the unit if there is none. -/
theorem onward (lays : u.LaysOut xs layout)
    (found : (slotsOf xs)[n]? = some (.fallThrough a)) :
    (∃ k y later, u.ops[n]? = some (.goto k) ∧ y.instruction.address = a ∧
      Stands xs k y y.body later) ∨
    u.ops[n]? = some (.exit (.jump a)) ∧ ∀ y ∈ xs, y.instruction.address ≠ a := by
  obtain ⟨op, made, found⟩ := lays.made found
  rw [generateSlot] at made
  rcases placed_starts lays.placed a with ⟨k, y, later, start, address, stands⟩ | ⟨start, absent⟩
  · left
    simp only [start, Except.ok.injEq] at made
    exact ⟨k, y, later, made ▸ found, address, stands⟩
  · right
    simp only [start, Except.ok.injEq] at made
    exact ⟨made ▸ found, absent⟩

/-- One step of a run: it does what the next micro-operation does, and from there
the run goes on behind it or at its label. -/
def Steps (u : CodeUnit) (xs : List Lowered) (debugger : Option Debugger) (m : MicroOp) (n : Nat)
    (r : Run) : Prop :=
  match m.perform debugger r with
  | .error fault r' => ∀ fuel, u.runFrom debugger (fuel + 1) n r = (.faulted fault, r')
  | .ok .onward r' => ∀ fuel, u.runFrom debugger (fuel + 1) n r = u.runFrom debugger fuel (n + 1) r'
  | .ok .out r' => ∀ fuel, u.runFrom debugger (fuel + 1) n r = (.exited, r')
  | .ok (.jump target) r' => ∃ k, (target, k) ∈ (spans 0 xs).flatMap (·.marks) ∧
      ∀ fuel, u.runFrom debugger (fuel + 1) n r = u.runFrom debugger fuel k r'

theorem steps (lays : u.LaysOut xs layout) (stands : Stands xs n x (m :: left) later)
    (unlabelled : ∀ l, m ≠ .label l) (debugger : Option Debugger) (r : Run) :
    Steps u xs debugger m n r := by
  obtain ⟨op, generated, found⟩ := lays.made (stands.slot unlabelled)
  have performs := lays.performs debugger r generated
  unfold Performs at performs
  unfold Steps
  simp only [CodeUnit.runFrom, found]
  split at performs
  · simp only [performs, implies_true]
  · simp only [performs, implies_true]
  · simp only [performs, implies_true]
  · obtain ⟨k, marked, performs⟩ := performs
    refine ⟨k, marked, ?_⟩
    simp only [performs, implies_true]

/-- A run that is not cut off comes to an end that the instructions have. -/
theorem ends_of_runFrom (lays : u.LaysOut xs layout) (stands : Stands xs n x left later)
    (ran : u.runFrom debugger fuel n r = (ending, r')) (ended : ending ≠ .exhausted) :
    Ends xs debugger x left r ending r' := by
  induction fuel generalizing n x left later r with
  | zero =>
    cases ran
    exact absurd rfl ended
  | succ fuel ih =>
    obtain ⟨y, rest, later', drifts, stands, settled⟩ := stands.settles
    refine .of_drifts drifts ?_
    rcases settled with ⟨rfl, found⟩ | ⟨m, rest', rfl, unlabelled, _⟩
    · rw [CodeUnit.runFrom] at ran
      rcases lays.onward found with ⟨k, z, _, op, address, there⟩ | ⟨op, absent⟩
      · simp only [op] at ran
        exact .next there.mem address (ih there ran)
      · simp only [op] at ran
        cases ran
        exact .leave absent
    · have step := lays.steps stands unlabelled debugger r
      unfold Steps at step
      split at step
      · rename_i performed
        cases (step fuel).symm.trans ran
        exact .fault performed
      · rename_i performed
        have there := stands.advance (MicroOp.endsFlow_of_onward performed)
        rw [opSlots_cons unlabelled] at there
        exact .onward performed (ih there ((step fuel).symm.trans ran))
      · rename_i performed
        cases (step fuel).symm.trans ran
        exact .out performed
      · rename_i performed
        obtain ⟨k, marked, step⟩ := step
        obtain ⟨z, done, left, _, body, there⟩ := Stands.ofMark marked
        exact .jump performed there.mem body (ih there ((step fuel).symm.trans ran))

/-- Where no two instructions have one address, every end that the instructions
have is the end of a run. -/
theorem runFrom_of_ends (lays : u.LaysOut xs layout)
    (distinct : (xs.map (·.instruction.address)).Nodup)
    (ends : Ends xs debugger x left r ending r') (stands : Stands xs n x left later) :
    ∃ fuel, u.runFrom debugger fuel n r = (ending, r') := by
  have only {y z : Lowered} (hy : y ∈ xs) (hz : z ∈ xs)
      (same : y.instruction.address = z.instruction.address) : y = z :=
    List.inj_on_of_nodup_map distinct hy hz same
  induction ends generalizing n later with
  | @fault x m left r _ _ performed =>
    have step := lays.steps stands (by rintro l rfl; cases performed) debugger r
    simp only [Steps, performed] at step
    exact ⟨1, step 0⟩
  | @out x m left r _ performed =>
    have step := lays.steps stands (by rintro l rfl; cases performed) debugger r
    simp only [Steps, performed] at step
    exact ⟨1, step 0⟩
  | @onward x m left r r₁ ending r' performed _ ih =>
    obtain ⟨fuel, ran⟩ := ih (stands.advance (MicroOp.endsFlow_of_onward performed))
    by_cases labelled : ∃ l, m = .label l
    · obtain ⟨l, rfl⟩ := labelled
      cases performed
      exact ⟨fuel, ran⟩
    · have unlabelled := not_exists.mp labelled
      have step := lays.steps stands unlabelled debugger r
      simp only [Steps, performed] at step
      rw [opSlots_cons unlabelled] at ran
      exact ⟨fuel + 1, (step fuel).trans ran⟩
  | @jump x m left r target r₁ y done rest ending r' performed listed body _ ih =>
    have step := lays.steps stands (by rintro l rfl; cases performed) debugger r
    simp only [Steps, performed] at step
    obtain ⟨k, marked, step⟩ := step
    obtain ⟨k', later', there, marked'⟩ := Stands.ofLabel listed body
    have same : k' = k := lays.label_unique marked' marked
    obtain ⟨fuel, ran⟩ := ih there
    exact ⟨fuel + 1, (step fuel).trans (same ▸ ran)⟩
  | next listed address _ ih =>
    rcases stands.onward with ⟨t, later', rfl, there, stands'⟩ | slot
    · have same := only stands'.mem listed (there.trans address.symm)
      rw [same] at stands'
      exact ih stands'
    · rcases lays.onward slot with ⟨k, z, later', op, there, stands'⟩ | ⟨_, absent⟩
      · have same := only stands'.mem listed (there.trans address.symm)
        subst same
        obtain ⟨fuel, ran⟩ := ih stands'
        refine ⟨fuel + 1, ?_⟩
        simp only [CodeUnit.runFrom, op]
        exact ran
      · exact absurd address (absent _ listed)
  | leave absent =>
    rcases stands.onward with ⟨t, later', rfl, there, stands'⟩ | slot
    · exact absurd there (absent _ stands'.mem)
    · rcases lays.onward slot with ⟨k, z, later', _, there, stands'⟩ | ⟨op, _⟩
      · exact absurd there (absent _ stands'.mem)
      · exact ⟨1, by simp only [CodeUnit.runFrom, op]; rfl⟩

end LaysOut

/-- The runs of a unit come to the ends of its first instruction. -/
theorem invoke_iff_ends {x : Lowered} (generated : generate (fun _ => none) entry (x :: xs) = .ok u)
    (distinct : ((x :: xs).map (·.instruction.address)).Nodup) (ended : ending ≠ .exhausted) :
    (∃ fuel, u.invoke debugger fuel h = (ending, r)) ↔
      Ends (x :: xs) debugger x x.body { hardware := h } ending r := by
  obtain ⟨layout, lays⟩ := laysOut_of_generate generated
  obtain ⟨later, stands⟩ := Stands.first x xs
  constructor
  · rintro ⟨fuel, ran⟩
    exact lays.ends_of_runFrom stands ran ended
  · intro ends
    exact lays.runFrom_of_ends distinct ends stands

/-- A unit that is always cut off is one that comes to no end. -/
theorem endless_iff {h : Hardware} : (∀ fuel, (u.invoke debugger fuel h).1 = .exhausted) ↔
    ∀ ending r, ending ≠ .exhausted → ¬ ∃ fuel, u.invoke debugger fuel h = (ending, r) := by
  constructor
  · rintro endless ending r ended ⟨fuel, ran⟩
    have cut := endless fuel
    rw [ran] at cut
    exact ended cut
  · intro never fuel
    by_contra ended
    exact never _ _ ended ⟨fuel, rfl⟩

theorem labelsIn_perm {ys : List Lowered} (permuted : xs.Perm ys) :
    (labelsIn xs).Perm (labelsIn ys) :=
  permuted.flatMap_right _

/-- The order of the instructions behind the first does not matter: a unit is
generated from one order if it is from another, and both units have the same
results and the same runs without an end. -/
theorem generate_order_irrelevant (entry : UInt16) (xs ys : List Lowered)
    (distinct : (xs.map (·.instruction.address)).Nodup) (permuted : xs.Perm ys)
    (first : xs.head? = ys.head?) :
    ((∃ u, generate (fun _ => none) entry xs = .ok u) ↔
      ∃ v, generate (fun _ => none) entry ys = .ok v) ∧
    ∀ u v, generate (fun _ => none) entry xs = .ok u → generate (fun _ => none) entry ys = .ok v →
      ∀ debugger h,
        (∀ ending r, ending ≠ .exhausted →
          ((∃ fuel, u.invoke debugger fuel h = (ending, r)) ↔
            ∃ fuel, v.invoke debugger fuel h = (ending, r))) ∧
        ((∀ fuel, (u.invoke debugger fuel h).1 = .exhausted) ↔
          ∀ fuel, (v.invoke debugger fuel h).1 = .exhausted) := by
  constructor
  · have labels := labelsIn_perm permuted
    have linkable (m : MicroOp) : m.Linkable (labelsIn xs) ↔ m.Linkable (labelsIn ys) := by
      cases m <;> simp only [MicroOp.Linkable, labels.mem_iff]
    simp only [generate_ok_iff, labels.nodup_iff, permuted.mem_iff, linkable]
  · intro u v generated generated' debugger h
    have results (ending : Ending) (r : Run) (ended : ending ≠ .exhausted) :
        (∃ fuel, u.invoke debugger fuel h = (ending, r)) ↔
          ∃ fuel, v.invoke debugger fuel h = (ending, r) := by
      cases xs with
      | nil =>
        cases permuted.nil_eq
        cases generated.symm.trans generated'
        rfl
      | cons x xs =>
        obtain ⟨ys, rfl⟩ := List.head?_eq_some_iff.mp first.symm
        have distinct' := (permuted.map (·.instruction.address)).nodup_iff.mp distinct
        rw [invoke_iff_ends generated distinct ended, invoke_iff_ends generated' distinct' ended]
        exact ⟨.congr fun z => permuted.mem_iff, .congr fun z => permuted.symm.mem_iff⟩
    refine ⟨results, ?_⟩
    rw [endless_iff, endless_iff]
    exact forall_congr' fun ending => forall_congr' fun r => forall_congr' fun ended =>
      not_congr (results ending r ended)

/-- A loop with a hook, and an instruction behind it that does nothing. -/
def hookedLoop : List Lowered :=
  [⟨{ (default : Instruction) with address := 0x8000 },
      [.label (.instruction 0x8000), .effect (.hook 1)]⟩,
    ⟨{ (default : Instruction) with address := 0x8001 },
      [.branch false (.register .x) (.instruction 0x8000), .label (.inner 0x8001 0)]⟩,
    ⟨{ (default : Instruction) with address := 0x8002 }, []⟩]

/-- In another order the loop takes more operations and has the same results. -/
theorem hookedLoop_order_irrelevant : ∃ xs, hookedLoop.Perm xs ∧
    ∃ u v, generate (fun _ => none) 0x8000 hookedLoop = .ok u ∧ u.ops.size = 3 ∧
      generate (fun _ => none) 0x8000 xs = .ok v ∧ v.ops.size = 5 ∧
      ∀ debugger h ending r, ending ≠ .exhausted →
        ((∃ fuel, u.invoke debugger fuel h = (ending, r)) ↔
          ∃ fuel, v.invoke debugger fuel h = (ending, r)) := by
  let xs := hookedLoop.take 1 ++ (hookedLoop.drop 1).reverse
  have permuted : hookedLoop.Perm xs := by decide
  obtain ⟨same, agree⟩ := generate_order_irrelevant 0x8000 hookedLoop xs (by decide) permuted rfl
  obtain ⟨u, generated⟩ : ∃ u, generate (fun _ => none) 0x8000 hookedLoop = .ok u :=
    generate_ok_iff.mpr (by decide)
  obtain ⟨v, generated'⟩ := same.mp ⟨u, generated⟩
  refine ⟨xs, permuted, u, v, generated, generate_size generated, generated',
    generate_size generated', ?_⟩
  intro debugger h
  exact (agree u v generated generated' debugger h).1

end CodeUnit
end NesRoutine

import NesRoutine.Proofs.Moves

/-! The code of one instruction where it stands in a unit. A run that comes to it passes
it and goes on behind it, and does on the way what the instruction does. -/
namespace NesRoutine

open Interpreter (Machine)

/-- A place in a unit where the code of an instruction stands. -/
structure Site where
  unit : CodeUnit
  index : Nat
  instruction : Instruction
  targets : Std.TreeSet UInt16
  position : UInt16 → Nat
  stands : ∀ (k : Nat) m, (instruction.lowerBody targets)[k]? = some m →
    unit.ops[index + k]? = some (m.link position)

/-- Where the code decodes there is a routine, and a unit for it. -/
theorem Routine.exists_linked {regions : List CodeRegion} {entry : UInt16}
    (decodes : (discover regions entry).toBool = true) :
    ∃ r u, discover regions entry = .ok r ∧
      CodeUnit.generate (fun _ => none) entry r.lower = .ok u ∧ Exact regions entry r ∧
        r.Linked u := by
  cases discovered : discover regions entry with
  | error e =>
    rw [discovered] at decodes
    cases decodes
  | ok r =>
    have exact := discover_exact discovered
    obtain ⟨u, generated, linked⟩ := exact.linked
    exact ⟨r, u, rfl, generated, exact, linked⟩

/-- In the unit of a routine there is such a place for each of its instructions. -/
def Routine.Linked.site {r : Routine} {u : CodeUnit} {i : Instruction} (linked : r.Linked u)
    (member : i ∈ r.instructions) : Site where
  unit := u
  index := r.position i.address
  instruction := i
  targets := r.targets
  position := r.position
  stands := linked.body i member

namespace Site

variable {debugger : Option Debugger} {site : Site} {s s' s'' : Run}

def code (site : Site) : List MicroOp := site.instruction.lowerBody site.targets

/-- A run that comes to the code goes on behind it. -/
def Passes (debugger : Option Debugger) (site : Site) (s s' : Run) : Prop :=
  ∀ fuel, site.unit.runFrom debugger (site.code.length + fuel) site.index s =
    site.unit.runFrom debugger fuel (site.index + site.code.length) s'

theorem Passes.unique (first : site.Passes debugger s s') (second : site.Passes debugger s s'') :
    s' = s'' := by
  have same := (first 0).symm.trans (second 0)
  exact congrArg Prod.snd same

/-- Code that realizes an action is passed, and only what the action does is done to
the hardware. -/
theorem exists_passes {es : List Effect} {m : Machine Unit} (lowered : site.code = es.map .effect)
    (realize : Effect.Realize es m) (debugger : Option Debugger) (s : Run) :
    ∃ s', site.Passes debugger s s' ∧ s'.hardware = (m s.hardware).2 := by
  obtain ⟨scratch, performed⟩ := realize.implements debugger s
  have standing (k : Nat) (e : Effect) (found : es[k]? = some e) :
      site.unit.ops[site.index + k]? = some (.effect e) := by
    refine site.stands k (.effect e) ?_
    rw [← code, lowered, List.getElem?_map, found]
    rfl
  have moves := CodeUnit.moves_effects standing performed
  refine ⟨{ s with hardware := (m s.hardware).2, scratch }, ?_, rfl⟩
  intro fuel
  rw [lowered, List.length_map]
  exact moves.runFrom fuel

theorem Passes.hardware {es : List Effect} {m : Machine Unit} (lowered : site.code = es.map .effect)
    (realize : Effect.Realize es m) (passes : site.Passes debugger s s') :
    s'.hardware = (m s.hardware).2 := by
  obtain ⟨t, passes', hardware⟩ := exists_passes lowered realize debugger s
  rw [passes.unique passes', hardware]

/-- The code at each of the places is passed in turn. -/
def PassAll (debugger : Option Debugger) : List Site → Run → Run → Prop
  | [], s, s' => s' = s
  | site :: sites, s, s' => ∃ t, site.Passes debugger s t ∧ PassAll debugger sites t s'

theorem PassAll.append {first second : List Site} (passed : PassAll debugger first s s')
    (rest : PassAll debugger second s' s'') : PassAll debugger (first ++ second) s s'' := by
  induction first generalizing s with
  | nil =>
    cases passed
    exact rest
  | cons site sites ih =>
    obtain ⟨t, passes, passed⟩ := passed
    exact ⟨t, passes, ih passed⟩

end Site
end NesRoutine

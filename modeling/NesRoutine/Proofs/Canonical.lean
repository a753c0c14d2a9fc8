import NesRoutine.Compiler.Recipe
import NesRoutine.Proofs.Coherence

/-! What a compiler saves tells nothing of its past. Each unit that is kept is made from
the routine at its address, as the customizer edits it, whether it was compiled here or
came from another compiler with the same regions and customizer. So the addresses that
have a unit determine the bytes. -/
namespace NesRoutine

theorem exists_ok {x : Except ε α} (success : x.toBool = true) : ∃ a, x = .ok a := by
  cases x with
  | error e => cases success
  | ok a => exact ⟨a, rfl⟩

theorem CodeUnit.MadeFrom.unique {regions : List CodeRegion} {customizer : Customizer}
    {u u' : CodeUnit} (made : u.MadeFrom regions customizer a)
    (made' : u'.MadeFrom regions customizer a) : u = u' := by
  obtain ⟨⟨_, generated⟩, r, discovered, instructions⟩ := made
  obtain ⟨⟨_, generated'⟩, r', discovered', instructions'⟩ := made'
  cases discovered.symm.trans discovered'
  rw [instructions] at generated
  rw [instructions'] at generated'
  exact Except.ok.inj (generated.symm.trans generated')

namespace Compiler

/-- The compilers that some use of them leads to, where each may load what any of them
has saved. They have the same regions and customizer. -/
inductive Driven (regions : List CodeRegion) (customizer : Customizer) : Compiler → Prop where
  | fresh (debugger : Option Debugger) (budget : Nat) (journal : Journal) :
      Driven regions customizer { regions, customizer, debugger, budget, journal }
  | getOrCompile (driven : Driven regions customizer c) (a : UInt16) :
      Driven regions customizer (c.getOrCompile a).2
  | run (driven : Driven regions customizer c) (a : UInt16) (h : Hardware) :
      Driven regions customizer (c.run a h).2.1
  | precompile (driven : Driven regions customizer c) (entries : List UInt16) :
      Driven regions customizer (c.precompile entries).2
  | save (driven : Driven regions customizer c) (room : Option Nat) :
      Driven regions customizer (c.save room).2
  | load (driven : Driven regions customizer c) (saver : Driven regions customizer c')
      (saved : (c'.save room).1 = .ok (count, bytes)) : Driven regions customizer (c.load bytes).2
  | log (driven : Driven regions customizer c) (r : LogRecord) :
      Driven regions customizer (c.log r)

/-- The compiler has these regions and this customizer, and keeps no unit but those that
they give. -/
structure Authentic (regions : List CodeRegion) (customizer : Customizer) (c : Compiler) :
    Prop where
  regions_eq : c.regions = regions
  customizer_eq : c.customizer = customizer
  made : ∀ (a : UInt16) (u : CodeUnit), c.units[a]? = some u → u.MadeFrom regions customizer a

variable {regions : List CodeRegion} {customizer : Customizer} {c c' : Compiler}

namespace Authentic

theorem of_grows {debugger : Option Debugger} {budget : Nat} {journal : Journal}
    (grows : Grows (fun a u => u.MadeFrom regions customizer a)
      { regions, customizer, debugger, budget, journal } c) : c.Authentic regions customizer := by
  obtain ⟨regions_eq, customizer_eq, _⟩ := grows.settings
  refine ⟨regions_eq, customizer_eq, ?_⟩
  intro a u found
  rcases grows.new found with old | new
  · simp at old
  · exact new

theorem compiles (authentic : c.Authentic regions customizer) (a : UInt16) (u : CodeUnit)
    (made : u.MadeFrom c.regions c.customizer a) : u.MadeFrom regions customizer a := by
  rwa [authentic.regions_eq, authentic.customizer_eq] at made

/-- What is saved of a unit are its instructions after all edits, which are not edited
again when they are loaded. -/
theorem load_grows (authentic : c.Authentic regions customizer)
    (saver : c'.Authentic regions customizer)
    (saved : (c'.save room).1 = .ok (count, bytes)) :
    Grows (fun a u => u.MadeFrom regions customizer a) c (c.load bytes).2 := by
  refine Compiler.load_grows bytes ?_
  intro artifact decoded v member u same regenerates
  cases (decode_saved saved).symm.trans decoded
  obtain ⟨⟨a, kept⟩, listed, rfl⟩ := List.mem_map.mp member
  obtain ⟨⟨_, generated⟩, r, discovered, instructions⟩ :=
    saver.made a kept (Std.TreeMap.mem_toList_iff_getElem?_eq_some.mp listed)
  obtain ⟨_, _, entry, _⟩ := CodeUnit.generate_ok generated
  rw [authentic.customizer_eq] at regenerates
  exact ⟨regenerates, r, entry ▸ discovered, same.trans instructions⟩

end Authentic

theorem Driven.grows (driven : Driven regions customizer c) :
    ∃ debugger budget journal, Grows (fun a u => u.MadeFrom regions customizer a)
      { regions, customizer, debugger, budget, journal } c := by
  induction driven with
  | fresh debugger budget journal => exact ⟨debugger, budget, journal, .refl⟩
  | getOrCompile _ a ih =>
    obtain ⟨debugger, budget, journal, grows⟩ := ih
    have made := (Authentic.of_grows grows).compiles a
    exact ⟨debugger, budget, journal, grows.trans (getOrCompile_grows made)⟩
  | run _ a h ih =>
    obtain ⟨debugger, budget, journal, grows⟩ := ih
    have made := (Authentic.of_grows grows).compiles a
    exact ⟨debugger, budget, journal, grows.trans (run_grows made h)⟩
  | precompile _ entries ih =>
    obtain ⟨debugger, budget, journal, grows⟩ := ih
    have made := (Authentic.of_grows grows).compiles
    exact ⟨debugger, budget, journal, grows.trans (precompile_grows entries made)⟩
  | save _ room ih =>
    obtain ⟨debugger, budget, journal, grows⟩ := ih
    exact ⟨debugger, budget, journal, grows.trans (save_grows room)⟩
  | load _ _ saved ih saver =>
    obtain ⟨debugger, budget, journal, grows⟩ := ih
    obtain ⟨_, _, _, saver⟩ := saver
    have loaded := (Authentic.of_grows grows).load_grows (.of_grows saver) saved
    exact ⟨debugger, budget, journal, grows.trans loaded⟩
  | log _ r ih =>
    obtain ⟨debugger, budget, journal, grows⟩ := ih
    exact ⟨debugger, budget, journal, grows.log r⟩

theorem Driven.authentic (driven : Driven regions customizer c) :
    c.Authentic regions customizer := by
  obtain ⟨_, _, _, grows⟩ := driven.grows
  exact .of_grows grows

/-- The units of two compilers agree wherever both have one. -/
theorem Authentic.units_eq (authentic : c.Authentic regions customizer)
    (authentic' : c'.Authentic regions customizer)
    (same : ∀ a, c.isCompiled a = c'.isCompiled a) (a : UInt16) :
    c.units[a]? = c'.units[a]? := by
  have both := same a
  cases found : c.units[a]? with
  | none =>
    cases found' : c'.units[a]? with
    | none => rfl
    | some u => cases (isCompiled_of_none found).symm.trans (both.trans (isCompiled_of_some found'))
  | some u =>
    cases found' : c'.units[a]? with
    | none => cases (isCompiled_of_some found).symm.trans (both.trans (isCompiled_of_none found'))
    | some u' => rw [(authentic.made a u found).unique (authentic'.made a u' found')]

/-- All that saving answers with comes from the artifact. -/
theorem save_congr (same : c.artifact = c'.artifact) (room : Option Nat) :
    (c.save room).1 = (c'.save room).1 := by
  simp only [save, same]
  split
  · rfl
  · split
    · rfl
    · rfl

/-- Two compilers that keep units for the same addresses save the same bytes and the same
number of units, whatever has been compiled, run or loaded, and in which order. -/
theorem save_canonical (driven : Driven regions customizer c)
    (driven' : Driven regions customizer c') (same : ∀ a, c.isCompiled a = c'.isCompiled a)
    (room : Option Nat) : (c.save room).1 = (c'.save room).1 := by
  have authentic := driven.authentic
  have authentic' := driven'.authentic
  have units := Std.TreeMap.Equiv.of_forall_constGet?_eq (authentic.units_eq authentic' same)
  apply save_congr
  rw [artifact, artifact, savedUnits, savedUnits, units.toList_eq, authentic.regions_eq,
    authentic'.regions_eq]

theorem isCompiled_iff_mem_entries (c : Compiler) (a : UInt16) :
    c.isCompiled a = true ↔ a ∈ c.entries := by
  rw [isCompiled, entries, Std.TreeMap.mem_keys, Std.TreeMap.mem_iff_contains]

/-- A compiler that puts a hook before each instruction, over two returns. -/
def tagging : Compiler where
  regions := [⟨0x8000, #[0x60, 0x60]⟩]
  customizer := Recipe.customizer { mutations := [(.before [.effect (.hook 7)], none)] }

/-- One compiler makes both units; the other makes the second and then loads the first. -/
theorem save_canonical_loaded : ∃ count bytes written,
    let first := ((tagging.getOrCompile 0x8000).2.getOrCompile 0x8001).2
    let second := ((tagging.getOrCompile 0x8001).2.load bytes).2
    ((tagging.getOrCompile 0x8000).2.save none).1 = .ok (count, bytes) ∧
      first.entries = [0x8000, 0x8001] ∧ second.entries = [0x8000, 0x8001] ∧
      (first.save none).1 = .ok written ∧ (second.save none).1 = .ok written := by
  have start : Driven tagging.regions tagging.customizer tagging := .fresh none _ {}
  obtain ⟨⟨count, bytes⟩, saved⟩ : ∃ output,
      ((tagging.getOrCompile 0x8000).2.save none).1 = .ok output := exists_ok (by decide +kernel)
  obtain ⟨written, saved'⟩ : ∃ written,
      (((tagging.getOrCompile 0x8000).2.getOrCompile 0x8001).2.save none).1 = .ok written :=
    exists_ok (by decide +kernel)
  have compiled : ((tagging.getOrCompile 0x8000).2.getOrCompile 0x8001).2.entries =
      [0x8000, 0x8001] := by decide +kernel
  have loaded : ((tagging.getOrCompile 0x8001).2.load bytes).2.entries = [0x8000, 0x8001] := by
    rw [load, decode_saved saved]
    decide +kernel
  have driven := (start.getOrCompile 0x8000).getOrCompile 0x8001
  have driven' := (start.getOrCompile 0x8001).load (start.getOrCompile 0x8000) saved
  have same := save_canonical driven driven' (by
    intro a
    rw [Bool.eq_iff_iff, isCompiled_iff_mem_entries, isCompiled_iff_mem_entries, compiled,
      loaded]) none
  exact ⟨count, bytes, written, saved, compiled, loaded, saved', same.symm.trans saved'⟩

end Compiler
end NesRoutine

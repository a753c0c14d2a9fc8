import NesRoutine.Proofs.Artifact.Code
import NesRoutine.Proofs.Growth
import NesRoutine.Proofs.Safety

/-! A compiler without a customizer keeps no unit that it would not make anew.
Compiling, running, compiling ahead and loading what such a compiler has saved
keep this so, in whatever order they come. What a run does then follows from the
regions and the settings alone. -/
namespace NesRoutine

/-- The unit that is generated, without a customizer, from the routine at an address. -/
def CodeUnit.IsCompiled (regions : List CodeRegion) (a : UInt16) (u : CodeUnit) : Prop :=
  ∃ r, Routine.discover regions a = .ok r ∧ CodeUnit.generate (fun _ => none) a r.lower = .ok u

namespace CodeUnit.IsCompiled

variable {regions : List CodeRegion} {a : UInt16} {u u' : CodeUnit}

theorem unique (compiled : IsCompiled regions a u) (compiled' : IsCompiled regions a u') :
    u = u' := by
  obtain ⟨r, discovered, generated⟩ := compiled
  obtain ⟨r', discovered', generated'⟩ := compiled'
  cases discovered.symm.trans discovered'
  exact Except.ok.inj (generated.symm.trans generated')

theorem safe (compiled : IsCompiled regions a u) : u.Safe := by
  obtain ⟨r, discovered, generated⟩ := compiled
  have exact := Routine.discover_exact discovered
  obtain ⟨u', generated', linked⟩ := exact.linked
  cases generated.symm.trans generated'
  exact exact.safe linked

end CodeUnit.IsCompiled

namespace Compiler
open CodeUnit (IsCompiled)

/-- The compiler has these regions and settings, and no customizer; each unit it
keeps is the one for its address. -/
structure Coherent (regions : List CodeRegion) (debugger : Option Debugger) (budget : Nat)
    (c : Compiler) : Prop where
  regions_eq : c.regions = regions
  plain : c.customizer = {}
  debugger_eq : c.debugger = debugger
  budget_eq : c.budget = budget
  compiled : ∀ a u, c.units[a]? = some u → IsCompiled regions a u

variable {regions : List CodeRegion} {debugger : Option Debugger} {budget : Nat} {c c' : Compiler}

theorem save_ok (saved : (c.save room).1 = .ok (count, bytes)) :
    c.artifact.write = .ok bytes ∧ count = c.savedUnits.length := by
  simp only [save] at saved
  split at saved
  · cases saved
  next written =>
    split at saved
    · cases saved
    · cases saved
      exact ⟨written, rfl⟩

theorem decode_saved (saved : (c.save room).1 = .ok (count, bytes)) :
    Artifact.decode bytes = .ok c.artifact := by
  rw [← Artifact.decode_write (save_ok saved).1 [], List.append_nil]

/-- Saving fails only for too many bytes, twelve of which are the header's. -/
theorem save_short
    (short : 12 + (Artifact.encodeList Artifact.encodeUnit c.savedUnits).length ≤
      Artifact.sizeLimit) :
    (c.save none).1 = .ok (c.savedUnits.length, c.artifact.encode) := by
  have within : ¬ Artifact.sizeLimit < c.artifact.encode.length := by
    simp only [Artifact.encode, artifact, List.length_append, Artifact.encodeU32,
      Artifact.length_encodeNat]
    omega
  simp only [save, Artifact.write, if_neg within]
  rfl

/-- A new compiler that was asked for one unit saves that unit. -/
theorem savedUnits_first (discovered : Routine.discover regions a = .ok r) :
    (getOrCompile { regions } a).2.savedUnits = [⟨a, r.lower⟩] := by
  let c : Compiler := { regions }
  obtain ⟨u, journal, generated, _, made⟩ := @compile_of_ok c a r rfl discovered
  obtain ⟨_, _, entry, instructions, _⟩ := CodeUnit.generate_ok generated
  have kept : (c.getOrCompile a).2.units = c.units.insert a u := by
    have new : c.units[a]? = none := rfl
    simp only [getOrCompile, new, made]
  have saved : (c.getOrCompile a).2.savedUnits = [⟨u.entry, u.instructions⟩] := by
    rw [savedUnits, kept]
    rfl
  rw [saved, entry, instructions]

theorem exists_saved_first (discovered : Routine.discover regions a = .ok r)
    (sorted : r.instructions.Pairwise fun i j => Routine.precedes r.entry i j = true)
    (short : 20 + (Artifact.encodeUnit
      ⟨a, r.instructions.map fun i => ⟨i, i.lower r.targets⟩⟩).length ≤ Artifact.sizeLimit) :
    ∃ written, ((getOrCompile { regions } a).2.save none).1 = .ok written := by
  refine ⟨_, save_short ?_⟩
  rw [savedUnits_first discovered, Routine.lower, Routine.ordered_of_sorted sorted]
  rw [Artifact.encodeList, List.length_append, Artifact.length_encodeNat,
    List.flatMap_singleton]
  omega

namespace Coherent

theorem start (journal : Journal) :
    Coherent regions debugger budget { regions, debugger, budget, journal } :=
  ⟨rfl, rfl, rfl, rfl, by simp⟩

/-- New units have to be the ones for their addresses. -/
theorem grow (coherent : c.Coherent regions debugger budget)
    (grows : Grows (IsCompiled regions) c c') : c'.Coherent regions debugger budget := by
  obtain ⟨regions_eq, customizer_eq, debugger_eq, budget_eq⟩ := grows.settings
  refine ⟨regions_eq.trans coherent.regions_eq, customizer_eq.trans coherent.plain,
    debugger_eq.trans coherent.debugger_eq, budget_eq.trans coherent.budget_eq, ?_⟩
  intro a u found
  rcases grows.new found with old | new
  · exact coherent.compiled a u old
  · exact new

theorem log (coherent : c.Coherent regions debugger budget) (r : LogRecord) :
    (c.log r).Coherent regions debugger budget :=
  coherent.grow (Grows.refl.log r)

theorem made (coherent : c.Coherent regions debugger budget) (a : UInt16) (u : CodeUnit)
    (made : u.MadeFrom c.regions c.customizer a) : IsCompiled regions a u := by
  obtain ⟨⟨_, generated⟩, r, discovered, instructions⟩ := made
  rw [coherent.plain] at generated instructions
  rw [coherent.regions_eq] at discovered
  rw [instructions] at generated
  exact ⟨r, discovered, generated⟩

/-- What the cache answers is what discovery and generation give. -/
theorem getOrCompile (coherent : c.Coherent regions debugger budget) (a : UInt16) :
    (∃ cause, Routine.discover regions a = .error cause ∧
      c.getOrCompile a = (.error (.decode a cause), c)) ∨
    ∃ u c', IsCompiled regions a u ∧ c.getOrCompile a = (.ok u, c') ∧
      c'.Coherent regions debugger budget := by
  have grown := coherent.grow (getOrCompile_grows (coherent.made a))
  rcases answered : c.getOrCompile a with ⟨result, after⟩
  rw [answered] at grown
  cases cached : c.units[a]? with
  | some u =>
    simp only [Compiler.getOrCompile, cached] at answered
    cases answered
    exact .inr ⟨u, _, coherent.compiled a u cached, rfl, grown⟩
  | none =>
    have same := coherent.regions_eq
    cases discovered : Routine.discover regions a with
    | error cause =>
      rw [← same] at discovered
      simp only [Compiler.getOrCompile, cached, compile_of_error discovered] at answered
      cases answered
      exact .inl ⟨cause, rfl, rfl⟩
    | ok r =>
      obtain ⟨u, journal, generated, _, made⟩ := compile_of_ok coherent.plain (same ▸ discovered)
      simp only [Compiler.getOrCompile, cached, made] at answered
      cases answered
      exact .inr ⟨u, _, ⟨r, discovered, generated⟩, rfl, grown⟩

theorem run (coherent : c.Coherent regions debugger budget) (a : UInt16) (h : Hardware) :
    (∃ cause, Routine.discover regions a = .error cause ∧
      c.run a h = (.error (.decode a cause), c, h)) ∨
    ∃ u c', IsCompiled regions a u ∧ c'.Coherent regions debugger budget ∧
      c.run a h = (Error.ofEnding a (u.invoke debugger budget h).1, c',
        (u.invoke debugger budget h).2.hardware) := by
  have grown := coherent.grow (run_grows (coherent.made a) h)
  rcases coherent.getOrCompile a with ⟨cause, failed, same⟩ | ⟨u, c', compiled, made, kept⟩
  · refine .inl ⟨cause, failed, ?_⟩
    simp only [Compiler.run, same]
  · have counted : Grows (IsCompiled regions) c' _ :=
      Grows.refl.record c'.hits (c'.invocations + 1) c'.journal
    have entered := kept.grow (counted.noteEntered a h)
    refine .inr ⟨u, _, compiled, grown, ?_⟩
    simp only [Compiler.run, made, entered.debugger_eq, entered.budget_eq]

/-- A run that is not cut off fails only where nothing can be decoded. -/
theorem run_ended (coherent : c.Coherent regions debugger budget)
    (ends : (c.run a h).1 ≠ .error (.exhausted a)) :
    (∃ cause, Routine.discover regions a = .error cause ∧
      c.run a h = (.error (.decode a cause), c, h)) ∨
    ∃ r c' h', Routine.discover regions a = .ok r ∧ c'.Coherent regions debugger budget ∧
      c.run a h = (.ok (), c', h') := by
  rcases coherent.run a h with unknown | ⟨u, c', compiled, kept, ran⟩
  · exact .inl unknown
  · have never := compiled.safe.invoke debugger budget h
    obtain ⟨r, found, _⟩ := compiled
    rw [ran] at ends ⊢
    cases ending : (u.invoke debugger budget h).1 with
    | exited => exact .inr ⟨r, c', _, found, kept, rfl⟩
    | faulted fault => exact absurd ending (never fault)
    | exhausted => exact absurd (congrArg (Error.ofEnding a) ending) ends

/-- Two compilers with the same settings run alike, whatever each of them keeps. -/
theorem run_same (coherent : c.Coherent regions debugger budget)
    (coherent' : c'.Coherent regions debugger budget) (a : UInt16) (h : Hardware) :
    ∃ result h' after after', c.run a h = (result, after, h') ∧ c'.run a h = (result, after', h') ∧
      after.Coherent regions debugger budget ∧ after'.Coherent regions debugger budget := by
  rcases coherent.run a h with ⟨cause, failed, ran⟩ | ⟨u, after, compiled, kept, ran⟩
  · rcases coherent'.run a h with ⟨cause', failed', ran'⟩ | ⟨u, _, ⟨r, found, _⟩, _⟩
    · cases failed.symm.trans failed'
      exact ⟨_, _, _, _, ran, ran', coherent, coherent'⟩
    · cases failed.symm.trans found
  · rcases coherent'.run a h with ⟨cause', failed', ran'⟩ | ⟨u', after', compiled', kept', ran'⟩
    · obtain ⟨r, found, _⟩ := compiled
      cases failed'.symm.trans found
    · cases compiled.unique compiled'
      exact ⟨_, _, _, _, ran, ran', kept, kept'⟩

theorem precompile (coherent : c.Coherent regions debugger budget) (entries : List UInt16) :
    (c.precompile entries).2.Coherent regions debugger budget :=
  coherent.grow (precompile_grows entries coherent.made)

/-- What is saved of a unit is enough to make it again. -/
theorem savedUnits (coherent : c.Coherent regions debugger budget) (saved : v ∈ c.savedUnits) :
    ∃ r, Routine.discover regions v.entry = .ok r ∧ v.instructions = r.lower := by
  obtain ⟨⟨a, u⟩, listed, rfl⟩ := List.mem_map.mp saved
  have kept := Std.TreeMap.mem_toList_iff_getElem?_eq_some.mp listed
  obtain ⟨r, discovered, generated⟩ := coherent.compiled a u kept
  obtain ⟨_, _, entry, instructions, _⟩ := CodeUnit.generate_ok generated
  refine ⟨r, ?_, instructions⟩
  rw [← discovered, ← entry]

/-- Loading what a compiler over the same regions has saved. -/
theorem load (coherent : c.Coherent regions debugger budget)
    (saver : c'.Coherent regions debugger' budget')
    (saved : (c'.save room).1 = .ok (count, bytes)) :
    (c.load bytes).2.Coherent regions debugger budget := by
  refine coherent.grow (load_grows bytes ?_)
  intro artifact decoded v member u same regenerates
  cases (decode_saved saved).symm.trans decoded
  obtain ⟨r, discovered, instructions⟩ := saver.savedUnits member
  have generated := regenerates.2
  rw [coherent.plain, same, instructions] at generated
  exact ⟨r, discovered, generated⟩

theorem save (coherent : c.Coherent regions debugger budget) (room : Option Nat) :
    (c.save room).2.Coherent regions debugger budget :=
  coherent.grow (save_grows room)

end Coherent
end Compiler
end NesRoutine

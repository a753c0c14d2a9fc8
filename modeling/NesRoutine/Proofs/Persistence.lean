import NesRoutine.Compiler.Recipe
import NesRoutine.Proofs.Coherence

/-! Nothing is lost when units are saved and loaded. Of a unit only its
instructions are saved, but these are what it was generated from, after all
edits; so a compiler with the same customizer makes from them the same unit. -/
namespace NesRoutine.Compiler

variable {regions : List CodeRegion} {customizer : Customizer} {debugger : Option Debugger}
  {budget : Nat} {c : Compiler}

theorem generate_regenerated (regenerates : u.Regenerates c.customizer.generators a) :
    u.entry = a ∧ c.generate a u.instructions =
      (.ok u, { c with compilations := c.compilations + 1 }) := by
  obtain ⟨nonempty, generated⟩ := regenerates
  obtain ⟨_, _, entry, _⟩ := CodeUnit.generate_ok generated
  refine ⟨entry, ?_⟩
  simp [generate, nonempty, generated]

/-- Units that can be made again, for addresses that are distinct and have none,
are all added, and nothing else is. -/
theorem addUnits_regenerated (kept : List (UInt16 × CodeUnit))
    (regenerates : ∀ a u, (a, u) ∈ kept → u.Regenerates c.customizer.generators a)
    (distinct : (kept.map (·.1)).Nodup) (absent : ∀ a u, (a, u) ∈ kept → c.units[a]? = none)
    (added : Nat) :
    ∃ c', c.addUnits added (kept.map fun (_, u) => ⟨u.entry, u.instructions⟩) =
        (.ok (added + kept.length), c') ∧
      ∀ a u, c'.units[a]? = some u ↔ c.units[a]? = some u ∨ (a, u) ∈ kept := by
  induction kept generalizing c added with
  | nil => exact ⟨c, rfl, by simp⟩
  | cons p kept ih =>
    obtain ⟨a, u⟩ := p
    obtain ⟨entry, generated⟩ := generate_regenerated (regenerates a u List.mem_cons_self)
    have missing := absent a u List.mem_cons_self
    have unknown : c.isCompiled u.entry = false := by
      rw [isCompiled, entry, Std.TreeMap.contains_eq_isSome_getElem?, missing]
      rfl
    obtain ⟨fresh, distinct⟩ := List.nodup_cons.mp distinct
    let c₁ : Compiler :=
      { c with units := c.units.insert a u, compilations := c.compilations + 1 }
    have units (b : UInt16) : c₁.units[b]? = if a = b then some u else c.units[b]? := by
      simp [c₁, Std.TreeMap.getElem?_insert]
    have absent₁ : ∀ b v, (b, v) ∈ kept → c₁.units[b]? = none := by
      intro b v member
      have differs : a ≠ b := by
        rintro rfl
        exact fresh (List.mem_map.mpr ⟨(a, v), member, rfl⟩)
      rw [units, if_neg differs]
      exact absent b v (List.mem_cons_of_mem _ member)
    have others := fun b v member => regenerates b v (List.mem_cons_of_mem _ member)
    obtain ⟨c', rest, lookup⟩ := ih (c := c₁) others distinct absent₁ (added + 1)
    refine ⟨c', ?_, ?_⟩
    · rw [List.map_cons, addUnits, if_neg (by simp [unknown])]
      simp only [entry, generated]
      rw [rest, List.length_cons, Nat.add_right_comm, Nat.add_assoc]
    · intro b v
      rw [lookup, units, List.mem_cons, Prod.mk.injEq]
      by_cases same : a = b
      · subst same
        simp [missing, eq_comm]
      · simp [same, Ne.symm same]

/-- A new compiler with the same settings that loads what was saved answers with
the same number, and then keeps the same units. -/
theorem load_saved (reached : Reachable regions customizer debugger budget c)
    (saved : (c.save room).1 = .ok (count, bytes)) (journal : Journal) :
    let fresh : Compiler := { regions, customizer, debugger, budget, journal }
    (fresh.load bytes).1 = .ok count ∧ (fresh.load bytes).2.entries = c.entries ∧
      ∀ a, (fresh.load bytes).2.get? a = c.get? a := by
  intro fresh
  have regions_eq : c.regions = regions := by
    obtain ⟨_, grows⟩ := reached.grows
    exact grows.settings.1
  have matching : c.artifact.mismatch? (Checksum.regions fresh.regions) = none := by
    simp [artifact, Artifact.mismatch?, regions_eq, fresh]
  obtain ⟨loaded, added, lookup⟩ := addUnits_regenerated (c := fresh) c.units.toList
    (by
      intro a u listed
      exact reached.regenerates (Std.TreeMap.mem_toList_iff_getElem?_eq_some.mp listed))
    (by
      rw [Std.TreeMap.map_fst_toList_eq_keys]
      exact Std.TreeMap.nodup_keys)
    (by simp [fresh]) 0
  have load_eq : fresh.load bytes = (.ok count, loaded.log (.loaded count)) := by
    have units : c.artifact.units = c.units.toList.map
        fun (_, u) => ⟨u.entry, u.instructions⟩ := rfl
    have counted : count = c.units.toList.length := (save_ok saved).2.trans (List.length_map _)
    simp only [load, decode_saved saved, matching, units, added, counted, Nat.zero_add]
  have same (a : UInt16) : loaded.units[a]? = c.units[a]? := by
    apply Option.ext
    intro u
    rw [lookup, Std.TreeMap.mem_toList_iff_getElem?_eq_some]
    simp [fresh]
  rw [load_eq]
  refine ⟨rfl, ?_, same⟩
  exact (Std.TreeMap.Equiv.of_forall_constGet?_eq same).keys_eq

/-- A compiler that puts a hook before each instruction, over one return, and has
its own code for hooks. -/
def hooked : Compiler where
  regions := [⟨0x8000, #[0x60]⟩]
  customizer := Recipe.customizer {
    mutations := [(.before [.effect (.hook 7)], none)], substitutes := [(.hookPoint, .next)] }

/-- The unit comes back with one hook, and not with two. -/
theorem load_saved_hooked : ∃ count bytes,
    let c := (hooked.getOrCompile 0x8000).2
    c.isCompiled 0x8000 = true ∧ (c.save none).1 = .ok (count, bytes) ∧
      (hooked.load bytes).1 = .ok count ∧ (hooked.load bytes).2.entries = c.entries ∧
      ∀ a, (hooked.load bytes).2.get? a = c.get? a := by
  have reached : Reachable hooked.regions hooked.customizer none hooked.budget
      (hooked.getOrCompile 0x8000).2 := (Reachable.fresh {}).getOrCompile 0x8000
  have compiled : (hooked.getOrCompile 0x8000).2.isCompiled 0x8000 = true := by decide +kernel
  have success : ((hooked.getOrCompile 0x8000).2.save none).1.toBool = true := by decide +kernel
  cases saved : ((hooked.getOrCompile 0x8000).2.save none).1 with
  | error e => simp [saved, Except.toBool] at success
  | ok written =>
    obtain ⟨count, bytes⟩ := written
    exact ⟨count, bytes, compiled, saved, load_saved reached saved {}⟩

end NesRoutine.Compiler

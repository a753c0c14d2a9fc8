import Mathlib.Logic.Relation
import NesRoutine.Compiler.Cache
import NesRoutine.Compiler.Precompile
import NesRoutine.Proofs.Layout

/-! What the operations of a compiler can do to it, with any customizer. They
count, they note things down, and they keep a new unit for an address that has
none. The settings and the units that are kept already stay as they are. -/
namespace NesRoutine

/-- The unit is what its own instructions give for the address. -/
def CodeUnit.Regenerates (generators : Generators) (a : UInt16) (u : CodeUnit) : Prop :=
  u.instructions ≠ [] ∧ generate generators a u.instructions = .ok u

/-- The unit is made from the routine at the address, as the customizer edits it. -/
def CodeUnit.MadeFrom (regions : List CodeRegion) (customizer : Customizer) (a : UInt16)
    (u : CodeUnit) : Prop :=
  u.Regenerates customizer.generators a ∧
    ∃ r, Routine.discover regions a = .ok r ∧ u.instructions = customizer.edit r r.lower

namespace Compiler

/-- One change of a compiler, where only some units can be new. -/
inductive Change (New : UInt16 → CodeUnit → Prop) : Compiler → Compiler → Prop where
  | record {c} (hits invocations : Nat) (journal : Journal) :
      Change New c { c with hits, invocations, journal }
  | keep {c a u} (absent : c.units[a]? = none) (new : New a u) :
      Change New c { c with units := c.units.insert a u, compilations := c.compilations + 1 }

/-- Any number of changes. -/
def Grows (New : UInt16 → CodeUnit → Prop) : Compiler → Compiler → Prop :=
  Relation.ReflTransGen (Change New)

section Operations

variable {New : UInt16 → CodeUnit → Prop} {c c' c'' : Compiler} {a : UInt16} {u : CodeUnit}

namespace Grows

theorem refl : Grows New c c := Relation.ReflTransGen.refl

theorem trans (grows : Grows New c c') (grows' : Grows New c' c'') : Grows New c c'' :=
  Relation.ReflTransGen.trans grows grows'

theorem record (grows : Grows New c c') (hits invocations : Nat) (journal : Journal) :
    Grows New c { c' with hits, invocations, journal } :=
  grows.tail (.record hits invocations journal)

theorem log (grows : Grows New c c') (r : LogRecord) : Grows New c (c'.log r) :=
  grows.record c'.hits c'.invocations (c'.journal.log r)

theorem noteEntered (grows : Grows New c c') (a : UInt16) (h : Hardware) :
    Grows New c (c'.noteEntered a h) := by
  unfold Compiler.noteEntered
  split
  · exact grows.record c'.hits c'.invocations _
  · exact grows.log _

theorem noteLeft (grows : Grows New c c') (a : UInt16) (notes : List Note) (h : Hardware) :
    Grows New c (c'.noteLeft a notes h) := by
  unfold Compiler.noteLeft
  split
  · exact grows.record c'.hits c'.invocations _
  · exact grows.log _

theorem settings (grows : Grows New c c') :
    c'.regions = c.regions ∧ c'.customizer = c.customizer ∧ c'.debugger = c.debugger ∧
      c'.budget = c.budget := by
  induction grows with
  | refl => exact ⟨rfl, rfl, rfl, rfl⟩
  | tail _ change ih =>
    cases change with
    | record => exact ih
    | keep => exact ih

/-- A unit that is kept in the end was kept before, or is new. -/
theorem new (grows : Grows New c c') (found : c'.units[a]? = some u) :
    c.units[a]? = some u ∨ New a u := by
  induction grows with
  | refl => exact .inl found
  | tail _ change ih =>
    cases change with
    | record => exact ih found
    | keep absent new =>
      rw [Std.TreeMap.getElem?_insert] at found
      split at found
      next same =>
        cases Std.LawfulEqCmp.eq_of_compare same
        cases found
        exact .inr new
      next => exact ih found

/-- A unit that is kept stays the same one. -/
theorem kept (grows : Grows New c c') (found : c.units[a]? = some u) :
    c'.units[a]? = some u := by
  induction grows with
  | refl => exact found
  | tail _ change ih =>
    cases change with
    | record => exact ih
    | keep absent new =>
      rw [Std.TreeMap.getElem?_insert]
      split
      next same =>
        cases Std.LawfulEqCmp.eq_of_compare same
        rw [ih] at absent
        cases absent
      next => exact ih

/-- Each new unit is counted once. -/
theorem counted (grows : Grows New c c') (balanced : c.compilations = c.units.size) :
    c'.compilations = c'.units.size := by
  induction grows with
  | refl => exact balanced
  | tail _ change ih =>
    cases change with
    | record => exact ih
    | keep absent new =>
      rw [Std.TreeMap.size_insert, Std.TreeMap.contains_eq_isSome_getElem?, absent, ih]
      rfl

end Grows

theorem isCompiled_of_some (found : c.units[a]? = some u) :
    c.isCompiled a = true := by
  rw [isCompiled, Std.TreeMap.contains_eq_isSome_getElem?, found]
  rfl

theorem isCompiled_of_none (absent : c.units[a]? = none) : c.isCompiled a = false := by
  rw [isCompiled, Std.TreeMap.contains_eq_isSome_getElem?, absent]
  rfl

/-- Instructions are made into a unit that they make again, or into none. -/
theorem generate_cases (c : Compiler) (a : UInt16) (xs : List Lowered) :
    (∃ u, u.Regenerates c.customizer.generators a ∧ u.instructions = xs ∧
      c.generate a xs = (.ok u, { c with compilations := c.compilations + 1 })) ∨
    ∃ e, c.generate a xs = (.error e, c) := by
  rw [generate]
  split
  · exact .inr ⟨_, rfl⟩
  next nonempty =>
    cases generated : CodeUnit.generate c.customizer.generators a xs with
    | error e => exact .inr ⟨_, rfl⟩
    | ok u =>
      obtain ⟨_, _, _, rfl, _⟩ := CodeUnit.generate_ok generated
      have nonempty : u.instructions ≠ [] := by simpa using nonempty
      exact .inl ⟨u, ⟨nonempty, generated⟩, rfl, rfl⟩

theorem compile_cases (c : Compiler) (a : UInt16) :
    (∃ u journal, u.MadeFrom c.regions c.customizer a ∧
      c.compile a = (.ok u, { c with compilations := c.compilations + 1, journal })) ∨
    ∃ e journal, c.compile a = (.error e, { c with journal }) := by
  rw [compile]
  split
  · exact .inr ⟨_, c.journal, rfl⟩
  next r discovered =>
    dsimp only
    split
    · exact .inr ⟨_, _, rfl⟩
    · let noted := c.log (.discovered a r.instructions.length r.targets.size)
      rcases noted.generate_cases a (noted.customizer.edit r r.lower) with
        ⟨u, regenerates, instructions, made⟩ | ⟨e, failed⟩
      · simp only [noted] at made
        simp only [made]
        exact .inl ⟨u, _, ⟨regenerates, r, discovered, instructions⟩, rfl⟩
      · simp only [noted] at failed
        simp only [failed]
        exact .inr ⟨e, _, rfl⟩

/-- The unit for an address is the one that is kept, or it is made and kept. -/
theorem getOrCompile_cases (c : Compiler) (a : UInt16) :
    (∃ u, c.units[a]? = some u ∧ c.getOrCompile a = (.ok u, { c with hits := c.hits + 1 })) ∨
    c.units[a]? = none ∧
      ((∃ u journal, u.MadeFrom c.regions c.customizer a ∧
        c.getOrCompile a = (.ok u, { c with
          units := c.units.insert a u, compilations := c.compilations + 1, journal })) ∨
      ∃ e journal, c.getOrCompile a = (.error e, { c with journal })) := by
  rw [getOrCompile]
  cases cached : c.units[a]? with
  | some u => exact .inl ⟨u, rfl, rfl⟩
  | none =>
    refine .inr ⟨rfl, ?_⟩
    rcases c.compile_cases a with ⟨u, journal, made, compiled⟩ | ⟨e, journal, failed⟩
    · refine .inl ⟨u, journal, made, ?_⟩
      simp only [compiled]
    · refine .inr ⟨e, journal, ?_⟩
      simp only [failed]

theorem getOrCompile_grows (made : ∀ u, u.MadeFrom c.regions c.customizer a → New a u) :
    Grows New c (c.getOrCompile a).2 := by
  rcases c.getOrCompile_cases a with ⟨u, _, found⟩ | ⟨absent, ⟨u, journal, new, compiled⟩ | failed⟩
  · rw [found]
    exact Grows.refl.record (c.hits + 1) c.invocations c.journal
  · rw [compiled]
    have kept : Grows New c _ := Grows.refl.tail (.keep absent (made u new))
    exact kept.record c.hits c.invocations journal
  · obtain ⟨e, journal, failed⟩ := failed
    rw [failed]
    exact Grows.refl.record c.hits c.invocations journal

theorem run_grows (made : ∀ u, u.MadeFrom c.regions c.customizer a → New a u) (h : Hardware) :
    Grows New c (c.run a h).2.1 := by
  have grows := getOrCompile_grows made
  rw [run]
  rcases compiled : c.getOrCompile a with ⟨result, after⟩
  rw [compiled] at grows
  cases result with
  | error e => exact grows
  | ok unit =>
    have counted := grows.record after.hits (after.invocations + 1) after.journal
    exact (counted.noteEntered a h).noteLeft a _ _

/-- Asking for a unit keeps it, and changes nothing else that is kept. -/
theorem getOrCompile_units (answer : (c.getOrCompile a).1 = .ok u) (b : UInt16) :
    (c.getOrCompile a).2.units[b]? = if a = b then some u else c.units[b]? := by
  rcases c.getOrCompile_cases a with
    ⟨u', found, hit⟩ | ⟨_, ⟨u', journal, _, compiled⟩ | ⟨e, journal, failed⟩⟩
  · rw [hit] at answer ⊢
    cases answer
    split
    next same => rw [← same, found]
    next => rfl
  · rw [compiled] at answer ⊢
    cases answer
    simp [Std.TreeMap.getElem?_insert]
  · rw [failed] at answer
    cases answer

/-- A unit that was to be run is kept, however the run ends. -/
theorem isCompiled_run (answer : (c.getOrCompile a).1 = .ok u) (h : Hardware) :
    (c.run a h).2.1.isCompiled a = true := by
  have kept := getOrCompile_units answer a
  rw [if_pos rfl] at kept
  rcases compiled : c.getOrCompile a with ⟨result, after⟩
  rw [compiled] at answer kept
  cases answer
  have counted : Grows (fun _ _ => False) after _ :=
    Grows.refl.record after.hits (after.invocations + 1) after.journal
  rw [run, compiled]
  exact isCompiled_of_some (((counted.noteEntered a h).noteLeft a _ _).kept kept)

theorem visit_grows {s : Advance}
    (made : ∀ u, u.MadeFrom s.compiler.regions s.compiler.customizer a → New a u) :
    Grows New s.compiler (s.visit a).2.compiler := by
  have grows := getOrCompile_grows made
  rw [Advance.visit]
  rcases compiled : s.compiler.getOrCompile a with ⟨result, after⟩
  rw [compiled] at grows
  cases result with
  | error e => exact grows.log _
  | ok unit => exact grows

theorem explore_grows {s : Advance} (fuel : Nat) (pending : List UInt16)
    (made : ∀ a u, u.MadeFrom s.compiler.regions s.compiler.customizer a → New a u) :
    Grows New s.compiler (Advance.explore fuel pending s).compiler := by
  fun_induction Advance.explore fuel pending s with
  | case1 => exact .refl
  | case2 _ _ _ _ _ ih => exact ih made
  | case3 => exact .refl
  | case4 a pending s _ fuel edges s' visited ih =>
    have grows := visit_grows (made a)
    rw [visited] at grows
    obtain ⟨regions, customizer, _⟩ := grows.settings
    exact grows.trans (ih (by rwa [regions, customizer]))

theorem precompile_grows (entries : List UInt16)
    (made : ∀ a u, u.MadeFrom c.regions c.customizer a → New a u) :
    Grows New c (c.precompile entries).2 :=
  explore_grows (s := { compiler := c }) 65536 entries made

/-- The units that are added are made from what was saved of them. -/
theorem addUnits_grows (added : Nat) (vs : List SavedUnit)
    (made : ∀ v ∈ vs, ∀ u : CodeUnit, u.instructions = v.instructions →
      u.Regenerates c.customizer.generators v.entry → New v.entry u) :
    Grows New c (c.addUnits added vs).2 := by
  induction vs generalizing c added with
  | nil => exact .refl
  | cons v vs ih =>
    have others := fun v member => made v (List.mem_cons_of_mem _ member)
    rw [addUnits]
    split
    · exact ih added others
    next absent =>
      rcases c.generate_cases v.entry v.instructions with
        ⟨u, regenerates, instructions, generated⟩ | ⟨e, failed⟩
      · simp only [generated]
        have absent : c.units[v.entry]? = none := by simpa [isCompiled] using absent
        have new := made v List.mem_cons_self u instructions regenerates
        have kept : Grows New c _ := Grows.refl.tail (.keep absent new)
        exact kept.trans (ih (added + 1) others)
      · simp only [failed]
        exact .refl

theorem load_grows (bytes : List UInt8)
    (made : ∀ artifact, Artifact.decode bytes = .ok artifact → ∀ v ∈ artifact.units,
      ∀ u : CodeUnit, u.instructions = v.instructions →
        u.Regenerates c.customizer.generators v.entry → New v.entry u) :
    Grows New c (c.load bytes).2 := by
  rw [load]
  split
  · exact .refl
  next artifact decoded =>
    split
    · exact .refl
    · have grows := addUnits_grows 0 artifact.units (made artifact decoded)
      rcases adding : c.addUnits 0 artifact.units with ⟨result, after⟩
      rw [adding] at grows
      cases result with
      | error e => exact grows
      | ok added => exact grows.log _

theorem save_grows (room : Option Nat) : Grows New c (c.save room).2 := by
  simp only [save]
  split
  · exact .refl
  · split
    · exact .refl
    · exact Grows.refl.log _

end Operations

/-- The compilers that some use of them leads to. What is loaded may be any bytes. -/
inductive Reachable (regions : List CodeRegion) (customizer : Customizer)
    (debugger : Option Debugger) (budget : Nat) : Compiler → Prop where
  | fresh (journal : Journal) : Reachable regions customizer debugger budget
      { regions, customizer, debugger, budget, journal }
  | getOrCompile (reached : Reachable regions customizer debugger budget c) (a : UInt16) :
      Reachable regions customizer debugger budget (c.getOrCompile a).2
  | run (reached : Reachable regions customizer debugger budget c) (a : UInt16) (h : Hardware) :
      Reachable regions customizer debugger budget (c.run a h).2.1
  | precompile (reached : Reachable regions customizer debugger budget c) (entries : List UInt16) :
      Reachable regions customizer debugger budget (c.precompile entries).2
  | save (reached : Reachable regions customizer debugger budget c) (room : Option Nat) :
      Reachable regions customizer debugger budget (c.save room).2
  | load (reached : Reachable regions customizer debugger budget c) (bytes : List UInt8) :
      Reachable regions customizer debugger budget (c.load bytes).2
  /-- Those who use a compiler note things down with it. -/
  | log (reached : Reachable regions customizer debugger budget c) (r : LogRecord) :
      Reachable regions customizer debugger budget (c.log r)

variable {regions : List CodeRegion} {customizer : Customizer} {debugger : Option Debugger}
  {budget : Nat} {c : Compiler}

/-- Whatever a compiler was used for, it has only added units that can be made again. -/
theorem Reachable.grows (reached : Reachable regions customizer debugger budget c) :
    ∃ journal, Grows (CodeUnit.Regenerates customizer.generators)
      { regions, customizer, debugger, budget, journal } c := by
  have made {c' : Compiler} {journal : Journal}
      (grows : Grows (CodeUnit.Regenerates customizer.generators)
        { regions, customizer, debugger, budget, journal } c') (a : UInt16) (u : CodeUnit)
      (new : u.MadeFrom c'.regions c'.customizer a) : u.Regenerates customizer.generators a := by
    have same : c'.customizer = customizer := grows.settings.2.1
    rw [← same]
    exact new.1
  induction reached with
  | fresh journal => exact ⟨journal, .refl⟩
  | getOrCompile _ a ih =>
    obtain ⟨journal, grows⟩ := ih
    exact ⟨journal, grows.trans (getOrCompile_grows (made grows a))⟩
  | run _ a h ih =>
    obtain ⟨journal, grows⟩ := ih
    exact ⟨journal, grows.trans (run_grows (made grows a) h)⟩
  | precompile _ entries ih =>
    obtain ⟨journal, grows⟩ := ih
    exact ⟨journal, grows.trans (precompile_grows entries (made grows))⟩
  | save _ room ih =>
    obtain ⟨journal, grows⟩ := ih
    exact ⟨journal, grows.trans (save_grows room)⟩
  | load _ bytes ih =>
    obtain ⟨journal, grows⟩ := ih
    have same : _ = customizer := grows.settings.2.1
    refine ⟨journal, grows.trans (load_grows bytes ?_)⟩
    intro _ _ v _ u _ regenerates
    rwa [same] at regenerates
  | log _ r ih =>
    obtain ⟨journal, grows⟩ := ih
    exact ⟨journal, grows.log r⟩

theorem Reachable.regenerates {u : CodeUnit}
    (reached : Reachable regions customizer debugger budget c)
    (found : c.units[a]? = some u) : u.Regenerates customizer.generators a := by
  obtain ⟨journal, grows⟩ := reached.grows
  rcases grows.new found with old | new
  · simp at old
  · exact new

/-- So can every unit that it answers with. -/
theorem Reachable.answer_regenerates {u : CodeUnit}
    (reached : Reachable regions customizer debugger budget c)
    (answer : (c.getOrCompile a).1 = .ok u) : u.Regenerates customizer.generators a := by
  obtain ⟨journal, grows⟩ := reached.grows
  have same : c.customizer = customizer := grows.settings.2.1
  rcases c.getOrCompile_cases a with
    ⟨u', found, hit⟩ | ⟨_, ⟨u', journal, made, compiled⟩ | ⟨e, journal, failed⟩⟩
  · rw [hit] at answer
    cases answer
    exact reached.regenerates found
  · rw [compiled] at answer
    cases answer
    exact same ▸ made.1
  · rw [failed] at answer
    cases answer

end Compiler
end NesRoutine

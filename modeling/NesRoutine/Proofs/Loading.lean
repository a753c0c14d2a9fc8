import NesRoutine.Proofs.Artifact.Code
import NesRoutine.Proofs.Growth

/-! What loading does, for any bytes and any compiler. Bytes that are no artifact, or one
of another format or for other code, change nothing. Of an artifact the units are taken
in turn: where an entry has no unit yet, the first that is saved for it is made and kept,
up to the first that cannot be made. -/
namespace NesRoutine

theorem Artifact.mismatch?_eq_none_iff {a : Artifact} {checksum : UInt32} :
    a.mismatch? checksum = none ↔
      a.magic = expectedMagic ∧ a.version = expectedVersion ∧ a.checksum = checksum := by
  rw [mismatch?]
  grind

namespace Compiler

/-- What the compiler makes of a saved unit. -/
def revive (c : Compiler) (v : SavedUnit) : Except Error CodeUnit :=
  (c.generate v.entry v.instructions).1

/-- The entries of saved units for which there is no unit, each where it first comes. -/
def newEntries (c : Compiler) (vs : List SavedUnit) : List UInt16 :=
  ((vs.map (·.entry)).filter (!c.isCompiled ·)).eraseDups

/-- The compiler `c'` is `c` with the new ones among the units `seen`. -/
structure Adds (c : Compiler) (seen : List SavedUnit) (made : List (UInt16 × CodeUnit))
    (c' : Compiler) : Prop where
  entries : made.map (·.1) = c.newEntries seen
  first : ∀ p ∈ made, ∃ v, seen.find? (·.entry == p.1) = some v ∧ c.revive v = .ok p.2
  /-- Nothing but the units and their count is changed, and the units are kept in turn. -/
  state : c' = { c with
    units := c.units.insertMany made
    compilations := c.compilations + made.length }
  units : ∀ (a : UInt16) (u : CodeUnit),
    c'.units[a]? = some u ↔ c.units[a]? = some u ∨ (a, u) ∈ made
  size : c'.units.size = c.units.size + made.length

/-- The unit `v` is a new one after those `seen`, and cannot be made. -/
structure Fails (c : Compiler) (seen : List SavedUnit) (v : SavedUnit) (e : Error) : Prop where
  absent : c.isCompiled v.entry = false
  apart : ∀ w ∈ seen, w.entry ≠ v.entry
  refused : c.revive v = .error e

variable {c c' : Compiler} {v w : SavedUnit} {seen : List SavedUnit}
  {made : List (UInt16 × CodeUnit)} {u : CodeUnit}

/-- Keeps a unit that was made anew. -/
def keep (c : Compiler) (a : UInt16) (u : CodeUnit) : Compiler :=
  { c with units := c.units.insert a u, compilations := c.compilations + 1 }

theorem isCompiled_keep (c : Compiler) (a b : UInt16) (u : CodeUnit) :
    (c.keep a u).isCompiled b = (b == a || c.isCompiled b) := by
  rw [isCompiled, isCompiled, keep, Std.TreeMap.contains_insert]
  grind

theorem revive_keep (c : Compiler) (a : UInt16) (u : CodeUnit) (v : SavedUnit) :
    (c.keep a u).revive v = c.revive v := by
  rw [revive, revive, generate, generate]
  split
  · rfl
  · cases generated : CodeUnit.generate c.customizer.generators v.entry v.instructions <;>
      simp [keep, generated]

theorem not_isCompiled_of_mem (new : a ∈ c.newEntries seen) : c.isCompiled a = false := by
  rw [newEntries, List.mem_eraseDups, List.mem_filter] at new
  simpa using new.2

theorem newEntries_known (known : c.isCompiled v.entry = true) (seen : List SavedUnit) :
    c.newEntries (v :: seen) = c.newEntries seen := by
  simp [newEntries, known]

/-- Once the first unit is kept, its entry is not new any more. -/
theorem newEntries_new (absent : c.isCompiled v.entry = false) (seen : List SavedUnit)
    (u : CodeUnit) :
    c.newEntries (v :: seen) = v.entry :: (c.keep v.entry u).newEntries seen := by
  simp only [newEntries, List.map_cons, List.filter_cons, absent, Bool.not_false, if_true,
    List.eraseDups_cons, List.filter_filter, isCompiled_keep, Bool.not_or]

namespace Adds

theorem nil (c : Compiler) : c.Adds [] [] c where
  entries := rfl
  first := by simp
  state := rfl
  units := by simp
  size := rfl

theorem entry_new (adds : c.Adds seen made c') (member : p ∈ made) :
    c.isCompiled p.1 = false :=
  not_isCompiled_of_mem (adds.entries ▸ List.mem_map_of_mem member)

/-- A unit whose entry has one already is passed over. -/
theorem known (adds : c.Adds seen made c') (known : c.isCompiled v.entry = true) :
    c.Adds (v :: seen) made c' where
  entries := adds.entries.trans (newEntries_known known seen).symm
  first := by
    intro p member
    obtain ⟨w, found, revived⟩ := adds.first p member
    refine ⟨w, ?_, revived⟩
    have differs : v.entry ≠ p.1 := by
      intro same
      rw [same, adds.entry_new member] at known
      cases known
    rw [List.find?_cons_of_neg (by simpa using differs), found]
  state := adds.state
  units := adds.units
  size := adds.size

/-- A unit whose entry has none is made and kept. -/
theorem new (absent : c.units[v.entry]? = none) (revived : c.revive v = .ok u)
    (adds : (c.keep v.entry u).Adds seen made c') :
    c.Adds (v :: seen) ((v.entry, u) :: made) c' where
  entries := by
    rw [List.map_cons, adds.entries, newEntries_new (isCompiled_of_none absent)]
  first := by
    intro p member
    rcases List.mem_cons.mp member with rfl | later
    · exact ⟨v, by simp, revived⟩
    · obtain ⟨w, found, revived'⟩ := adds.first p later
      refine ⟨w, ?_, by rwa [revive_keep] at revived'⟩
      have differs : v.entry ≠ p.1 := by
        intro same
        have kept := adds.entry_new later
        simp [isCompiled_keep, same] at kept
      rw [List.find?_cons_of_neg (by simpa using differs), found]
  state := by
    rw [adds.state, Std.TreeMap.insertMany_cons, List.length_cons]
    simp [keep, Nat.add_assoc, Nat.add_comm 1]
  units := by
    intro a w
    rw [adds.units, keep, Std.TreeMap.getElem?_insert, List.mem_cons, Prod.mk.injEq]
    by_cases same : v.entry = a
    · subst same
      simp [absent, eq_comm]
    · simp [same, Ne.symm same]
  size := by
    have unknown : c.units.contains v.entry = false := isCompiled_of_none absent
    rw [adds.size, keep, Std.TreeMap.size_insert, unknown, List.length_cons]
    simp [Nat.add_assoc, Nat.add_comm 1]

end Adds

theorem Fails.known (fails : c.Fails seen w e) (known : c.isCompiled v.entry = true) :
    c.Fails (v :: seen) w e where
  absent := fails.absent
  apart := by
    have differs : v.entry ≠ w.entry := by
      intro same
      rw [same, fails.absent] at known
      cases known
    exact List.forall_mem_cons.mpr ⟨differs, fails.apart⟩
  refused := fails.refused

theorem Fails.new (fails : (c.keep v.entry u).Fails seen w e) : c.Fails (v :: seen) w e := by
  obtain ⟨absent, apart, refused⟩ := fails
  rw [isCompiled_keep, Bool.or_eq_false_iff, beq_eq_false_iff_ne] at absent
  rw [revive_keep] at refused
  exact ⟨absent.2, List.forall_mem_cons.mpr ⟨absent.1.symm, apart⟩, refused⟩

theorem generate_revive (c : Compiler) (v : SavedUnit) :
    (∃ u, c.revive v = .ok u ∧ c.generate v.entry v.instructions =
      (.ok u, { c with compilations := c.compilations + 1 })) ∨
    ∃ e, c.revive v = .error e ∧ c.generate v.entry v.instructions = (.error e, c) := by
  rcases c.generate_cases v.entry v.instructions with ⟨u, _, _, made⟩ | ⟨e, failed⟩
  · exact .inl ⟨u, congrArg Prod.fst made, made⟩
  · exact .inr ⟨e, congrArg Prod.fst failed, failed⟩

/-- All the units are gone through, or those before one that is new and cannot be made. -/
theorem addUnits_adds (c : Compiler) (n : Nat) (vs : List SavedUnit) :
    (∃ made c', c.Adds vs made c' ∧ c.addUnits n vs = (.ok (n + made.length), c')) ∨
    ∃ seen v rest made c' e, vs = seen ++ v :: rest ∧ c.Adds seen made c' ∧ c.Fails seen v e ∧
      c.addUnits n vs = (.error e, c') := by
  -- For any compiler, since after a unit is kept the rest is new beside that one as well.
  induction vs generalizing c n with
  | nil => exact .inl ⟨[], c, .nil c, rfl⟩
  | cons v vs ih =>
    rw [addUnits]
    by_cases known : c.isCompiled v.entry = true
    · rw [if_pos known]
      rcases ih c n with ⟨made, c', adds, added⟩ |
          ⟨seen, w, rest, made, c', e, rfl, adds, fails, added⟩
      · exact .inl ⟨made, c', adds.known known, added⟩
      · exact .inr ⟨v :: seen, w, rest, made, c', e, rfl, adds.known known, fails.known known,
          added⟩
    · have absent : c.units[v.entry]? = none := by simpa [isCompiled] using known
      rw [if_neg known]
      rcases c.generate_revive v with ⟨u, revived, generated⟩ | ⟨e, refused, generated⟩
      · simp only [generated]
        rcases ih (c.keep v.entry u) (n + 1) with ⟨made, c', adds, added⟩ |
          ⟨seen, w, rest, made, c', e, rfl, adds, fails, added⟩
        · refine .inl ⟨_, c', adds.new absent revived, added.trans ?_⟩
          rw [List.length_cons, Nat.add_assoc, Nat.add_comm 1]
        · exact .inr ⟨v :: seen, w, rest, _, c', e, rfl, adds.new absent revived, fails.new, added⟩
      · have fails : c.Fails [] v e := ⟨isCompiled_of_none absent, by simp, refused⟩
        simp only [generated]
        exact .inr ⟨[], v, vs, [], c, e, rfl, .nil c, fails, rfl⟩

/-- Loading bytes that cannot be decoded, or whose header does not fit, changes nothing.
Otherwise the new ones among the units are added and counted; if one of them cannot be
made, loading fails with its error and has added those before it. -/
theorem load_exact (c : Compiler) (bytes : List UInt8) :
    match Artifact.decode bytes with
    | .error e => c.load bytes = (.error (.cacheFormat e), c)
    | .ok artifact =>
      if artifact.magic = Artifact.expectedMagic ∧ artifact.version = Artifact.expectedVersion ∧
          artifact.checksum = Checksum.regions c.regions then
        (∃ made c', c.Adds artifact.units made c' ∧
          c.load bytes = (.ok made.length, c'.log (.loaded made.length))) ∨
        ∃ seen v rest made c' e, artifact.units = seen ++ v :: rest ∧ c.Adds seen made c' ∧
          c.Fails seen v e ∧ c.load bytes = (.error e, c')
      else
        ∃ m, c.load bytes = (.error (.cacheMismatch m), c) := by
  rw [load]
  cases decoded : Artifact.decode bytes with
  | error e => rfl
  | ok artifact =>
    dsimp only
    cases mismatch : artifact.mismatch? (Checksum.regions c.regions) with
    | some m =>
      have misfits : artifact.mismatch? (Checksum.regions c.regions) ≠ none := by simp [mismatch]
      rw [if_neg (mt Artifact.mismatch?_eq_none_iff.mpr misfits)]
      exact ⟨m, rfl⟩
    | none =>
      rw [if_pos (Artifact.mismatch?_eq_none_iff.mp mismatch)]
      rcases c.addUnits_adds 0 artifact.units with ⟨made, c', adds, added⟩ |
        ⟨seen, v, rest, made, c', e, split, adds, fails, added⟩
      · refine .inl ⟨made, c', adds, ?_⟩
        simp only [added, Nat.zero_add]
      · refine .inr ⟨seen, v, rest, made, c', e, split, adds, fails, ?_⟩
        simp only [added]

def leaving : List Lowered := [⟨default, [.exit .returnFromSubroutine]⟩]

/-- Goes to a label that is nowhere. -/
def astray : List Lowered := [⟨default, [.goto (.inner 0 0)]⟩]

/-- Units for one entry, twice for another and for a third, of which only the second can be
made. -/
def mixed : Artifact where
  magic := Artifact.expectedMagic
  version := Artifact.expectedVersion
  checksum := Checksum.regions []
  units := [⟨0x8000, astray⟩, ⟨0x8001, leaving⟩, ⟨0x8001, astray⟩, ⟨0x8002, astray⟩]

/-- A compiler that has a unit for the first entry. -/
def holding : Compiler := keep { regions := [] } 0x8000 default

/-- The first entry and the repeated one are passed over, and loading fails at the last. -/
theorem load_exact_mixed : ∃ bytes made c' e, Artifact.decode bytes = .ok mixed ∧
    holding.load bytes = (.error e, c') ∧ holding.Adds (mixed.units.take 3) made c' ∧
    made.map (·.1) = [0x8001] ∧ holding.Fails (mixed.units.take 3) ⟨0x8002, astray⟩ e := by
  obtain ⟨bytes, decoded⟩ : ∃ bytes, Artifact.decode bytes = .ok mixed := by
    have written : mixed.write = .ok mixed.encode := by
      rw [Artifact.write, if_neg (by decide +kernel)]
    exact ⟨_, Artifact.decode_write written []⟩
  have known : holding.isCompiled 0x8000 = true := by decide +kernel
  have revived : (holding.revive ⟨0x8001, leaving⟩).toBool = true := by decide +kernel
  have refused : (holding.revive ⟨0x8002, astray⟩).toBool = false := by decide +kernel
  have loading := load_exact holding bytes
  simp only [decoded] at loading
  rw [if_pos ⟨rfl, rfl, rfl⟩] at loading
  rcases loading with ⟨made, c', adds, _⟩ |
    ⟨seen, v, rest, made, c', e, units, adds, fails, loaded⟩
  · have new : holding.newEntries mixed.units = [0x8001, 0x8002] := by decide +kernel
    obtain ⟨p, member, entry⟩ : ∃ p ∈ made, p.1 = 0x8002 := by
      rw [← List.mem_map, adds.entries, new]
      decide
    obtain ⟨v, found, made⟩ := adds.first p member
    rw [entry] at found
    cases found
    simp [made, Except.toBool] at refused
  · -- Of the four units only the last can be the one that fails.
    have last : seen = mixed.units.take 3 ∧ v = ⟨0x8002, astray⟩ := by
      rcases seen with _ | ⟨_, _ | ⟨_, _ | ⟨_, _ | ⟨_, _⟩⟩⟩⟩
      · cases units
        cases known.symm.trans fails.absent
      · cases units
        simp [fails.refused, Except.toBool] at revived
      · cases units
        exact absurd rfl (fails.apart ⟨0x8001, leaving⟩ (by simp))
      · cases units
        exact ⟨rfl, rfl⟩
      · simp [mixed] at units
    obtain ⟨rfl, rfl⟩ := last
    have new : holding.newEntries (mixed.units.take 3) = [0x8001] := by decide +kernel
    exact ⟨bytes, made, c', e, decoded, loaded, adds, adds.entries.trans new, fails⟩

end Compiler
end NesRoutine

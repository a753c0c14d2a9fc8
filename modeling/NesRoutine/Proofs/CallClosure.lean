import NesRoutine.Proofs.Canonical

/-! Compiling ahead takes up exactly the addresses that calls lead to from the entries.
The search is taken as a loop without a bound on its turns, as discovery is; what it
reports does not depend on the units that were there before. -/
namespace NesRoutine

namespace Routine

/-- Where the routine at an address leads to beyond itself: the target of a call, the
point a call returns to, and the point a software interrupt resumes at. -/
inductive CallEdge (regions : List CodeRegion) (a : UInt16) : UInt16 → Prop where
  | target : discover regions a = .ok r → i ∈ r.instructions → i.mnemonic = .jsr →
      CallEdge regions a i.operandWord
  | back : discover regions a = .ok r → i ∈ r.instructions → i.mnemonic = .jsr →
      CallEdge regions a (i.address + 3)
  | resume : discover regions a = .ok r → i ∈ r.instructions → i.mnemonic = .brk →
      CallEdge regions a (i.address + 2)

/-- The least set that has the entries and is closed under calls. -/
inductive Called (regions : List CodeRegion) (entries : List UInt16) : UInt16 → Prop where
  | entry : a ∈ entries → Called regions entries a
  | onward : Called regions entries a → CallEdge regions a b → Called regions entries b

variable {regions : List CodeRegion} {entries entries' : List UInt16} {a b : UInt16}

theorem Called.mono (called : Called regions entries a) (fewer : entries ⊆ entries') :
    Called regions entries' a := by
  induction called with
  | entry member => exact .entry (fewer member)
  | onward _ edge ih => exact ih.onward edge

theorem CallEdge.discovered (edge : CallEdge regions a b) :
    ∃ r, discover regions a = .ok r := by
  cases edge with
  | target discovered => exact ⟨_, discovered⟩
  | back discovered => exact ⟨_, discovered⟩
  | resume discovered => exact ⟨_, discovered⟩

/-- A call is three bytes long. -/
theorem next_of_jsr (discovered : discover regions a = .ok r) (member : i ∈ r.instructions)
    (jsr : i.mnemonic = .jsr) : i.next = i.address + 3 := by
  obtain ⟨_, decoded⟩ := (discover_exact discovered).decoded member
  have documented := decodeAt_documented decoded
  have mode := documented.mode_mem
  rw [jsr] at mode
  rw [Instruction.next, documented.size_eq, List.mem_singleton.mp mode]
  rfl

theorem mem_callEdges (discovered : discover regions a = .ok r) :
    (∃ i ∈ r.instructions, b ∈ i.callEdges) ↔ CallEdge regions a b := by
  constructor
  · rintro ⟨i, member, edge⟩
    rw [Instruction.callEdges] at edge
    split at edge
    next jsr =>
      rw [next_of_jsr discovered member jsr, List.mem_pair] at edge
      rcases edge with rfl | rfl
      · exact .target discovered member jsr
      · exact .back discovered member jsr
    next brk =>
      cases List.mem_singleton.mp edge
      exact .resume discovered member brk
    next => cases edge
  · intro edge
    cases edge with
    | @target r' i discovered' member jsr =>
      cases discovered.symm.trans discovered'
      exact ⟨i, member, by simp [Instruction.callEdges, jsr]⟩
    | @back r' i discovered' member jsr =>
      cases discovered.symm.trans discovered'
      exact ⟨i, member, by simp [Instruction.callEdges, jsr, next_of_jsr discovered member jsr]⟩
    | @resume r' i discovered' member brk =>
      cases discovered.symm.trans discovered'
      exact ⟨i, member, by simp [Instruction.callEdges, brk]⟩

end Routine

open Routine (CallEdge Called)
open CodeUnit (IsCompiled)

variable {regions : List CodeRegion} {a : UInt16} {u : CodeUnit}

theorem CodeUnit.IsCompiled.mem_callEdges (compiled : IsCompiled regions a u) :
    b ∈ u.callEdges ↔ CallEdge regions a b := by
  obtain ⟨r, discovered, generated⟩ := compiled
  obtain ⟨_, _, _, instructions, _⟩ := CodeUnit.generate_ok generated
  rw [← Routine.mem_callEdges discovered]
  simp [CodeUnit.callEdges, instructions, Routine.lower, r.ordered_perm.mem_iff]

namespace Compiler

variable {debugger : Option Debugger} {budget : Nat} {c c' : Compiler}

theorem Driven.coherent (driven : Driven regions {} c) :
    c.Coherent regions c.debugger c.budget := by
  obtain ⟨regions_eq, customizer_eq, made⟩ := driven.authentic
  refine ⟨regions_eq, customizer_eq, rfl, rfl, ?_⟩
  intro a u found
  obtain ⟨⟨_, generated⟩, r, discovered, instructions⟩ := made a u found
  rw [instructions] at generated
  exact ⟨r, discovered, generated⟩

namespace Report

/-- All addresses that were taken up. -/
def addresses (r : Report) : List UInt16 := r.compiled.toList ++ r.failed.toList.map (·.1)

theorem mem_addresses {r : Report} :
    a ∈ r.addresses ↔ a ∈ r.compiled ∨ ∃ e, (a, e) ∈ r.failed := by
  simp [addresses]

/-- What is reported and did not fail was compiled. -/
theorem compiled_of_discovered {report : Report} (member : a ∈ report.addresses)
    (failed : ∀ a e, (a, e) ∈ report.failed →
      ∃ cause, Routine.discover regions a = .error cause ∧ e = .decode a cause)
    (found : Routine.discover regions a = .ok r) : a ∈ report.compiled := by
  rcases mem_addresses.mp member with compiled | ⟨e, failure⟩
  · exact compiled
  · obtain ⟨_, unknown, _⟩ := failed a e failure
    cases unknown.symm.trans found

theorem addresses_compiled (r : Report) (a : UInt16) :
    ({ r with compiled := r.compiled.push a } : Report).addresses.Perm (a :: r.addresses) := by
  simp [addresses]

theorem addresses_failed (r : Report) (a : UInt16) (e : Error) :
    ({ r with failed := r.failed.push (a, e) } : Report).addresses.Perm (a :: r.addresses) := by
  simp [addresses, ← List.append_assoc]

end Report

namespace Advance

/-- The search as a loop that ends only when nothing is pending. -/
inductive Tour : List UInt16 → Advance → Advance → Prop where
  | done : Tour [] s s
  | again {a : UInt16} : a ∈ s.seen → Tour pending s s' → Tour (a :: pending) s s'
  | visit {a : UInt16} : a ∉ s.seen → Tour (pending ++ (s.visit a).1) (s.visit a).2 s' →
      Tour (a :: pending) s s'

/-- What taking up an address does, by what is found there. -/
structure Visited (regions : List CodeRegion) (s : Advance) (a : UInt16) (edges : List UInt16)
    (s' : Advance) : Prop where
  edges : ∀ b, b ∈ edges ↔ CallEdge regions a b
  seen : s'.seen = s.seen.insert a
  addresses : s'.report.addresses.Perm (a :: s.report.addresses)
  compiled : ∀ b, b ∈ s'.report.compiled ↔
    b ∈ s.report.compiled ∨ b = a ∧ ∃ r, Routine.discover regions a = .ok r
  failed : ∀ b e, (b, e) ∈ s'.report.failed → (b, e) ∈ s.report.failed ∨
    b = a ∧ ∃ cause, Routine.discover regions a = .error cause ∧ e = .decode a cause
  kept : ∀ (b : UInt16) u, s'.compiler.units[b]? = some u ↔
    s.compiler.units[b]? = some u ∨ b = a ∧ IsCompiled regions a u

end Advance

theorem Coherent.visit {s : Advance} (coherent : s.compiler.Coherent regions debugger budget)
    (a : UInt16) :
    (∃ cause, Routine.discover regions a = .error cause ∧ s.visit a = ([], {
      compiler := s.compiler.log (.skipped a (.decode a cause))
      seen := s.seen.insert a
      report := { s.report with failed := s.report.failed.push (a, .decode a cause) } })) ∨
    ∃ u c', IsCompiled regions a u ∧ c'.Coherent regions debugger budget ∧
      (∀ b : UInt16, c'.units[b]? = if a = b then some u else s.compiler.units[b]?) ∧
      s.visit a = (u.callEdges, {
        compiler := c'
        seen := s.seen.insert a
        report := { s.report with compiled := s.report.compiled.push a } }) := by
  rcases coherent.getOrCompile a with ⟨cause, unknown, same⟩ | ⟨u, c', compiled, made, kept⟩
  · refine .inl ⟨cause, unknown, ?_⟩
    simp only [Advance.visit, same]
  · have units := getOrCompile_units (congrArg Prod.fst made)
    rw [made] at units
    refine .inr ⟨u, c', compiled, kept, units, ?_⟩
    simp only [Advance.visit, made]

theorem Coherent.visited {s : Advance} (coherent : s.compiler.Coherent regions debugger budget)
    (a : UInt16) : Advance.Visited regions s a (s.visit a).1 (s.visit a).2 := by
  rcases coherent.visit a with ⟨cause, unknown, visited⟩ | ⟨u, c', compiled, _, units, visited⟩
  · have nowhere (b : UInt16) : ¬ CallEdge regions a b := by
      intro edge
      obtain ⟨r, found⟩ := edge.discovered
      cases unknown.symm.trans found
    have none (u : CodeUnit) : ¬ IsCompiled regions a u := by
      rintro ⟨r, found, _⟩
      cases unknown.symm.trans found
    rw [visited]
    constructor
    case edges => simpa using nowhere
    case seen => rfl
    case addresses => exact s.report.addresses_failed a _
    case compiled => simp [unknown]
    case failed =>
      intro b e member
      simpa [unknown] using member
    case kept =>
      intro b u
      have same : (s.compiler.log (.skipped a (.decode a cause))).units = s.compiler.units := rfl
      simp [same, none]
  · rw [visited]
    constructor
    case edges => exact fun b => compiled.mem_callEdges
    case seen => rfl
    case addresses => exact s.report.addresses_compiled a
    case compiled =>
      obtain ⟨r, found, _⟩ := compiled
      simp [found]
    case failed => exact fun b e member => .inl member
    case kept =>
      intro b v
      rw [units]
      by_cases same : a = b
      · subst same
        rw [if_pos rfl, Option.some.injEq]
        constructor
        · rintro rfl
          exact .inr ⟨rfl, compiled⟩
        · rintro (cached | ⟨_, compiled'⟩)
          · exact compiled.unique (coherent.compiled a v cached)
          · exact compiled.unique compiled'
      · simp [same, Ne.symm same]

namespace Advance

/-- What holds of the search whenever it takes up the pending addresses, if it began with
the compiler `c`. -/
structure Surveyed (regions : List CodeRegion) (debugger : Option Debugger) (budget : Nat)
    (entries : List UInt16) (c : Compiler) (pending : List UInt16) (s : Advance) : Prop where
  coherent : s.compiler.Coherent regions debugger budget
  seen : ∀ a, a ∈ s.seen ↔ a ∈ s.report.addresses
  distinct : s.report.addresses.Nodup
  called : ∀ a, a ∈ s.report.addresses ∨ a ∈ pending → Called regions entries a
  entered : ∀ a ∈ entries, a ∈ s.report.addresses ∨ a ∈ pending
  closed : ∀ a ∈ s.report.addresses, ∀ b, CallEdge regions a b →
    b ∈ s.report.addresses ∨ b ∈ pending
  compiled : ∀ a ∈ s.report.compiled, ∃ r, Routine.discover regions a = .ok r
  failed : ∀ a e, (a, e) ∈ s.report.failed →
    ∃ cause, Routine.discover regions a = .error cause ∧ e = .decode a cause
  kept : ∀ (a : UInt16) u, s.compiler.units[a]? = some u ↔
    c.units[a]? = some u ∨ a ∈ s.report.compiled ∧ IsCompiled regions a u

namespace Surveyed

variable {entries pending : List UInt16} {s s' : Advance}

theorem start (coherent : c.Coherent regions debugger budget) :
    Surveyed regions debugger budget entries c entries { compiler := c } where
  coherent := coherent
  seen a := by simp [Report.addresses, Std.TreeSet.not_mem_emptyc]
  distinct := by simp [Report.addresses]
  called a known := by
    have member : a ∈ entries := by simpa [Report.addresses] using known
    exact .entry member
  entered a member := .inr member
  closed := by simp [Report.addresses]
  compiled := by simp
  failed := by simp
  kept := by simp

/-- An address that was met before is passed over. -/
theorem again (surveyed : Surveyed regions debugger budget entries c (a :: pending) s)
    (met : a ∈ s.seen) : Surveyed regions debugger budget entries c pending s := by
  have settled {b : UInt16} (known : b ∈ s.report.addresses ∨ b ∈ a :: pending) :
      b ∈ s.report.addresses ∨ b ∈ pending := by
    rcases known with old | waiting
    · exact .inl old
    · rcases List.mem_cons.mp waiting with rfl | later
      · exact .inl ((surveyed.seen b).mp met)
      · exact .inr later
  exact {
    surveyed with
    called := fun b known => surveyed.called b (known.imp_right (List.mem_cons_of_mem a))
    entered := fun b member => settled (surveyed.entered b member)
    closed := fun b known d edge => settled (surveyed.closed b known d edge) }

/-- An address that is new is reported, and where it leads to becomes pending. -/
theorem visit (surveyed : Surveyed regions debugger budget entries c (a :: pending) s)
    (new : a ∉ s.seen) : Surveyed regions debugger budget entries c
      (pending ++ (s.visit a).1) (s.visit a).2 := by
  have visited := surveyed.coherent.visited a
  have coherent : (s.visit a).2.compiler.Coherent regions debugger budget :=
    surveyed.coherent.grow (visit_grows (surveyed.coherent.made a))
  have here : Called regions entries a := surveyed.called a (.inr List.mem_cons_self)
  generalize (s.visit a).1 = edges, (s.visit a).2 = s' at visited coherent ⊢
  have reported (b : UInt16) : b ∈ s'.report.addresses ↔ b = a ∨ b ∈ s.report.addresses :=
    visited.addresses.mem_iff.trans List.mem_cons
  have settled {b : UInt16} (known : b ∈ s.report.addresses ∨ b ∈ a :: pending) :
      b ∈ s'.report.addresses ∨ b ∈ pending ++ edges := by
    rw [reported, List.mem_append]
    rw [List.mem_cons] at known
    tauto
  constructor
  case coherent => exact coherent
  case seen =>
    intro b
    rw [reported, eq_comm, visited.seen]
    simp [Std.TreeSet.mem_insert, surveyed.seen]
  case distinct =>
    rw [visited.addresses.nodup_iff, List.nodup_cons, ← surveyed.seen]
    exact ⟨new, surveyed.distinct⟩
  case called =>
    intro b known
    rw [reported, List.mem_append, visited.edges] at known
    rcases known with (rfl | old) | waiting | edge
    · exact here
    · exact surveyed.called b (.inl old)
    · exact surveyed.called b (.inr (List.mem_cons_of_mem a waiting))
    · exact here.onward edge
  case entered =>
    intro b member
    exact settled (surveyed.entered b member)
  case closed =>
    intro b known d edge
    rcases (reported b).mp known with rfl | old
    · exact .inr (List.mem_append_right _ ((visited.edges d).mpr edge))
    · exact settled (surveyed.closed b old d edge)
  case compiled =>
    intro b member
    rcases (visited.compiled b).mp member with old | ⟨rfl, found⟩
    · exact surveyed.compiled b old
    · exact found
  case failed =>
    intro b e member
    rcases visited.failed b e member with old | ⟨rfl, unknown⟩
    · exact surveyed.failed b e old
    · exact unknown
  case kept =>
    intro b u
    rw [visited.kept, surveyed.kept, visited.compiled, or_and_right, or_assoc]
    have known : b = a ∧ IsCompiled regions a u ↔
        (b = a ∧ ∃ r, Routine.discover regions a = .ok r) ∧ IsCompiled regions b u := by
      constructor
      · rintro ⟨rfl, compiled⟩
        exact ⟨⟨rfl, compiled.imp fun _ => And.left⟩, compiled⟩
      · rintro ⟨⟨rfl, _⟩, compiled⟩
        exact ⟨rfl, compiled⟩
    rw [known]

/-- With nothing pending the search has met all that is called. -/
theorem reported (surveyed : Surveyed regions debugger budget entries c [] s) (a : UInt16) :
    a ∈ s.report.addresses ↔ Called regions entries a := by
  constructor
  · exact fun member => surveyed.called a (.inl member)
  · intro called
    induction called with
    | entry member => simpa using surveyed.entered _ member
    | onward _ edge ih => simpa using surveyed.closed _ ih _ edge

end Surveyed

variable {entries pending : List UInt16} {s s' t t' : Advance}

theorem Tour.surveyed (tour : Tour pending s s')
    (surveyed : Surveyed regions debugger budget entries c pending s) :
    Surveyed regions debugger budget entries c [] s' := by
  induction tour with
  | done => exact surveyed
  | again met _ ih => exact ih (surveyed.again met)
  | visit new _ ih => exact ih (surveyed.visit new)

/-- The search does not run out of turns, since each spends an address. -/
theorem explore_tours (fuel : Nat)
    (surveyed : Surveyed regions debugger budget entries c pending s)
    (enough : 65536 ≤ fuel + s.report.addresses.length) :
    Tour pending s (explore fuel pending s) := by
  fun_induction explore fuel pending s with
  | case1 fuel s => exact .done
  | case2 fuel a pending s met ih => exact .again met (ih (surveyed.again met) enough)
  | case3 a pending s new =>
    -- there would be more addresses than there are words
    have distinct : (a :: s.report.addresses).Nodup :=
      List.nodup_cons.mpr ⟨mt (surveyed.seen a).mpr new, surveyed.distinct⟩
    have few := length_le_of_distinct distinct
    rw [List.length_cons] at few
    omega
  | case4 a pending s new fuel edges s' visited ih =>
    have next := surveyed.visit new
    have longer := (surveyed.coherent.visited a).addresses.length_eq
    simp only [visited, List.length_cons] at next longer
    refine .visit new ?_
    rw [visited]
    exact ih next (by omega)

/-- Two searches of the same code that have come equally far. Their compilers need not
have the same units. -/
structure Alike (regions : List CodeRegion) (s t : Advance) : Prop where
  left : ∃ debugger budget, s.compiler.Coherent regions debugger budget
  right : ∃ debugger budget, t.compiler.Coherent regions debugger budget
  seen : s.seen = t.seen
  report : s.report = t.report

theorem Alike.visit (alike : Alike regions s t) (a : UInt16) :
    (s.visit a).1 = (t.visit a).1 ∧ Alike regions (s.visit a).2 (t.visit a).2 := by
  obtain ⟨⟨debugger, budget, left⟩, ⟨debugger', budget', right⟩, seen, report⟩ := alike
  rcases left.visit a with ⟨cause, unknown, visited⟩ | ⟨u, c, compiled, kept, _, visited⟩
  · rcases right.visit a with ⟨cause', unknown', visited'⟩ | ⟨_, _, ⟨_, found, _⟩, _⟩
    · cases unknown.symm.trans unknown'
      rw [visited, visited', seen, report]
      exact ⟨rfl, ⟨_, _, left.log _⟩, ⟨_, _, right.log _⟩, rfl, rfl⟩
    · cases unknown.symm.trans found
  · rcases right.visit a with ⟨_, unknown, _⟩ | ⟨u', c', compiled', kept', _, visited'⟩
    · obtain ⟨_, found, _⟩ := compiled
      cases unknown.symm.trans found
    · cases compiled.unique compiled'
      rw [visited, visited', seen, report]
      exact ⟨rfl, ⟨_, _, kept⟩, ⟨_, _, kept'⟩, rfl, rfl⟩

theorem Tour.alike (tour : Tour pending s s') (tour' : Tour pending t t')
    (alike : Alike regions s t) : Alike regions s' t' := by
  -- which turn is taken depends on what was seen alone, so both take the same
  induction tour generalizing t with
  | done =>
    cases tour'
    exact alike
  | again met _ ih =>
    rw [alike.seen] at met
    cases tour' with
    | again _ tour' => exact ih tour' alike
    | visit new => exact absurd met new
  | @visit s pending s' a new _ ih =>
    rw [alike.seen] at new
    cases tour' with
    | again met => exact absurd met new
    | visit _ tour' =>
      obtain ⟨edges, alike'⟩ := alike.visit a
      rw [← edges] at tour'
      exact ih tour' alike'

end Advance

/-- Compiling ahead from the entries has given this report and left this compiler. `compiled`
speaks of the reported addresses only: another one may have had its unit from before. -/
structure CompiledAhead (regions : List CodeRegion) (entries : List UInt16) (c : Compiler)
    (report : Report) (after : Compiler) : Prop where
  distinct : report.addresses.Nodup
  reported : ∀ a, a ∈ report.addresses ↔ Called regions entries a
  compiled : ∀ a ∈ report.addresses, (a ∈ report.compiled ↔
    (∃ r, Routine.discover regions a = .ok r) ∧ after.isCompiled a = true)
  failed : ∀ a e, (a, e) ∈ report.failed →
    ∃ cause, Routine.discover regions a = .error cause ∧ e = .decode a cause
  kept : ∀ (a : UInt16) u, after.units[a]? = some u ↔
    c.units[a]? = some u ∨ a ∈ report.compiled ∧ IsCompiled regions a u

variable {entries : List UInt16} {report : Report} {after : Compiler}

theorem Advance.Surveyed.compiledAhead {s : Advance}
    (surveyed : s.Surveyed regions debugger budget entries c []) :
    CompiledAhead regions entries c s.report s.compiler where
  distinct := surveyed.distinct
  reported := surveyed.reported
  compiled a member := by
    constructor
    · intro compiled
      obtain ⟨r, found⟩ := surveyed.compiled a compiled
      obtain ⟨u, generated, _⟩ := (Routine.discover_exact found).linked
      have kept := (surveyed.kept a u).mpr (.inr ⟨compiled, r, found, generated⟩)
      exact ⟨⟨r, found⟩, isCompiled_of_some kept⟩
    · rintro ⟨⟨r, found⟩, _⟩
      exact Report.compiled_of_discovered member surveyed.failed found
  failed := surveyed.failed
  kept := surveyed.kept

namespace CompiledAhead

theorem mem_compiled (ahead : CompiledAhead regions entries c report after) :
    a ∈ report.compiled ↔
      Called regions entries a ∧ ∃ r, Routine.discover regions a = .ok r := by
  rw [← ahead.reported]
  constructor
  · intro compiled
    have member := Report.mem_addresses.mpr (.inl compiled)
    exact ⟨member, ((ahead.compiled a member).mp compiled).1⟩
  · rintro ⟨member, r, found⟩
    exact Report.compiled_of_discovered member ahead.failed found

theorem mem_failed (ahead : CompiledAhead regions entries c report after) :
    (a, e) ∈ report.failed ↔ Called regions entries a ∧
      ∃ cause, Routine.discover regions a = .error cause ∧ e = .decode a cause := by
  rw [← ahead.reported]
  constructor
  · intro failed
    exact ⟨Report.mem_addresses.mpr (.inr ⟨e, failed⟩), ahead.failed a e failed⟩
  · rintro ⟨member, cause, unknown, rfl⟩
    rcases Report.mem_addresses.mp member with compiled | ⟨e, failed⟩
    · obtain ⟨⟨_, found⟩, _⟩ := (ahead.compiled a member).mp compiled
      cases unknown.symm.trans found
    · obtain ⟨_, unknown', rfl⟩ := ahead.failed a e failed
      cases unknown.symm.trans unknown'
      exact failed

end CompiledAhead

namespace Driven

theorem surveyed (driven : Driven regions {} c) (entries : List UInt16) :
    Advance.Surveyed regions c.debugger c.budget entries c entries { compiler := c } :=
  .start driven.coherent

/-- The search behind compiling ahead comes to its end. -/
theorem tour (driven : Driven regions {} c) (entries : List UInt16) :
    Advance.Tour entries { compiler := c } (Advance.explore 65536 entries { compiler := c }) :=
  Advance.explore_tours 65536 (driven.surveyed entries) (Nat.le_add_right _ _)

theorem compiledAhead (driven : Driven regions {} c) (entries : List UInt16) :
    CompiledAhead regions entries c (c.precompile entries).1 (c.precompile entries).2 :=
  ((driven.tour entries).surveyed (driven.surveyed entries)).compiledAhead

/-- The report does not depend on the units that were kept before. -/
theorem report_eq (driven : Driven regions {} c) (driven' : Driven regions {} c')
    (entries : List UInt16) : (c.precompile entries).1 = (c'.precompile entries).1 := by
  have alike : Advance.Alike regions { compiler := c } { compiler := c' } :=
    ⟨⟨_, _, driven.coherent⟩, ⟨_, _, driven'.coherent⟩, rfl, rfl⟩
  exact ((driven.tour entries).alike (driven'.tour entries) alike).report

theorem compilations_eq (driven : Driven regions {} c) :
    c.compilations = c.units.size := by
  obtain ⟨_, _, _, grows⟩ := driven.grows
  exact grows.counted rfl

/-- A second time, all that could be compiled is kept already. -/
theorem precompile_units (driven : Driven regions {} c) (entries : List UInt16) (a : UInt16) :
    ((c.precompile entries).2.precompile entries).2.units[a]? =
      (c.precompile entries).2.units[a]? := by
  have after := driven.precompile entries
  apply Option.ext
  intro u
  rw [(after.compiledAhead entries).kept, after.report_eq driven entries, or_iff_left_iff_imp]
  exact fun compiled => ((driven.compiledAhead entries).kept a u).mpr (.inr compiled)

end Driven

/-- Compiling ahead takes up the least set of addresses that has the entries and is closed
under calls, each once. It keeps the units of those that can be discovered and nothing else.
The set depends on the entries as a set alone, and a second time nothing is compiled. -/
theorem precompile_call_closure (driven : Driven regions {} c) (entries : List UInt16) :
    let report := (c.precompile entries).1
    let after := (c.precompile entries).2
    (∃ s, Advance.Tour entries { compiler := c } s ∧ s.report = report ∧ s.compiler = after) ∧
    CompiledAhead regions entries c report after ∧
    (∀ c' entries', Driven regions {} c' → (∀ a, a ∈ entries' ↔ a ∈ entries) →
      (∀ a, a ∈ (c'.precompile entries').1.compiled ↔ a ∈ report.compiled) ∧
      ∀ a e, (a, e) ∈ (c'.precompile entries').1.failed ↔ (a, e) ∈ report.failed) ∧
    (after.precompile entries).1 = report ∧
    (after.precompile entries).2.compilations = after.compilations ∧
    ∀ a, (after.precompile entries).2.get? a = after.get? a := by
  intro report after
  have ahead : CompiledAhead regions entries c report after := driven.compiledAhead entries
  have driven' : Driven regions {} after := driven.precompile entries
  have units := driven.precompile_units entries
  refine ⟨⟨_, driven.tour entries, rfl, rfl⟩, ahead, ?_, driven'.report_eq driven entries, ?_,
    units⟩
  · intro c' entries' other same
    have ahead' := other.compiledAhead entries'
    have called (a : UInt16) : Called regions entries' a ↔ Called regions entries a :=
      ⟨fun known => known.mono fun b => (same b).mp, fun known => known.mono fun b => (same b).mpr⟩
    constructor
    · intro a
      rw [ahead'.mem_compiled, ahead.mem_compiled, called]
    · intro a e
      rw [ahead'.mem_failed, ahead.mem_failed, called]
  · rw [(driven'.precompile entries).compilations_eq, driven'.compilations_eq]
    exact (Std.TreeMap.Equiv.of_forall_constGet?_eq units).size_eq

/-- Exploring for this many turns, if that is enough. -/
def Advance.within : Nat → List UInt16 → Advance → Option Advance
  | _, [], s => some s
  | 0, _ :: _, _ => none
  | n + 1, a :: pending, s =>
    if s.seen.contains a then within n pending s
    else within n (pending ++ (s.visit a).1) (s.visit a).2

theorem Advance.explore_of_within {s s' : Advance} (enough : n ≤ fuel)
    (found : s.within n pending = some s') : s.explore fuel pending = s' := by
  induction n generalizing fuel pending s with
  | zero =>
    cases pending with
    | nil =>
      cases found
      rw [explore]
    | cons a pending => cases found
  | succ n ih =>
    cases pending with
    | nil =>
      cases found
      rw [explore]
    | cons a pending =>
      obtain ⟨fuel, rfl⟩ : ∃ k, fuel = k + 1 := ⟨fuel - 1, by omega⟩
      rw [within] at found
      rw [explore]
      split at found
      next seen =>
        rw [if_pos seen]
        exact ih (by omega) found
      next fresh =>
        rw [if_neg fresh]
        exact ih (by omega) found

/-- What compiling ahead answers can be read off a few turns. -/
theorem precompile_view {c : Compiler} {entries : List UInt16} (view : Report × Compiler → α)
    (n : Nat) (enough : n ≤ 65536)
    (found : (Advance.within n entries { compiler := c }).map
      (fun s => view (s.report, s.compiler)) = some x) :
    view (c.precompile entries) = x := by
  obtain ⟨s, ended, rfl⟩ := Option.map_eq_some_iff.mp found
  rw [precompile, Advance.explore_of_within enough ended]

/-- A call to the instruction behind it, which is a software interrupt. -/
def calling : Compiler where
  regions := [⟨0x8000, #[0x20, 0x03, 0x80, 0x00]⟩]

/-- What is called from one entry that is given twice. The point to resume at lies outside
the code. -/
theorem precompile_call_closure_calling :
    Driven calling.regions {} calling ∧
    (∀ a, Called calling.regions [0x8000, 0x8000] a ↔ a ∈ [0x8000, 0x8003, 0x8005]) ∧
    (calling.precompile [0x8000, 0x8000]).1.compiled = #[0x8000, 0x8003] ∧
    ((calling.precompile [0x8000, 0x8000]).2.precompile [0x8000, 0x8000]).2.compilations = 2 := by
  have driven : Driven calling.regions {} calling := .fresh none _ {}
  have compiled : (calling.precompile [0x8000, 0x8000]).1.compiled = #[0x8000, 0x8003] :=
    precompile_view (·.1.compiled) 8 (by decide) (by decide +kernel)
  have addresses : (calling.precompile [0x8000, 0x8000]).1.addresses =
      [0x8000, 0x8003, 0x8005] :=
    precompile_view (·.1.addresses) 8 (by decide) (by decide +kernel)
  have compilations : (calling.precompile [0x8000, 0x8000]).2.compilations = 2 :=
    precompile_view (·.2.compilations) 8 (by decide) (by decide +kernel)
  obtain ⟨_, ahead, _, _, again, _⟩ := precompile_call_closure driven [0x8000, 0x8000]
  refine ⟨driven, ?_, compiled, again.trans compilations⟩
  intro a
  rw [← ahead.reported, addresses]

end Compiler
end NesRoutine

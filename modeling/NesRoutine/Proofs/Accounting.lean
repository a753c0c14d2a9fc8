import NesRoutine.Dispatcher
import NesRoutine.Proofs.Frame
import NesRoutine.Proofs.Persistence

/-! The books of a compiler. Units are only ever added, each under its own address and
each counted once; and the counters of hits and of invocations stand at the numbers of the
calls that they are to count, whatever a compiler is used for. -/
namespace NesRoutine

namespace Compiler

/-- A call of the compiler, and how it went. -/
inductive Call where
  /-- The unit for an address is asked for; it is kept already, or not. -/
  | lookup (a : UInt16) (found : Bool)
  /-- The unit for an address is to be run; there is one, or none can be made. -/
  | run (a : UInt16) (obtained : Bool)
  deriving DecidableEq, Repr

def Call.isHit : Call → Bool
  | lookup _ found => found
  | run .. => false

def Call.isInvocation : Call → Bool
  | lookup .. => false
  | run _ obtained => obtained

/-- The call that asks for the unit for an address. -/
def lookup (c : Compiler) (a : UInt16) : Call := .lookup a (c.isCompiled a)

/-- Running a unit is asking for it first. -/
def runCalls (c : Compiler) (a : UInt16) : List Call :=
  [c.lookup a, .run a (c.getOrCompile a).1.toBool]

/-- The calls that compiling ahead makes: one for each address when it is first met. -/
def Advance.lookups : Nat → List UInt16 → Advance → List Call
  | _, [], _ => []
  | fuel, address :: pending, s =>
    if s.seen.contains address then
      lookups fuel pending s
    else
      match fuel with
      | 0 => []
      | fuel + 1 =>
        let (edges, after) := s.visit address
        s.compiler.lookup address :: lookups fuel (pending ++ edges) after
  termination_by fuel pending => (fuel, pending.length)

/-- The counters have moved by as much as these calls account for. -/
structure Accounts (c : Compiler) (calls : List Call) (c' : Compiler) : Prop where
  hits : c'.hits = c.hits + calls.countP Call.isHit
  invocations : c'.invocations = c.invocations + calls.countP Call.isInvocation

/-- The units and the counters are the same; only the journal may differ. -/
structure SameBooks (c c' : Compiler) : Prop where
  units : c'.units = c.units
  compilations : c'.compilations = c.compilations
  hits : c'.hits = c.hits
  invocations : c'.invocations = c.invocations

section Operations

variable {New : UInt16 → CodeUnit → Prop} {c c' c'' : Compiler} {calls more : List Call}
  {a : UInt16} {u : CodeUnit}

namespace Accounts

theorem refl : Accounts c [] c := ⟨rfl, rfl⟩

theorem trans (first : Accounts c calls c') (rest : Accounts c' more c'') :
    Accounts c (calls ++ more) c'' := by
  constructor
  · rw [rest.hits, first.hits, List.countP_append, Nat.add_assoc]
  · rw [rest.invocations, first.invocations, List.countP_append, Nat.add_assoc]

theorem log (accounts : Accounts c calls c') (r : LogRecord) : Accounts c calls (c'.log r) :=
  ⟨accounts.hits, accounts.invocations⟩

theorem noteEntered (accounts : Accounts c calls c') (a : UInt16) (h : Hardware) :
    Accounts c calls (c'.noteEntered a h) := by
  unfold Compiler.noteEntered
  split
  · exact ⟨accounts.hits, accounts.invocations⟩
  · exact accounts.log _

theorem noteLeft (accounts : Accounts c calls c') (a : UInt16) (notes : List Note)
    (h : Hardware) : Accounts c calls (c'.noteLeft a notes h) := by
  unfold Compiler.noteLeft
  split
  · exact ⟨accounts.hits, accounts.invocations⟩
  · exact accounts.log _

end Accounts

theorem getOrCompile_accounts (c : Compiler) (a : UInt16) :
    Accounts c [c.lookup a] (c.getOrCompile a).2 := by
  rcases c.getOrCompile_cases a with
    ⟨u, found, hit⟩ | ⟨absent, ⟨u, journal, _, compiled⟩ | ⟨e, journal, failed⟩⟩
  · rw [hit, lookup, isCompiled_of_some found]
    exact ⟨rfl, rfl⟩
  · rw [compiled, lookup, isCompiled_of_none absent]
    exact ⟨rfl, rfl⟩
  · rw [failed, lookup, isCompiled_of_none absent]
    exact ⟨rfl, rfl⟩

theorem run_accounts (c : Compiler) (a : UInt16) (h : Hardware) :
    Accounts c (c.runCalls a) (c.run a h).2.1 := by
  have asked := c.getOrCompile_accounts a
  rw [runCalls, run]
  rcases compiled : c.getOrCompile a with ⟨result, after⟩
  rw [compiled] at asked
  cases result with
  | error e =>
    have uncounted : Accounts after [.run a false] after := ⟨rfl, rfl⟩
    exact asked.trans uncounted
  | ok u =>
    have counted : Accounts after [.run a true]
        { after with invocations := after.invocations + 1 } := ⟨rfl, rfl⟩
    exact ((asked.trans counted).noteEntered a h).noteLeft a _ _

theorem visit_accounts (s : Advance) (a : UInt16) :
    Accounts s.compiler [s.compiler.lookup a] (s.visit a).2.compiler := by
  have asked := s.compiler.getOrCompile_accounts a
  rw [Advance.visit]
  rcases compiled : s.compiler.getOrCompile a with ⟨result, after⟩
  rw [compiled] at asked
  cases result with
  | error e => exact asked.log _
  | ok u => exact asked

theorem explore_accounts (fuel : Nat) (pending : List UInt16) (s : Advance) :
    Accounts s.compiler (Advance.lookups fuel pending s)
      (Advance.explore fuel pending s).compiler := by
  fun_induction Advance.explore fuel pending s with
  | case1 =>
    rw [Advance.lookups]
    exact .refl
  | case2 fuel a pending s seen ih =>
    rw [Advance.lookups.eq_def]
    simp only [seen]
    exact ih
  | case3 a pending s unseen =>
    rw [Advance.lookups.eq_def]
    simp only [unseen]
    exact .refl
  | case4 a pending s unseen fuel edges after visited ih =>
    have first := visit_accounts s a
    rw [visited] at first
    rw [Advance.lookups.eq_def]
    simp only [unseen, visited]
    exact first.trans ih

theorem addUnits_accounts (added : Nat) (vs : List SavedUnit) :
    Accounts c [] (c.addUnits added vs).2 := by
  induction vs generalizing c added with
  | nil => exact .refl
  | cons v vs ih =>
    rw [addUnits]
    split
    · exact ih added
    · rcases c.generate_cases v.entry v.instructions with ⟨u, _, _, generated⟩ | ⟨e, failed⟩
      · simp only [generated]
        have rest := ih (c := { c with
          units := c.units.insert v.entry u, compilations := c.compilations + 1 }) (added + 1)
        exact ⟨rest.hits, rest.invocations⟩
      · simp only [failed]
        exact .refl

theorem load_accounts (c : Compiler) (bytes : List UInt8) : Accounts c [] (c.load bytes).2 := by
  rw [load]
  split
  · exact .refl
  next artifact _ =>
    split
    · exact .refl
    · have accounts := c.addUnits_accounts 0 artifact.units
      rcases adding : c.addUnits 0 artifact.units with ⟨result, after⟩
      rw [adding] at accounts
      cases result with
      | error e => exact accounts
      | ok added => exact accounts.log _

theorem save_accounts (c : Compiler) (room : Option Nat) : Accounts c [] (c.save room).2 := by
  simp only [save]
  split
  · exact .refl
  · split
    · exact .refl
    · exact Accounts.refl.log _

/-- An address for which no unit can be made leaves no trace in the books. -/
theorem getOrCompile_failed (failed : (c.getOrCompile a).1 = .error e) :
    SameBooks c (c.getOrCompile a).2 := by
  rcases c.getOrCompile_cases a with
    ⟨u, _, hit⟩ | ⟨_, ⟨u, journal, _, compiled⟩ | ⟨e, journal, unmade⟩⟩
  · rw [hit] at failed
    cases failed
  · rw [compiled] at failed
    cases failed
  · rw [unmade]
    exact ⟨rfl, rfl, rfl, rfl⟩

theorem run_failed (failed : (c.getOrCompile a).1 = .error e) (h : Hardware) :
    c.run a h = (.error e, (c.getOrCompile a).2, h) := by
  rw [run]
  rcases compiled : c.getOrCompile a with ⟨result, after⟩
  rw [compiled] at failed
  cases failed
  rfl

end Operations
end Compiler

namespace Dispatcher

open Compiler

/-- What a dispatcher and its compiler can be used for. -/
inductive Use where
  | getOrCompile (a : UInt16)
  | run (a : UInt16) (h : Hardware)
  | dispatch (a : UInt16) (h : Hardware)
  | precompile (entries : List UInt16)
  | save (room : Option Nat)
  | load (bytes : List UInt8)

def Use.apply (d : Dispatcher) : Use → Dispatcher
  | getOrCompile a => { d with compiler := (d.compiler.getOrCompile a).2 }
  | run a h => { d with compiler := (d.compiler.run a h).2.1 }
  | dispatch a h => (d.dispatch a h).2.1
  | precompile entries => { d with compiler := (d.compiler.precompile entries).2 }
  | save room => { d with compiler := (d.compiler.save room).2 }
  | load bytes => { d with compiler := (d.compiler.load bytes).2 }

/-- The calls of the compiler that a use makes. Loading adds units without a call. -/
def Use.calls (d : Dispatcher) : Use → List Call
  | getOrCompile a => [d.compiler.lookup a]
  | run a _ => d.compiler.runCalls a
  | dispatch a _ => if d.isAbsent a then [] else d.compiler.runCalls a
  | precompile entries => Advance.lookups 65536 entries { compiler := d.compiler }
  | save _ | load _ => []

def after (d : Dispatcher) (uses : List Use) : Dispatcher := uses.foldl Use.apply d

/-- The calls that are made in the course of some uses. -/
def callsOf (d : Dispatcher) : List Use → List Call
  | [] => []
  | use :: uses => use.calls d ++ (use.apply d).callsOf uses

theorem Use.apply_accounts (d : Dispatcher) (use : Use) :
    Accounts d.compiler (use.calls d) (use.apply d).compiler := by
  cases use with
  | getOrCompile a => exact d.compiler.getOrCompile_accounts a
  | run a h => exact d.compiler.run_accounts a h
  | dispatch a h =>
    have ran := d.compiler.run_accounts a h
    rcases d.dispatch_compiler a h with ⟨absent, same⟩ | ⟨present, same | ⟨r, same⟩⟩
    · rw [calls, apply, same, if_pos absent]
      exact .refl
    · rw [calls, apply, same, present]
      exact ran
    · rw [calls, apply, same, present]
      exact ran.log r
  | precompile entries => exact explore_accounts 65536 entries { compiler := d.compiler }
  | save room => exact d.compiler.save_accounts room
  | load bytes => exact d.compiler.load_accounts bytes

theorem Use.apply_grows (d : Dispatcher) (use : Use) :
    Grows (fun _ _ => True) d.compiler (use.apply d).compiler := by
  cases use with
  | getOrCompile a => exact getOrCompile_grows fun _ _ => trivial
  | run a h => exact run_grows (fun _ _ => trivial) h
  | dispatch a h =>
    have ran : Grows (fun _ _ => True) d.compiler (d.compiler.run a h).2.1 :=
      run_grows (fun _ _ => trivial) h
    rcases d.dispatch_compiler a h with ⟨_, same⟩ | ⟨_, same | ⟨r, same⟩⟩
    · rw [apply, same]
      exact .refl
    · rw [apply, same]
      exact ran
    · rw [apply, same]
      exact ran.log r
  | precompile entries => exact precompile_grows entries fun _ _ _ => trivial
  | save room => exact save_grows room
  | load bytes => exact load_grows bytes fun _ _ _ _ _ _ _ => trivial

section Uses

variable {regions : List CodeRegion} {customizer : Customizer} {debugger : Option Debugger}
  {budget : Nat} {d : Dispatcher}

theorem Use.apply_used (used : d.compiler.Reachable regions customizer debugger budget)
    (use : Use) : (use.apply d).compiler.Reachable regions customizer debugger budget := by
  cases use with
  | getOrCompile a => exact used.getOrCompile a
  | run a h => exact used.run a h
  | dispatch a h => exact dispatch_used used a h
  | precompile entries => exact used.precompile entries
  | save room => exact used.save room
  | load bytes => exact used.load bytes

theorem after_accounts (d : Dispatcher) (uses : List Use) :
    Accounts d.compiler (d.callsOf uses) (d.after uses).compiler := by
  induction uses generalizing d with
  | nil => exact .refl
  | cons use uses ih => exact (use.apply_accounts d).trans (ih (use.apply d))

theorem after_grows (d : Dispatcher) (uses : List Use) :
    Grows (fun _ _ => True) d.compiler (d.after uses).compiler := by
  induction uses generalizing d with
  | nil => exact .refl
  | cons use uses ih => exact (use.apply_grows d).trans (ih (use.apply d))

theorem after_used (used : d.compiler.Reachable regions customizer debugger budget)
    (uses : List Use) :
    (d.after uses).compiler.Reachable regions customizer debugger budget := by
  induction uses generalizing d with
  | nil => exact used
  | cons use uses ih => exact ih (use.apply_used used)

theorem after_append (d : Dispatcher) (uses more : List Use) :
    d.after (uses ++ more) = (d.after uses).after more := List.foldl_append

theorem callsOf_append (d : Dispatcher) (uses more : List Use) :
    d.callsOf (uses ++ more) = d.callsOf uses ++ (d.after uses).callsOf more := by
  induction uses generalizing d with
  | nil => rfl
  | cons use uses ih =>
    rw [List.cons_append, callsOf, callsOf, ih, List.append_assoc]
    rfl

end Uses

/-- Whatever a new dispatcher and its compiler are used for: a unit is kept under its own
address and for good, an address for which no unit can be made changes nothing, and each
counter stands at the number of what it counts. -/
theorem books_balance (regions : List CodeRegion) (customizer : Customizer)
    (debugger : Option Debugger) (budget : Nat) (journal : Journal) (policy : FailurePolicy)
    (uses : List Use) :
    let fresh : Dispatcher :=
      { compiler := { regions, customizer, debugger, budget, journal }, policy }
    let c := (fresh.after uses).compiler
    (∀ (a : UInt16) (u : CodeUnit), c.units[a]? = some u → u.entry = a ∧
      ∀ more, (fresh.after (uses ++ more)).compiler.units[a]? = some u) ∧
    (∀ a e, (c.getOrCompile a).1 = .error e → SameBooks c (c.getOrCompile a).2 ∧
      ∀ h, (c.run a h).1 = .error e ∧ SameBooks c (c.run a h).2.1 ∧ (c.run a h).2.2 = h) ∧
    c.compilations = c.units.size ∧
    c.hits = (fresh.callsOf uses).countP Call.isHit ∧
    c.invocations = (fresh.callsOf uses).countP Call.isInvocation := by
  intro fresh c
  have accounts := fresh.after_accounts uses
  have used : c.Reachable regions customizer debugger budget :=
    after_used (d := fresh) (.fresh journal) uses
  refine ⟨?_, ?_, ?_, ?_, ?_⟩
  · intro a u found
    refine ⟨(generate_regenerated (c := fresh.compiler) (used.regenerates found)).1, ?_⟩
    intro more
    rw [after_append]
    exact ((fresh.after uses).after_grows more).kept found
  · intro a e failed
    have same := getOrCompile_failed failed
    refine ⟨same, ?_⟩
    intro h
    rw [run_failed failed h]
    exact ⟨rfl, same, rfl⟩
  · exact (fresh.after_grows uses).counted rfl
  · exact accounts.hits.trans (Nat.zero_add _)
  · exact accounts.invocations.trans (Nat.zero_add _)

/-- A dispatcher over one return. -/
def overReturn : Dispatcher where
  compiler := {
    regions := [⟨0x8000, #[0x60]⟩], customizer := {}, debugger := none, budget := 8, journal := {} }
  policy := .markAbsent

/-- The return is asked for twice, after an address at which there is nothing. -/
def asked : List Use := [.getOrCompile 0x9000, .getOrCompile 0x8000, .getOrCompile 0x8000]

/-- One unit is made, found once more, and found again when it is run. -/
theorem books_balance_asked : ∃ u e,
    let c := (overReturn.after asked).compiler
    c.units[(0x8000 : UInt16)]? = some u ∧ (c.getOrCompile 0x9000).1 = .error e ∧
      u.entry = 0x8000 ∧ SameBooks c (c.getOrCompile 0x9000).2 ∧ c.compilations = 1 ∧
      c.units.size = 1 ∧ c.hits = 1 ∧ c.invocations = 0 ∧
      ∀ h, let ran := (overReturn.after (asked ++ [.run 0x8000 h])).compiler
        ran.units[(0x8000 : UInt16)]? = some u ∧ ran.hits = 2 ∧ ran.invocations = 1 := by
  have one : (overReturn.after asked).compiler.compilations = 1 := by decide +kernel
  have cached : ((overReturn.after asked).compiler.units[(0x8000 : UInt16)]?).isSome = true := by
    decide +kernel
  have unmade : ((overReturn.after asked).compiler.getOrCompile 0x9000).1.toBool = false := by
    decide +kernel
  have failed : ∃ e, ((overReturn.after asked).compiler.getOrCompile 0x9000).1 = .error e := by
    generalize ((overReturn.after asked).compiler.getOrCompile 0x9000).1 = result at unmade ⊢
    cases result with
    | ok v => cases unmade
    | error e => exact ⟨e, rfl⟩
  obtain ⟨u, found⟩ := Option.isSome_iff_exists.mp cached
  obtain ⟨e, failed⟩ := failed
  have books := books_balance [⟨0x8000, #[0x60]⟩] {} none 8 {} .markAbsent
  -- Comparing the two dispatchers any later would evaluate what they are used for.
  simp only [← overReturn.eq_def] at books
  obtain ⟨kept, failing, compilations, hits, invocations⟩ := books asked
  obtain ⟨entry, forever⟩ := kept 0x8000 u found
  refine ⟨u, e, found, failed, entry, (failing 0x9000 e failed).1, one,
    compilations.symm.trans one, hits.trans (by decide +kernel),
    invocations.trans (by decide +kernel), ?_⟩
  intro h
  obtain ⟨_, _, _, hits, invocations⟩ := books (asked ++ [.run 0x8000 h])
  -- What is run last makes its calls before the hardware matters.
  rw [callsOf_append, callsOf, callsOf, Use.calls, List.append_nil] at hits invocations
  exact ⟨forever [.run 0x8000 h], hits.trans (by decide +kernel),
    invocations.trans (by decide +kernel)⟩

end Dispatcher
end NesRoutine

import NesRoutine.Dispatcher
import NesRoutine.Proofs.Coherence

/-! Neither the units that are kept nor the addresses that are marked absent can
be told from the steps of the processor. Two dispatchers that differ only in these
take the same steps: a unit that is kept is the one that would be made, and an
address is marked absent only where nothing can be decoded. -/
namespace NesRoutine.Dispatcher

/-- The dispatchers that some use of them leads to, over the given regions and
without a customizer. -/
inductive Reachable (regions : List CodeRegion) :
    FailurePolicy → Option Debugger → Nat → Dispatcher → Prop where
  | fresh (onFailure : FailurePolicy) (debugger : Option Debugger) (budget : Nat)
      (journal : Journal) : Reachable regions onFailure debugger budget
        { compiler := { regions, debugger, budget, journal }, policy := onFailure }
  | run (reached : Reachable regions onFailure debugger budget d) (a : UInt16) (h : Hardware) :
      Reachable regions onFailure debugger budget { d with compiler := (d.compiler.run a h).2.1 }
  /-- The unit, if there is one, comes to an end. -/
  | dispatch (reached : Reachable regions onFailure debugger budget d) (a : UInt16) (h : Hardware)
      (ends : (d.compiler.run a h).1 ≠ .error (.exhausted a)) :
      Reachable regions onFailure debugger budget (d.dispatch a h).2.1
  | getOrCompile (reached : Reachable regions onFailure debugger budget d) (a : UInt16) :
      Reachable regions onFailure debugger budget
        { d with compiler := (d.compiler.getOrCompile a).2 }
  | precompile (reached : Reachable regions onFailure debugger budget d) (entries : List UInt16) :
      Reachable regions onFailure debugger budget
        { d with compiler := (d.compiler.precompile entries).2 }
  | save (reached : Reachable regions onFailure debugger budget d) (room : Option Nat) :
      Reachable regions onFailure debugger budget { d with compiler := (d.compiler.save room).2 }
  /-- What is loaded was saved by a compiler that was reached over the same regions. -/
  | load (reached : Reachable regions onFailure debugger budget d)
      (saver : Reachable regions onFailure' debugger' budget' other)
      (saved : (other.compiler.save room).1 = .ok (count, bytes)) :
      Reachable regions onFailure debugger budget { d with compiler := (d.compiler.load bytes).2 }

variable {regions : List CodeRegion} {onFailure : FailurePolicy} {debugger : Option Debugger}
  {budget : Nat} {d d' : Dispatcher}

theorem isAbsent_insert (a b : UInt16) :
    isAbsent { d with absent := d.absent.insert a } b = (a == b || d.isAbsent b) := by
  simp [isAbsent, Std.TreeSet.contains_insert, Bool.beq_eq_decide_eq]

/-- An address is marked absent only where nothing can be decoded, and never when
errors are passed on. -/
structure Sound (regions : List CodeRegion) (onFailure : FailurePolicy) (debugger : Option Debugger)
    (budget : Nat) (d : Dispatcher) : Prop where
  coherent : d.compiler.Coherent regions debugger budget
  policy_eq : d.policy = onFailure
  absent : ∀ a, d.isAbsent a = true →
    onFailure = .markAbsent ∧ ∃ cause, Routine.discover regions a = .error cause

theorem Sound.compiler (sound : d.Sound regions onFailure debugger budget)
    (coherent : c.Coherent regions debugger budget) :
    Sound regions onFailure debugger budget { d with compiler := c } :=
  ⟨coherent, sound.policy_eq, sound.absent⟩

theorem Sound.mark (sound : d.Sound regions onFailure debugger budget)
    (marks : onFailure = .markAbsent) (unknown : Routine.discover regions a = .error cause) :
    Sound regions onFailure debugger budget { d with absent := d.absent.insert a } := by
  refine ⟨sound.coherent, sound.policy_eq, ?_⟩
  intro b marked
  rw [isAbsent_insert, Bool.or_eq_true, beq_iff_eq] at marked
  rcases marked with rfl | marked
  · exact ⟨marks, cause, unknown⟩
  · exact sound.absent b marked

theorem Sound.dispatch (sound : d.Sound regions onFailure debugger budget)
    (ends : (d.compiler.run a h).1 ≠ .error (.exhausted a)) :
    (d.dispatch a h).2.1.Sound regions onFailure debugger budget := by
  rw [Dispatcher.dispatch]
  split
  · exact sound
  · rcases sound.coherent.run_ended ends with ⟨cause, unknown, ran⟩ | ⟨_, after, h', _, kept, ran⟩
    · simp only [ran]
      split
      · exact sound
      next marks =>
        have marks := sound.policy_eq.symm.trans marks
        exact (sound.mark marks unknown).compiler (sound.coherent.log _)
    · rw [ran]
      exact sound.compiler kept

theorem Reachable.sound (reached : Reachable regions onFailure debugger budget d) :
    d.Sound regions onFailure debugger budget := by
  induction reached with
  | fresh onFailure debugger budget journal => exact ⟨.start journal, rfl, by simp [isAbsent]⟩
  | run _ a h ih =>
    rcases ih.coherent.run a h with ⟨_, _, ran⟩ | ⟨_, _, _, kept, ran⟩
    · exact ih.compiler (ran ▸ ih.coherent)
    · exact ih.compiler (ran ▸ kept)
  | dispatch _ a h ends ih => exact ih.dispatch ends
  | getOrCompile _ a ih =>
    rcases ih.coherent.getOrCompile a with ⟨_, _, same⟩ | ⟨_, _, _, made, kept⟩
    · exact ih.compiler (same ▸ ih.coherent)
    · exact ih.compiler (made ▸ kept)
  | precompile _ entries ih => exact ih.compiler (ih.coherent.precompile entries)
  | save _ room ih => exact ih.compiler (ih.coherent.save room)
  | load _ _ saved ih saver => exact ih.compiler (ih.coherent.load saver.coherent saved)

/-- The dispatchers may differ in the units they keep, and, where nothing can be
decoded, in whether this is marked already. -/
structure Alike (regions : List CodeRegion) (onFailure : FailurePolicy)
    (debugger : Option Debugger) (budget : Nat) (d d' : Dispatcher) : Prop where
  left : d.compiler.Coherent regions debugger budget
  right : d'.compiler.Coherent regions debugger budget
  policy_left : d.policy = onFailure
  policy_right : d'.policy = onFailure
  absent : ∀ a, d.isAbsent a = d'.isAbsent a ∨
    onFailure = .markAbsent ∧ ∃ cause, Routine.discover regions a = .error cause

theorem Sound.alike (sound : d.Sound regions onFailure debugger budget) :
    Alike regions onFailure debugger budget d
      { compiler := { regions, debugger, budget }, policy := onFailure } := by
  refine ⟨sound.coherent, .start {}, sound.policy_eq, rfl, ?_⟩
  intro a
  cases marked : d.isAbsent a with
  | false => exact .inl (by simp [isAbsent])
  | true => exact .inr (sound.absent a marked)

theorem Alike.compilers (alike : Alike regions onFailure debugger budget d d')
    (left : c.Coherent regions debugger budget) (right : c'.Coherent regions debugger budget) :
    Alike regions onFailure debugger budget { d with compiler := c } { d' with compiler := c' } :=
  ⟨left, right, alike.policy_left, alike.policy_right, alike.absent⟩

theorem Alike.mark (alike : Alike regions onFailure debugger budget d d') (a : UInt16) :
    Alike regions onFailure debugger budget { d with absent := d.absent.insert a }
      { d' with absent := d'.absent.insert a } := by
  refine ⟨alike.left, alike.right, alike.policy_left, alike.policy_right, ?_⟩
  intro b
  rw [isAbsent_insert, isAbsent_insert]
  exact (alike.absent b).imp_left fun same => by rw [same]

/-- Where nothing can be decoded, nothing runs, and this is marked and noted down. -/
theorem dispatch_declines (coherent : d.compiler.Coherent regions debugger budget)
    (marks : d.policy = .markAbsent) (unknown : Routine.discover regions a = .error cause)
    (h : Hardware) :
    ∃ journal absent, d.dispatch a h =
      (.ok false, { d with compiler := { d.compiler with journal }, absent }, h) ∧
      ∀ b, absent.contains b = (a == b || d.isAbsent b) := by
  rw [Dispatcher.dispatch]
  split
  next marked =>
    refine ⟨d.compiler.journal, d.absent, rfl, fun b => ?_⟩
    change d.isAbsent b = _
    by_cases same : a = b
    · rw [← same, marked, Bool.or_true]
    · rw [beq_false_of_ne same, Bool.false_or]
  next =>
    rcases coherent.run a h with ⟨cause', _, ran⟩ | ⟨u, _, ⟨r, found, _⟩, _⟩
    · simp only [ran]
      split
      next aborts => cases marks.symm.trans aborts
      next => exact ⟨_, _, rfl, isAbsent_insert a⟩
    · cases unknown.symm.trans found

theorem dispatch_unknown (coherent : d.compiler.Coherent regions debugger budget)
    (marks : d.policy = .markAbsent) (unknown : Routine.discover regions a = .error cause)
    (h : Hardware) :
    ∃ after, d.dispatch a h = (.ok false, after, h) ∧
      after.compiler.Coherent regions debugger budget ∧ after.policy = .markAbsent ∧
      ∀ b, after.isAbsent b = (a == b || d.isAbsent b) := by
  obtain ⟨journal, absent, declined, marked⟩ := dispatch_declines coherent marks unknown h
  have noted := coherent.grow (.record .refl d.compiler.hits d.compiler.invocations journal)
  exact ⟨_, declined, noted, marks, marked⟩

theorem Alike.dispatch (alike : Alike regions onFailure debugger budget d d') (a : UInt16)
    (h : Hardware) :
    ∃ result h' after after', d.dispatch a h = (result, after, h') ∧
      d'.dispatch a h = (result, after', h') ∧
      Alike regions onFailure debugger budget after after' := by
  rcases alike.absent a with same | ⟨rfl, cause, unknown⟩
  · cases marked : d.isAbsent a with
    | true =>
      refine ⟨.ok false, h, d, d', ?_, ?_, alike⟩
      · rw [Dispatcher.dispatch, if_pos marked]
      · rw [Dispatcher.dispatch, if_pos (same ▸ marked)]
    | false =>
      obtain ⟨result, h', after, after', ran, ran', kept, kept'⟩ :=
        alike.left.run_same alike.right a h
      have both := alike.compilers kept kept'
      have policies : d.policy = d'.policy := alike.policy_left.trans alike.policy_right.symm
      simp only [Dispatcher.dispatch, ← same, marked, Bool.false_eq_true, if_false, ran, ran']
      cases result with
      | ok _ => exact ⟨_, _, _, _, rfl, rfl, both⟩
      | error e =>
        dsimp only
        split
        next aborts =>
          split
          · exact ⟨_, _, _, _, rfl, rfl, both⟩
          next marks => cases aborts.symm.trans (policies.trans marks)
        next marks =>
          split
          next aborts => cases marks.symm.trans (policies.trans aborts)
          · exact ⟨_, _, _, _, rfl, rfl, (alike.mark a).compilers (kept.log _) (kept'.log _)⟩
  · -- one of the two may have marked the address before; now both have
    obtain ⟨after, ran, kept, marks, marked⟩ :=
      dispatch_unknown alike.left alike.policy_left unknown h
    obtain ⟨after', ran', kept', marks', marked'⟩ :=
      dispatch_unknown alike.right alike.policy_right unknown h
    refine ⟨_, _, _, _, ran, ran', kept, kept', marks, marks', ?_⟩
    intro b
    rw [marked, marked']
    exact (alike.absent b).imp_left fun same => by rw [same]

theorem Alike.step (alike : Alike regions onFailure debugger budget d d') (h : Hardware) :
    ∃ result h' after after', d.step h = (result, after, h') ∧ d'.step h = (result, after', h') ∧
      Alike regions onFailure debugger budget after after' := by
  obtain ⟨result, h', after, after', ran, ran', alike⟩ := alike.dispatch h.pc h
  simp only [Dispatcher.step, ran, ran']
  match result with
  | .error e => exact ⟨_, _, _, _, rfl, rfl, alike⟩
  | .ok true => exact ⟨_, _, _, _, rfl, rfl, alike⟩
  | .ok false => exact ⟨_, _, _, _, rfl, rfl, alike⟩

theorem Alike.steps (alike : Alike regions onFailure debugger budget d d') (n : Nat)
    (h : Hardware) :
    ∃ registers error h' after after', d.steps n h = (registers, error, after, h') ∧
      d'.steps n h = (registers, error, after', h') := by
  induction n generalizing d d' h with
  | zero => exact ⟨_, _, _, _, _, rfl, rfl⟩
  | succ n ih =>
    obtain ⟨result, h', after, after', ran, ran', alike⟩ := alike.step h
    cases result with
    | error e =>
      simp only [Dispatcher.steps, ran, ran']
      exact ⟨_, _, _, _, _, rfl, rfl⟩
    | ok _ =>
      obtain ⟨registers, error, last, _, _, rest, rest'⟩ := ih alike h'
      simp only [Dispatcher.steps, ran, ran', rest, rest']
      exact ⟨_, _, _, _, _, rfl, rfl⟩

/-- Whatever has been compiled, loaded or marked absent, the dispatcher takes the
steps of a new one: the registers after each step, the error that stops it and the
hardware it leaves are the same. -/
theorem steps_eq_fresh (reached : Reachable regions onFailure debugger budget d) (n : Nat)
    (h : Hardware) :
    let fresh : Dispatcher := { compiler := { regions, debugger, budget }, policy := onFailure }
    (d.steps n h).1 = (fresh.steps n h).1 ∧ (d.steps n h).2.1 = (fresh.steps n h).2.1 ∧
      (d.steps n h).2.2.2 = (fresh.steps n h).2.2.2 := by
  intro fresh
  obtain ⟨registers, error, last, _, _, ran, ran'⟩ := reached.sound.alike.steps n h
  rw [ran, ran']
  exact ⟨rfl, rfl, rfl⟩

/-- The theorem at a dispatcher that has loaded a saved unit and marked an address absent. -/
theorem steps_eq_fresh_loaded :
    let regions : List CodeRegion := [⟨0x8000, #[0xCA, 0xD0, 0xFD, 0x60]⟩]
    let saver : Dispatcher := { compiler := (Compiler.getOrCompile { regions } 0x8000).2 }
    let fresh : Dispatcher := { compiler := { regions } }
    ∃ count bytes, (saver.compiler.save none).1 = .ok (count, bytes) ∧
      let loaded : Dispatcher := { fresh with compiler := (fresh.compiler.load bytes).2 }
      let d := (loaded.dispatch 0x9000 default).2.1
      d.isAbsent 0x9000 = true ∧ ∀ n h, (d.steps n h).1 = (fresh.steps n h).1 ∧
        (d.steps n h).2.1 = (fresh.steps n h).2.1 ∧
        (d.steps n h).2.2.2 = (fresh.steps n h).2.2.2 := by
  intro regions saver fresh
  have start : Reachable regions .markAbsent none _ fresh := .fresh _ _ _ {}
  have unmapped : (Routine.discover regions 0x9000).toBool = false := by decide +kernel
  cases unknown : Routine.discover regions 0x9000 with
  | ok r => simp [unknown, Except.toBool] at unmapped
  | error cause =>
    have shape : (Routine.discover regions 0x8000).map (fun r =>
        (decide (r.instructions.Pairwise fun i j => Routine.precedes r.entry i j = true),
          decide (20 + (Artifact.encodeUnit
            ⟨0x8000, r.instructions.map fun i => ⟨i, i.lower r.targets⟩⟩).length ≤
              Artifact.sizeLimit))) =
        .ok (true, true) := by decide +kernel
    obtain ⟨r, discovered⟩ : ∃ r, Routine.discover regions 0x8000 = .ok r := by
      cases discovered : Routine.discover regions 0x8000 with
      | ok r => exact ⟨r, rfl⟩
      | error e => simp [discovered, Except.map] at shape
    obtain ⟨sorted, short⟩ : _ ∧ _ := by simpa [discovered, Except.map] using shape
    obtain ⟨⟨count, bytes⟩, saved⟩ : ∃ written, (saver.compiler.save none).1 = .ok written := by
      dsimp only [saver]
      exact Compiler.exists_saved_first discovered sorted short
    refine ⟨count, bytes, saved, ?_⟩
    intro loaded d
    have reached : Reachable regions .markAbsent none _ loaded :=
      start.load (start.getOrCompile 0x8000) saved
    have ends : (loaded.compiler.run 0x9000 default).1 ≠ .error (.exhausted 0x9000) := by
      rcases reached.sound.coherent.run 0x9000 default with ⟨_, _, ran⟩ | ⟨_, _, ⟨_, found, _⟩, _⟩
      · simp [ran]
      · cases unknown.symm.trans found
    obtain ⟨after, ran, _, _, marked⟩ :=
      dispatch_unknown reached.sound.coherent reached.sound.policy_eq unknown default
    refine ⟨?_, steps_eq_fresh (reached.dispatch 0x9000 default ends)⟩
    rw [show d = after by simp only [d, ran], marked]
    rfl

end NesRoutine.Dispatcher

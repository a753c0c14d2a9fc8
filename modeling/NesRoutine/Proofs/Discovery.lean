import Mathlib.Data.Fintype.Card
import NesRoutine.Proofs.Decoding
import NesRoutine.Routine

/-! Discovery finds exactly the code that control flow leads to. The search is
first taken as a loop without a bound on its turns; the bound is shown to be
enough, and everything else is proved of the loop. -/
namespace NesRoutine

/-- There are no more addresses than these. -/
theorem length_le_of_distinct {as : List UInt16} (distinct : as.Nodup) : as.length ≤ 65536 := by
  have distinct : (as.map UInt16.toFin).Nodup :=
    distinct.map fun _ _ same => UInt16.toFin_inj.mp same
  simpa using distinct.length_le_card

theorem Instruction.mem_successors {i : Instruction} {a : UInt16} :
    a ∈ i.successors ↔ i.target = some a ∨ i.endsPath = false ∧ a = i.next := by
  simp only [successors, List.mem_append, Option.mem_toList]
  cases i.endsPath <;> simp

theorem Instruction.successors_length (i : Instruction) : i.successors.length ≤ 2 := by
  cases target : i.target <;> cases ends : i.endsPath <;> simp [successors, target, ends]

namespace Routine

variable {regions : List CodeRegion} {entry : UInt16}

/-- The addresses that control leads to from the entry: the target of an
instruction, and what follows it unless the path ends there. -/
inductive Reach (regions : List CodeRegion) (entry : UInt16) : UInt16 → Prop where
  | entry : Reach regions entry entry
  | target : Reach regions entry a → decodeAt regions a = .ok i → i.target = some t →
      Reach regions entry t
  | next : Reach regions entry a → decodeAt regions a = .ok i → i.endsPath = false →
      Reach regions entry i.next

theorem Reach.successor (reached : Reach regions entry a) (decoded : decodeAt regions a = .ok i)
    (member : b ∈ i.successors) : Reach regions entry b := by
  rcases Instruction.mem_successors.mp member with target | ⟨continues, rfl⟩
  · exact reached.target decoded target
  · exact reached.next decoded continues

def Decodes (regions : List CodeRegion) (a : UInt16) : Prop := ∃ i, decodeAt regions a = .ok i

/-- What discovery promises of a routine it returns. -/
structure Exact (regions : List CodeRegion) (entry : UInt16) (r : Routine) : Prop where
  entry_eq : r.entry = entry
  mem_iff : ∀ i, i ∈ r.instructions ↔ ∃ a, Reach regions entry a ∧ decodeAt regions a = .ok i
  covers : ∀ a, Reach regions entry a → ∃ i ∈ r.instructions, i.address = a
  distinct : (r.instructions.map (·.address)).Nodup
  first : (r.instructions.map (·.address)).head? = some entry
  mem_targets : ∀ t, t ∈ r.targets ↔ ∃ i ∈ r.instructions, i.target = some t
  target_found : ∀ t ∈ r.targets, ∃ i ∈ r.instructions, i.address = t

theorem Exact.decoded (exact : Exact regions entry r) (member : i ∈ r.instructions) :
    Reach regions entry i.address ∧ decodeAt regions i.address = .ok i := by
  obtain ⟨a, reached, decoded⟩ := (exact.mem_iff i).mp member
  rw [decodeAt_address decoded]
  exact ⟨reached, decoded⟩

/-- The search as a loop that ends only when nothing is pending or an address
does not decode. -/
inductive Walk (regions : List CodeRegion) :
    List UInt16 → Search → Except DecodeError Search → Prop where
  | done : Walk regions [] s (.ok s)
  | again : a ∈ s.visited → Walk regions pending s result → Walk regions (a :: pending) s result
  | fail : a ∉ s.visited → decodeAt regions a = .error e → Walk regions (a :: pending) s (.error e)
  | add {a pending s i} : a ∉ s.visited → decodeAt regions a = .ok i →
      Walk regions (pending ++ i.successors) (s.add i) result → Walk regions (a :: pending) s result

namespace Search

def addresses (s : Search) : List UInt16 := s.found.toList.map (·.address)

theorem addresses_add (s : Search) (i : Instruction) :
    (s.add i).addresses = s.addresses ++ [i.address] := by
  simp [addresses, add]

theorem mem_targets_add (s : Search) (i : Instruction) (t : UInt16) :
    t ∈ (s.add i).targets ↔ t ∈ s.targets ∨ i.target = some t := by
  simp [add, Std.TreeSet.mem_insertMany_list]

theorem mem_visited_add (s : Search) (i : Instruction) (a : UInt16) :
    a ∈ (s.add i).visited ↔ i.address = a ∨ a ∈ s.visited := by
  simp [add, Std.TreeSet.mem_insert]

end Search

/-- What holds of the search whenever it takes up the pending addresses. -/
structure Sound (regions : List CodeRegion) (entry : UInt16) (pending : List UInt16)
    (s : Search) : Prop where
  decoded : ∀ i ∈ s.found.toList, Reach regions entry i.address ∧ decodeAt regions i.address = .ok i
  visited : ∀ a, a ∈ s.visited ↔ a ∈ s.addresses
  distinct : s.addresses.Nodup
  pending_reached : ∀ a ∈ pending, Reach regions entry a
  closed : ∀ i ∈ s.found.toList, ∀ a ∈ i.successors, a ∈ s.addresses ∨ a ∈ pending
  first : (s.addresses ++ pending).head? = some entry
  targets : ∀ t, t ∈ s.targets ↔ ∃ i ∈ s.found.toList, i.target = some t

namespace Sound

theorem start : Sound regions entry [entry] {} where
  decoded := by simp
  visited a := by simp [Search.addresses, Std.TreeSet.not_mem_emptyc]
  distinct := by simp [Search.addresses]
  pending_reached a member := by
    obtain rfl := List.mem_singleton.mp member
    exact .entry
  closed := by simp
  first := by simp [Search.addresses]
  targets t := by simp [Std.TreeSet.not_mem_emptyc]

theorem again (sound : Sound regions entry (a :: pending) s) (seen : a ∈ s.visited) :
    Sound regions entry pending s where
  decoded := sound.decoded
  visited := sound.visited
  distinct := sound.distinct
  pending_reached b member := sound.pending_reached b (List.mem_cons_of_mem _ member)
  closed i found b member := by
    rcases sound.closed i found b member with old | waiting
    · exact Or.inl old
    · rcases List.mem_cons.mp waiting with rfl | later
      · exact Or.inl ((sound.visited _).mp seen)
      · exact Or.inr later
  first := by
    -- Something was found before, so the head does not come from the pending addresses.
    have member := (sound.visited a).mp seen
    have head := sound.first
    cases found : s.addresses with
    | nil => simp [found] at member
    | cons b rest => simpa [found] using head
  targets := sound.targets

theorem add (sound : Sound regions entry (a :: pending) s) (fresh : a ∉ s.visited)
    (decoded : decodeAt regions a = .ok i) :
    Sound regions entry (pending ++ i.successors) (s.add i) where
  decoded j member := by
    have reached := sound.pending_reached a List.mem_cons_self
    have same := decodeAt_address decoded
    have cases : j ∈ s.found.toList ∨ j = i := by simpa [Search.add] using member
    rcases cases with old | rfl
    · exact sound.decoded j old
    · rw [same]
      exact ⟨reached, decoded⟩
  visited b := by
    rw [Search.mem_visited_add, Search.addresses_add, sound.visited]
    simp only [List.mem_append, List.mem_singleton]
    tauto
  distinct := by
    have absent : i.address ∉ s.addresses := by
      rwa [decodeAt_address decoded, ← sound.visited]
    rw [Search.addresses_add, List.nodup_append]
    refine ⟨sound.distinct, List.nodup_singleton _, ?_⟩
    rintro b old c added rfl
    rw [List.mem_singleton.mp added] at old
    exact absent old
  pending_reached b member := by
    rcases List.mem_append.mp member with old | added
    · exact sound.pending_reached b (List.mem_cons_of_mem _ old)
    · exact (sound.pending_reached a List.mem_cons_self).successor decoded added
  closed j member b successor := by
    have same := decodeAt_address decoded
    have cases : j ∈ s.found.toList ∨ j = i := by simpa [Search.add] using member
    rw [Search.addresses_add, List.mem_append, List.mem_append, List.mem_singleton, same]
    rcases cases with old | rfl
    · rcases sound.closed j old b successor with seen | waiting
      · exact Or.inl (Or.inl seen)
      · rcases List.mem_cons.mp waiting with rfl | later
        · exact Or.inl (Or.inr rfl)
        · exact Or.inr (Or.inl later)
    · exact Or.inr (Or.inr successor)
  first := by
    have head := sound.first
    rw [Search.addresses_add, decodeAt_address decoded]
    cases found : s.addresses <;> simpa [found] using head
  targets t := by
    have cases (j : Instruction) : j ∈ (s.add i).found.toList ↔ j ∈ s.found.toList ∨ j = i := by
      simp [Search.add]
    rw [Search.mem_targets_add, sound.targets]
    simp only [cases]
    constructor
    · rintro (⟨j, old, target⟩ | target)
      · exact ⟨j, Or.inl old, target⟩
      · exact ⟨i, Or.inr rfl, target⟩
    · rintro ⟨j, old | rfl, target⟩
      · exact Or.inl ⟨j, old, target⟩
      · exact Or.inr target

/-- No more is found than there are addresses. -/
theorem size_found (sound : Sound regions entry pending s) : s.found.size ≤ 65536 := by
  simpa [Search.addresses] using length_le_of_distinct sound.distinct

/-- With nothing pending the search has met all that can be reached. -/
theorem complete (sound : Sound regions entry [] s) (reached : Reach regions entry a) :
    a ∈ s.addresses := by
  have closed {b c : UInt16} {i : Instruction} (found : b ∈ s.addresses)
      (decoded : decodeAt regions b = .ok i) (member : c ∈ i.successors) : c ∈ s.addresses := by
    obtain ⟨j, member', rfl⟩ := List.mem_map.mp found
    obtain rfl : j = i := Except.ok.inj ((sound.decoded j member').2.symm.trans decoded)
    simpa using sound.closed j member' c member
  induction reached with
  | entry => exact List.mem_of_mem_head? (by simpa using sound.first)
  | target _ decoded target ih =>
    exact closed ih decoded (Instruction.mem_successors.mpr (Or.inl target))
  | next _ decoded continues ih =>
    exact closed ih decoded (Instruction.mem_successors.mpr (Or.inr ⟨continues, rfl⟩))

theorem exact (sound : Sound regions entry [] s) :
    Exact regions entry ⟨entry, s.found.toList, s.targets⟩ where
  entry_eq := rfl
  mem_iff i := by
    constructor
    · intro found
      exact ⟨i.address, sound.decoded i found⟩
    · rintro ⟨a, reached, decoded⟩
      obtain ⟨j, found, rfl⟩ := List.mem_map.mp (sound.complete reached)
      obtain rfl : j = i := Except.ok.inj ((sound.decoded j found).2.symm.trans decoded)
      exact found
  covers _ reached := List.mem_map.mp (sound.complete reached)
  distinct := sound.distinct
  first := by simpa [Search.addresses] using sound.first
  mem_targets := sound.targets
  target_found t member := by
    obtain ⟨i, found, target⟩ := (sound.targets t).mp member
    obtain ⟨reached, decoded⟩ := sound.decoded i found
    exact List.mem_map.mp (sound.complete (reached.target decoded target))

end Sound

theorem Walk.sound (walk : Walk regions pending s result) (sound : Sound regions entry pending s) :
    ∀ s', result = .ok s' → Sound regions entry [] s' := by
  induction walk with
  | done =>
    rintro _ ⟨⟩
    exact sound
  | again seen _ ih => exact ih (sound.again seen)
  | fail => rintro _ ⟨⟩
  | add fresh decoded _ ih => exact ih (sound.add fresh decoded)

/-- At most this many turns remain: one for each pending address, and two more
for each address that is still to be decoded. -/
def turns (pending : List UInt16) (s : Search) : Nat :=
  pending.length + 2 * (65536 - s.found.size)

/-- A search that is given enough turns is not cut off. -/
theorem explore_walks (fuel : Nat) {pending : List UInt16} {s : Search}
    (sound : Sound regions entry pending s) (enough : turns pending s ≤ fuel) :
    Walk regions pending s (explore regions fuel pending s) := by
  induction fuel generalizing pending s with
  | zero =>
    have none : pending = [] := List.length_eq_zero_iff.mp (by simp only [turns] at enough; omega)
    subst none
    exact .done
  | succ fuel ih =>
    cases pending with
    | nil => exact .done
    | cons a pending =>
      rw [explore]
      split
      · rename_i seen
        have seen : a ∈ s.visited := Std.TreeSet.mem_iff_contains.mpr seen
        refine .again seen (ih (sound.again seen) ?_)
        simp only [turns, List.length_cons] at enough ⊢
        omega
      · rename_i fresh
        have fresh : a ∉ s.visited := fun seen => fresh (Std.TreeSet.mem_iff_contains.mp seen)
        cases decoded : decodeAt regions a with
        | error e => exact .fail fresh decoded
        | ok i =>
          have next := sound.add fresh decoded
          refine .add fresh decoded (ih next ?_)
          -- The new instruction takes one place of the 65536, which pays for its successors.
          have room := next.size_found
          have added := i.successors_length
          simp only [turns, List.length_cons, List.length_append, Search.add,
            Array.size_push] at enough room ⊢
          omega

theorem explore_start (regions : List CodeRegion) (entry : UInt16) :
    Walk regions [entry] {} (explore regions searchBound [entry] {}) :=
  explore_walks searchBound Sound.start (by simp [turns, searchBound])

theorem discover_exact (discovered : discover regions entry = .ok r) : Exact regions entry r := by
  have walk := explore_start regions entry
  unfold discover at discovered
  cases explored : explore regions searchBound [entry] {} with
  | error e => simp [explored] at discovered
  | ok s =>
    rw [explored] at discovered walk
    obtain rfl := Except.ok.inj discovered
    exact (walk.sound Sound.start s rfl).exact

end Routine
end NesRoutine

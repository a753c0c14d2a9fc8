import NesRoutine.Proofs.Discovery

/-! The order of a routine's instructions: by how far they are from the entry,
going upward and around the end of the address space. -/
namespace NesRoutine.Routine

theorem precedes_iff {entry : UInt16} {i j : Instruction} :
    precedes entry i j = true ↔ (i.address - entry).toNat ≤ (j.address - entry).toNat := by
  have := entry.toNat_lt
  have := i.address.toNat_lt
  have := j.address.toNat_lt
  simp only [precedes, UInt16.lt_iff_toNat_lt, UInt16.le_iff_toNat_le, UInt16.toNat_sub]
  split <;> simp only [decide_eq_true_eq] <;> omega

theorem ordered_perm (r : Routine) : r.ordered.Perm r.instructions := List.mergeSort_perm _ _

/-- What is in order is left as it is. -/
theorem ordered_of_sorted {r : Routine}
    (sorted : r.instructions.Pairwise fun i j => precedes r.entry i j = true) :
    r.ordered = r.instructions :=
  List.mergeSort_of_pairwise sorted

theorem ordered_sorted (r : Routine) :
    r.ordered.Pairwise fun i j => (i.address - r.entry).toNat ≤ (j.address - r.entry).toNat := by
  have trans (i j k : Instruction) (first : precedes r.entry i j = true)
      (second : precedes r.entry j k = true) : precedes r.entry i k = true :=
    precedes_iff.mpr (Nat.le_trans (precedes_iff.mp first) (precedes_iff.mp second))
  have total (i j : Instruction) : (precedes r.entry i j || precedes r.entry j i) = true := by
    rw [Bool.or_eq_true, precedes_iff, precedes_iff]
    omega
  exact (List.pairwise_mergeSort trans total r.instructions).imp precedes_iff.mp

theorem ordered_head {r : Routine} (member : i ∈ r.instructions) (entry : i.address = r.entry) :
    ∃ first rest, r.ordered = first :: rest ∧ first.address = r.entry := by
  have listed : i ∈ r.ordered := r.ordered_perm.mem_iff.mpr member
  have sorted := r.ordered_sorted
  cases ordered : r.ordered with
  | nil => simp [ordered] at listed
  | cons first rest =>
    rw [ordered] at listed sorted
    refine ⟨first, rest, rfl, ?_⟩
    rcases List.mem_cons.mp listed with rfl | later
    · exact entry
    · have nearest := (List.pairwise_cons.mp sorted).1 i later
      have none : (i.address - r.entry).toNat = 0 := by simp [entry]
      have := first.address.toNat_lt
      have := r.entry.toNat_lt
      apply UInt16.toNat_inj.mp
      rw [UInt16.toNat_sub] at nearest
      omega

namespace Exact

variable {regions : List CodeRegion} {entry : UInt16} {r : Routine}

theorem ordered_distinct (exact : Exact regions entry r) : (r.ordered.map (·.address)).Nodup :=
  (r.ordered_perm.map _).nodup_iff.mpr exact.distinct

theorem mem_ordered (exact : Exact regions entry r) {a : UInt16} :
    a ∈ r.ordered.map (·.address) ↔ Reach regions entry a := by
  rw [(r.ordered_perm.map _).mem_iff, List.mem_map]
  constructor
  · rintro ⟨i, member, rfl⟩
    exact (exact.decoded member).1
  · exact exact.covers a

/-- No two instructions are equally far from the entry. -/
theorem ordered_increasing (exact : Exact regions entry r) :
    r.ordered.Pairwise fun i j => i.address - entry < j.address - entry := by
  have sorted := r.ordered_sorted
  have apart : r.ordered.Pairwise fun i j => i.address ≠ j.address :=
    List.pairwise_map.mp exact.ordered_distinct
  rw [exact.entry_eq] at sorted
  refine sorted.imp₂ ?_ apart
  intro i j near differ
  have distance : (i.address - entry).toNat ≠ (j.address - entry).toNat := by
    intro same
    exact differ ((UInt16.sub_left_inj entry).mp (UInt16.toNat_inj.mp same))
  exact UInt16.lt_iff_toNat_lt.mpr (Nat.lt_of_le_of_ne near distance)

theorem ordered_first (exact : Exact regions entry r) :
    ∃ first, r.ordered.head? = some first ∧ decodeAt regions entry = .ok first := by
  obtain ⟨i, member, address⟩ := exact.covers entry .entry
  obtain ⟨first, rest, ordered, head⟩ := ordered_head member (address.trans exact.entry_eq.symm)
  have found : first ∈ r.instructions := by
    rw [← r.ordered_perm.mem_iff, ordered]
    exact List.mem_cons_self
  obtain ⟨_, decoded⟩ := exact.decoded found
  rw [head, exact.entry_eq] at decoded
  exact ⟨first, by rw [ordered, List.head?_cons], decoded⟩

end Exact
end NesRoutine.Routine

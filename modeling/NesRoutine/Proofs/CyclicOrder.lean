import NesRoutine.Proofs.Linking

/-! A routine is laid out from its entry upward and around the end of the address
space, so that it begins with the entry wherever the rest of it lies. Each target
has one label in all of it, and there are no others. -/
namespace NesRoutine

/-- A label is listed as often as it stands among the micro-operations. -/
theorem Layout.count_labelsOf (ms : List MicroOp) (l : Label) :
    (labelsOf ms).count l = ms.count (.label l) := by
  induction ms with
  | nil => rfl
  | cons m ms ih =>
    cases m with
    | label l' => simp [labelsOf, List.count_cons, ih]
    | effect | goto | branch | exit => simp [labelsOf, ih]

namespace Routine

/-- All micro-operations of a routine, from its entry on. -/
def code (r : Routine) : List MicroOp := r.lower.flatMap (·.body)

theorem count_code_label (r : Routine) (l : Label) :
    r.code.count (.label l) = (r.lower.flatMap (Layout.labelsOf ·.body)).count l := by
  simp only [code, List.count_flatMap, Function.comp_def, Layout.count_labelsOf]

theorem lower_instruction (r : Routine) : r.lower.map (·.instruction) = r.ordered := by
  rw [lower, List.map_map]
  exact List.map_id _

variable {regions : List CodeRegion} {entry : UInt16} {r : Routine}

namespace Exact

/-- A target is the address of an instruction, so its label stands somewhere. -/
theorem mem_labels (exact : Exact regions entry r) {l : Label} :
    l ∈ r.lower.flatMap (Layout.labelsOf ·.body) ↔ ∃ t ∈ r.targets, l = .instruction t := by
  rw [exact.labels_lower]
  constructor
  · intro member
    obtain ⟨t, listed, rfl⟩ := List.mem_map.mp member
    have known := (List.mem_filter.mp listed).2
    exact ⟨t, Std.TreeSet.contains_iff_mem.mp known, rfl⟩
  · rintro ⟨t, known, rfl⟩
    obtain ⟨i, found, rfl⟩ := exact.target_found t known
    have listed : i.address ∈ r.ordered.map (·.address) :=
      List.mem_map_of_mem (r.ordered_perm.mem_iff.mpr found)
    have kept := List.mem_filter.mpr ⟨listed, Std.TreeSet.contains_iff_mem.mpr known⟩
    exact List.mem_map_of_mem kept

theorem count_target (exact : Exact regions entry r) (known : t ∈ r.targets) :
    r.code.count (.label (.instruction t)) = 1 := by
  rw [count_code_label]
  exact List.count_eq_one_of_mem exact.labels_distinct (exact.mem_labels.mpr ⟨t, known, rfl⟩)

/-- The label of a target stands in front of the instruction at that address. -/
theorem label_first (exact : Exact regions entry r) (known : t ∈ r.targets) :
    ∃ x ∈ r.lower, x.instruction.address = t ∧
      x.body.head? = some (.label (.instruction t)) := by
  obtain ⟨i, found, rfl⟩ := exact.target_found t known
  refine ⟨⟨i, i.lower r.targets⟩, ?_, rfl, ?_⟩
  · exact List.mem_map_of_mem (r.ordered_perm.mem_iff.mpr found)
  · rw [Instruction.lower, if_pos (Std.TreeSet.contains_iff_mem.mpr known)]
    rfl

theorem label_mem_code (exact : Exact regions entry r) {l : Label} (stands : .label l ∈ r.code) :
    ∃ t ∈ r.targets, l = .instruction t := by
  have listed := List.count_pos_iff.mpr stands
  rw [count_code_label, List.count_pos_iff] at listed
  exact exact.mem_labels.mp listed

/-- What can be reached is lowered once. -/
theorem count_lowered (exact : Exact regions entry r) (reached : Reach regions entry a) :
    (r.lower.map (·.instruction.address)).count a = 1 := by
  have addresses : r.lower.map (·.instruction.address) = r.ordered.map (·.address) := by
    rw [← lower_instruction, List.map_map]
    rfl
  rw [addresses]
  exact List.count_eq_one_of_mem exact.ordered_distinct (exact.mem_ordered.mpr reached)

theorem lowered_reached (exact : Exact regions entry r) {x : Lowered} (listed : x ∈ r.lower) :
    Reach regions entry x.instruction.address := by
  have member : x.instruction ∈ r.ordered := by
    rw [← lower_instruction]
    exact List.mem_map_of_mem listed
  exact exact.mem_ordered.mp (List.mem_map_of_mem member)

end Exact

/-- The order of a discovered routine is a rearrangement of what was found. It begins
with the instruction at the entry, and the distance from the entry, modulo 65536, grows
all the way. The routine is lowered in this order, with each address that can be reached
once. Every target has one label in the whole code, in front of the instruction there,
and there is no label besides. -/
theorem cyclic_order (discovered : discover regions entry = .ok r) :
    (r.ordered.Perm r.instructions ∧
      (∃ first, r.ordered.head? = some first ∧ first.address = entry ∧
        decodeAt regions entry = .ok first) ∧
      r.ordered.Pairwise fun i j => i.address - entry < j.address - entry) ∧
    (r.lower.map (·.instruction) = r.ordered ∧
      (∀ a, Reach regions entry a → (r.lower.map (·.instruction.address)).count a = 1) ∧
      ∀ x ∈ r.lower, Reach regions entry x.instruction.address) ∧
    (∀ t, t ∈ r.targets ↔ ∃ i ∈ r.instructions, i.target = some t) ∧
    (∀ t ∈ r.targets, r.code.count (.label (.instruction t)) = 1 ∧
      ∃ x ∈ r.lower, x.instruction.address = t ∧
        x.body.head? = some (.label (.instruction t))) ∧
    ∀ l, .label l ∈ r.code → ∃ t ∈ r.targets, l = .instruction t := by
  have exact := discover_exact discovered
  refine ⟨⟨r.ordered_perm, ?_, exact.ordered_increasing⟩, ⟨r.lower_instruction, ?_, ?_⟩,
    exact.mem_targets, ?_, ?_⟩
  · obtain ⟨first, head, decoded⟩ := exact.ordered_first
    exact ⟨first, head, decodeAt_address decoded, decoded⟩
  · intro a reached
    exact exact.count_lowered reached
  · intro x listed
    exact exact.lowered_reached listed
  · intro t known
    exact ⟨exact.count_target known, exact.label_first known⟩
  · intro l stands
    exact exact.label_mem_code stands

/-- A branch in the last two bytes of memory and another in the first two, both to the
return just before them. -/
def aroundEnd : List CodeRegion :=
  [⟨0xFFFD, #[0x60, 0xF0, 0xFD]⟩, ⟨0x0000, #[0xD0, 0xFB, 0x60]⟩]

/-- The return comes last, although it was found second and lies next to the entry. -/
theorem cyclic_order_around_end :
    ∃ r, discover aroundEnd 0xFFFE = .ok r ∧
      r.instructions.map (·.address) = [0xFFFE, 0xFFFD, 0x0000, 0x0002] ∧
      r.ordered.map (·.address) = [0xFFFE, 0x0000, 0x0002, 0xFFFD] ∧
      (r.ordered.Pairwise fun i j => i.address - 0xFFFE < j.address - 0xFFFE) ∧
      r.code.count (.label (.instruction 0xFFFD)) = 1 ∧
      ∀ l, .label l ∈ r.code → l = .instruction 0xFFFD := by
  have shape : (discover aroundEnd 0xFFFE).map (fun r =>
      (r.instructions.map (·.address), r.targets.toList)) =
      .ok ([0xFFFE, 0xFFFD, 0x0000, 0x0002], [0xFFFD]) := by
    decide +kernel
  cases discovered : discover aroundEnd 0xFFFE with
  | error e =>
    rw [discovered] at shape
    cases shape
  | ok r =>
    rw [discovered] at shape
    obtain ⟨found, targets⟩ : _ ∧ _ := by simpa [Except.map] using shape
    have known (t : UInt16) : t ∈ r.targets ↔ t = 0xFFFD := by
      rw [← Std.TreeSet.mem_toList, targets, List.mem_singleton]
    obtain ⟨⟨_, _, increasing⟩, _, _, once, only⟩ := cyclic_order discovered
    have ordered : r.ordered.map (·.address) = [0xFFFE, 0x0000, 0x0002, 0xFFFD] := by
      refine @List.Perm.eq_of_pairwise UInt16 (fun a b => a - 0xFFFE < b - 0xFFFE) _ _ ?_
        (List.pairwise_map.mpr increasing) (by decide) ?_
      · intro a b _ _ before after
        exact absurd after (UInt16.lt_asymm before)
      · have listed := r.ordered_perm.map (·.address)
        rw [found] at listed
        exact listed.trans (by decide)
    refine ⟨r, rfl, found, ordered, increasing, (once 0xFFFD ((known _).mpr rfl)).1, ?_⟩
    intro l stands
    obtain ⟨t, target, rfl⟩ := only l stands
    rw [(known t).mp target]

end Routine
end NesRoutine
